import AmiNetXDuo.Lib.Interleaving
import AmiNetXDuo.TlsLib.Resume

/-!
# Connections that share the session cache

Any number of connections, each on its way through `TLSOpenA()`: prepare, a handshake whose messages
the servers choose, and then record, or evict after a failure. The three critical sections are
atomic; between them any step of any other connection may come.

Beside the state stands what happened: every handshake that was completed, with the master secret it
ran on, what the server said and the tickets it sent.

A resumed connection looks its entry up again by the key when it records a new ticket, and does not
compare the master secret. If another connection to the same host has replaced the session in
between, the ticket of the old session is stored beside the secret of the new one.

## Main definitions

* `ResumeSys`, `ResumeEvent`, `resumeExec` : the connections and their steps.
* `IssuedFor` : the credentials are those of one session.
* `keepsSession` : a resumed connection finds its own session when it records a ticket.

## Main results

* `resumeInv_step` : what every step preserves.
* `resume_oneSession_of_kept` : where `keepsSession` holds of every step, every entry is the record
  of one session, and so is every offer.
* `resume_mixedEntry` : in general it is not.
-/

namespace AmiNetXDuo.TlsLib

open Interleaving

/-! ### The system -/

/-- A handshake that was completed. -/
structure Handshake where
  /-- Whether it took up an earlier session. -/
  resumed : Bool
  master : Bytes
  sid : Bytes
  cipherSuite : UInt16
  version : UInt16
  /-- The tickets that the server sent. -/
  tickets : List Bytes
  deriving DecidableEq, Repr

/-- Where a connection is in `TLSOpenA()`. -/
inductive Phase
  /-- Before `tls_resume_prepare()`. -/
  | opened
  /-- In `nx_secure_tls_session_start()`. -/
  | handshaking
  /-- Before `tls_resume_evict()`. -/
  | failed
  /-- Before `tls_resume_record()`. -/
  | completed
  | closed
  deriving DecidableEq, Repr

/-- The library, its connections and what happened. -/
structure ResumeSys where
  base : TlsBase
  files : Files
  conn : Nat → TlsConnection
  phase : Nat → Phase
  /-- The tickets that the server of a connection has sent so far. -/
  issued : Nat → List Bytes
  handshakes : List Handshake

/-- The steps of a connection. -/
inductive ResumeEvent
  | prepare (c : Nat) (env : ResumeEnv)
  | clientHello (c : Nat) (room : HelloRoom)
  | serverHello (c : Nat) (sid : Bytes) (suite version : UInt16) (tls13 extended : Bool)
  | newSessionTicket (c : Nat) (body : Bytes)
  | fail (c : Nat)
  /-- The handshake is over; a full one agreed on this master secret, and its chain was checked
  against these roots. -/
  | finish (c : Nat) (master : Bytes) (roots : List (UInt32 × UInt32))
  | evict (c : Nat) (env : ResumeEnv)
  | record (c : Nat) (env : ResumeEnv)

/-- The state with a new connection record and a new place for it. -/
def ResumeSys.setConn (s : ResumeSys) (c : Nat) (conn : TlsConnection) (phase : Phase) :
    ResumeSys :=
  { s with conn := Function.update s.conn c conn, phase := Function.update s.phase c phase }

/-- Where `TLSOpenA()` goes after a handshake that failed. -/
def failPhase (conn : TlsConnection) : Phase :=
  if conn.resumeFlags.offered then .failed else .closed

/-- The session at the end of a handshake, with what `TLSOpenA()` copies from it. -/
def finishConn (conn : TlsConnection) (suite : UInt16) (master : Bytes)
    (roots : List (UInt32 × UInt32)) : TlsConnection :=
  { conn with
    session := { conn.session with
      masterSecret := if conn.resumeFlags.resumed then conn.session.masterSecret else master }
    cipherSuite := suite
    protocol := conn.session.protocolVersion
    roots := roots }

/-- The handshake that a connection has completed. -/
def handshakeOf (conn : TlsConnection) (tickets : List Bytes) : Handshake :=
  ⟨conn.resumeFlags.resumed, conn.session.masterSecret, conn.session.sessionId, conn.cipherSuite,
    conn.protocol, tickets⟩

/-- One step. -/
def resumeExec (s : ResumeSys) : ResumeEvent → Option ResumeSys
  | .prepare c env =>
    if s.phase c ≠ .opened then none
    else
      let r := tlsResumePrepare s.base s.files (s.conn c) env
      some { s.setConn c r.2 .handshaking with base := r.1 }
  | .clientHello c room =>
    if s.phase c ≠ .handshaking then none
    else some (s.setConn c (tlsClientHello (s.conn c) room) .handshaking)
  | .serverHello c sid suite version tls13 extended =>
    if s.phase c ≠ .handshaking ∨ (s.conn c).resumeFlags.resumed then none
    else
      match tlsServerHello (s.conn c) sid suite version tls13 extended with
      | none => some (s.setConn c (s.conn c) (failPhase (s.conn c)))
      | some conn => some (s.setConn c conn .handshaking)
  | .newSessionTicket c body =>
    if s.phase c ≠ .handshaking ∨ (s.conn c).resumeFlags.enabled = false then none
    else some { s.setConn c (tlsResumeTakeTicket (s.conn c) body) .handshaking with
      issued := Function.update s.issued c
        ((body.drop 6).take (be16 (body.drop 4)) :: s.issued c) }
  | .fail c =>
    if s.phase c ≠ .handshaking then none
    else some (s.setConn c (s.conn c) (failPhase (s.conn c)))
  | .finish c master roots =>
    if s.phase c ≠ .handshaking then none
    else
      match (s.conn c).session.ciphersuite with
      | none => none
      | some suite =>
        let conn := finishConn (s.conn c) suite master roots
        some { s.setConn c conn .completed with
          handshakes := handshakeOf conn (s.issued c) :: s.handshakes }
  | .evict c env =>
    if s.phase c ≠ .failed then none
    else
      let r := tlsResumeEvict s.base s.files (s.conn c) env
      some { s.setConn c (s.conn c) .closed with base := r.1, files := r.2 }
  | .record c env =>
    if s.phase c ≠ .completed then none
    else
      let r := tlsResumeRecord s.base s.files (s.conn c) env
      some { s.setConn c (s.conn c) .closed with base := r.1, files := r.2 }

/-! ### One session -/

/-- The credentials are those of one session: a full handshake ran on the master secret with this
suite, this version and this session ID, and the ticket was sent in a handshake on the same
secret. -/
def IssuedFor (H : List Handshake) (c : Credentials) : Prop :=
  (∃ h ∈ H, h.resumed = false ∧ h.master = c.master ∧ h.cipherSuite = c.cipherSuite ∧
    h.version = c.protocol ∧ (c.sid ≠ [] → h.sid = c.sid)) ∧
  (c.ticket ≠ [] → ∃ h ∈ H, h.master = c.master ∧ c.ticket ∈ h.tickets)

instance (H : List Handshake) (c : Credentials) : Decidable (IssuedFor H c) :=
  inferInstanceAs (Decidable (_ ∧ _))

theorem IssuedFor.mono {H H' : List Handshake} {c : Credentials} (h : IssuedFor H c)
    (hH : H ⊆ H') : IssuedFor H' c := by
  refine ⟨?_, fun hticket ↦ ?_⟩
  · obtain ⟨k, hk, hrest⟩ := h.1
    exact ⟨k, hH hk, hrest⟩
  · obtain ⟨k, hk, hrest⟩ := h.2 hticket
    exact ⟨k, hH hk, hrest⟩

/-- What is known of a connection. -/
structure ConnInv (H : List Handshake) (issued : List Bytes) (phase : Phase)
    (conn : TlsConnection) : Prop where
  opened : phase = .opened → conn.resumeFlags.offered = false ∧ conn.resumeFlags.resumed = false ∧
    conn.resumeFlags.ticketNew = false
  ticket : conn.resumeFlags.ticketNew = true → conn.ticket ∈ issued
  offer : phase = .handshaking → conn.resumeFlags.offered = true →
    conn.resumeFlags.ticketNew = false → ∃ c, IssuedFor H c ∧ Offers conn c
  completed : phase = .completed → handshakeOf conn issued ∈ H

theorem ConnInv.mono {H H' : List Handshake} {issued : List Bytes} {phase : Phase}
    {conn : TlsConnection} (h : ConnInv H issued phase conn) (hH : H ⊆ H') :
    ConnInv H' issued phase conn where
  opened := h.opened
  ticket := h.ticket
  offer hp ho ht := by
    obtain ⟨c, hc, hoffer⟩ := h.offer hp ho ht
    exact ⟨c, hc.mono hH, hoffer⟩
  completed hp := hH (h.completed hp)

/-- What holds of the whole system. -/
structure ResumeInv (s : ResumeSys) : Prop where
  base : BaseHolds (IssuedFor s.handshakes) s.base
  files : FilesHold (IssuedFor s.handshakes) s.files
  conns : ∀ c, ConnInv s.handshakes (s.issued c) (s.phase c) (s.conn c)

/-- The library before its first connection, with connections of any kind, and session files that
earlier handshakes left. -/
structure ResumeSys.Initial (s : ResumeSys) : Prop where
  sessions : s.base.sessions = none
  files : FilesHold (IssuedFor s.handshakes) s.files
  phase : ∀ c, s.phase c = .opened
  flags : ∀ c, (s.conn c).resumeFlags.offered = false ∧ (s.conn c).resumeFlags.resumed = false ∧
    (s.conn c).resumeFlags.ticketNew = false

/-- A resumed connection that records a new ticket finds the session that it runs on. -/
def keepsSession (s : ResumeSys) : ResumeEvent → Bool
  | .record c _ =>
    !((s.conn c).resumeFlags.resumed && haveTicket (s.conn c)) ||
      (foundEntry s.base (s.conn c)).all fun e ↦ e.master == (s.conn c).session.masterSecret
  | _ => true

/-- The steps at which a resumed connection finds its own session. -/
def keptExec (s : ResumeSys) (e : ResumeEvent) : Option ResumeSys :=
  if keepsSession s e then resumeExec s e else none

/-! ### What a step of one connection does to it -/

section Connection

variable {H : List Handshake} {issued : List Bytes} {conn : TlsConnection}

theorem ConnInv.prepared {base : TlsBase × TlsConnection}
    (h : ConnInv H issued .opened conn) (hp : Prepared (IssuedFor H) conn base) :
    ConnInv H issued .handshaking base.2 := by
  obtain ⟨hoff, hres, hnew⟩ := h.opened rfl
  rcases hp.conn with ⟨b, hsame⟩ | ⟨c, hc, hoffer, -, hflags⟩
  · rw [hsame]
    exact ⟨by simp, by simp [hnew], by simp [hoff], by simp⟩
  · refine ⟨by simp, ?_, fun _ _ _ ↦ ⟨c, hc, hoffer⟩, by simp⟩
    rw [hflags, hnew]
    simp

/-- The flags of an offer apart, nothing of the connection changes in the ClientHello. -/
theorem ConnInv.clientHello (h : ConnInv H issued .handshaking conn) (room : HelloRoom) :
    ConnInv H issued .handshaking (tlsClientHello conn room) := by
  have hcleared : ConnInv H issued .handshaking
      { conn with resumeFlags := { conn.resumeFlags with offered := false } } :=
    ⟨by simp, h.ticket, by simp, by simp⟩
  cases room <;> simp only [tlsClientHello] <;> split_ifs <;> assumption

theorem tlsResumeAccept_spec {conn' : TlsConnection} (h : tlsResumeAccept conn = some conn') :
    conn' = { conn with
      session := { conn.session with masterSecret := conn.master }
      resumeFlags := { conn.resumeFlags with resumed := true } } := by
  rw [tlsResumeAccept] at h
  cases hsuite : conn.session.ciphersuite with
  | none => simp [hsuite] at h
  | some suite =>
    rw [hsuite] at h
    dsimp only at h
    split_ifs at h with heq hversion hbound
    obtain rfl := Option.some.inj h
    rw [not_not.mp heq]

/-- A change of the vendored session and of the flag that says it is resumed. -/
theorem ConnInv.session (h : ConnInv H issued .handshaking conn) (session : TlsSession) (b : Bool) :
    ConnInv H issued .handshaking
      { conn with session := session, resumeFlags := { conn.resumeFlags with resumed := b } } where
  opened := by simp
  ticket := h.ticket
  offer := by
    intro hp ho ht
    obtain ⟨c, hc, hoffer⟩ := h.offer hp ho ht
    exact ⟨c, hc, hoffer.master, hoffer.cipherSuite, hoffer.protocol, hoffer.sid, hoffer.ticket⟩
  completed := by simp

theorem ConnInv.serverHello {conn' : TlsConnection} {sid : Bytes} {suite version : UInt16}
    {tls13 extended : Bool} (h : ConnInv H issued .handshaking conn)
    (hrun : tlsServerHello conn sid suite version tls13 extended = some conn') :
    ConnInv H issued .handshaking conn' := by
  simp only [tlsServerHello] at hrun
  split_ifs at hrun
  · rw [tlsResumeAccept_spec hrun]
    exact h.session _ true
  · obtain rfl := Option.some.inj hrun
    exact h.session _ conn.resumeFlags.resumed

/-- A ticket the connection keeps is one that the server has sent. -/
theorem ConnInv.takeTicket (h : ConnInv H issued .handshaking conn) (body : Bytes) :
    ConnInv H ((body.drop 6).take (be16 (body.drop 4)) :: issued) .handshaking
      (tlsResumeTakeTicket conn body) := by
  have hkept : ConnInv H ((body.drop 6).take (be16 (body.drop 4)) :: issued) .handshaking conn :=
    ⟨by simp, fun hnew ↦ List.mem_cons_of_mem _ (h.ticket hnew), h.offer, by simp⟩
  simp only [tlsResumeTakeTicket]
  split_ifs
  · exact hkept
  · exact hkept
  · exact ⟨by simp, fun _ ↦ List.mem_cons_self, by simp, by simp⟩

/-- A connection whose handshake is over without success, or that has left the cache. -/
theorem ConnInv.leave {phase phase' : Phase} (h : ConnInv H issued phase conn)
    (hphase : phase' = .failed ∨ phase' = .closed) : ConnInv H issued phase' conn := by
  rcases hphase with rfl | rfl
  · exact ⟨by simp, h.ticket, by simp, by simp⟩
  · exact ⟨by simp, h.ticket, by simp, by simp⟩

theorem failPhase_eq (conn : TlsConnection) :
    failPhase conn = .failed ∨ failPhase conn = .closed := by
  rw [failPhase]
  split_ifs
  · exact .inl rfl
  · exact .inr rfl

theorem ConnInv.finish (h : ConnInv H issued .handshaking conn) (suite : UInt16) (master : Bytes)
    (roots : List (UInt32 × UInt32)) :
    ConnInv (handshakeOf (finishConn conn suite master roots) issued :: H) issued .completed
      (finishConn conn suite master roots) :=
  ⟨by simp, h.ticket, by simp, fun _ ↦ List.mem_cons_self⟩

/-- The session of a full handshake. -/
theorem ConnInv.recordFull (h : ConnInv H issued .completed conn)
    (hfull : conn.resumeFlags.resumed = false) (serial : UInt32) (env : ResumeEnv) :
    IssuedFor H (recordFull conn serial env).credentials := by
  have hmem := h.completed rfl
  refine ⟨⟨_, hmem, hfull, rfl, rfl, rfl, ?_⟩, ?_⟩
  · intro hsid
    simp only [ResumeEntry.credentials, TlsLib.recordFull] at hsid ⊢
    split_ifs at hsid ⊢
    · rfl
    · exact absurd rfl hsid
  · intro hticket
    refine ⟨_, hmem, rfl, ?_⟩
    simp only [ResumeEntry.credentials, TlsLib.recordFull] at hticket ⊢
    split_ifs at hticket ⊢ with hnew
    · simp only [haveTicket, Bool.and_eq_true] at hnew
      exact h.ticket hnew.1.1
    · exact absurd rfl hticket

/-- The new ticket of a resumed connection, in the entry of the session that it runs on. -/
theorem ConnInv.recordResumed (h : ConnInv H issued .completed conn)
    (hnew : haveTicket conn = true) {c : Credentials}
    (hmaster : c.master = conn.session.masterSecret) (hc : IssuedFor H c) :
    IssuedFor H { c with ticket := conn.ticket } := by
  refine ⟨hc.1, fun _ ↦ ⟨_, h.completed rfl, hmaster.symm, ?_⟩⟩
  simp only [haveTicket, Bool.and_eq_true] at hnew
  exact h.ticket hnew.1.1

end Connection

/-! ### Every run -/

theorem connInv_update {H H' : List Handshake} {issued : Nat → List Bytes} {phase : Nat → Phase}
    {conn : Nat → TlsConnection} (h : ∀ c, ConnInv H (issued c) (phase c) (conn c)) (hH : H ⊆ H')
    (c : Nat) {i : List Bytes} {p : Phase} {k : TlsConnection} (hc : ConnInv H' i p k) (d : Nat) :
    ConnInv H' (Function.update issued c i d) (Function.update phase c p d)
      (Function.update conn c k d) := by
  by_cases hd : d = c
  · subst hd
    simpa only [Function.update_self] using hc
  · simpa only [Function.update_of_ne hd] using (h d).mono hH

/-- A step that changes one connection and nothing else. -/
theorem ResumeInv.setConn {s : ResumeSys} (h : ResumeInv s) {c : Nat} {conn : TlsConnection}
    {phase : Phase} (hc : ConnInv s.handshakes (s.issued c) phase conn) :
    ResumeInv (s.setConn c conn phase) := by
  refine ⟨h.base, h.files, fun d ↦ ?_⟩
  have hd := connInv_update h.conns (List.Subset.refl _) c hc d
  rwa [Function.update_eq_self] at hd

theorem resumeInv_init {s : ResumeSys} (h : s.Initial) : ResumeInv s where
  base := by
    intro table ht
    rw [h.sessions] at ht
    cases ht
  files := h.files
  conns c := by
    obtain ⟨hoff, hres, hnew⟩ := h.flags c
    refine ⟨fun _ ↦ ⟨hoff, hres, hnew⟩, ?_, ?_, ?_⟩
    · simp [hnew]
    · simp [hoff]
    · simp [h.phase c]

/-- **What every step preserves.** -/
theorem resumeInv_step {s s' : ResumeSys} {e : ResumeEvent} (h : ResumeInv s)
    (hkeep : keepsSession s e = true) (hrun : resumeExec s e = some s') : ResumeInv s' := by
  cases e with
  | prepare c env =>
    simp only [resumeExec] at hrun
    split_ifs at hrun with hphase
    obtain rfl := Option.some.inj hrun
    have hc := h.conns c
    rw [not_not.mp hphase] at hc
    have hp := tlsResumePrepare_spec (s.conn c) env h.base h.files
    have hset := h.setConn (hc.prepared hp)
    exact ⟨hp.base, hset.files, hset.conns⟩
  | clientHello c room =>
    simp only [resumeExec] at hrun
    split_ifs at hrun with hphase
    obtain rfl := Option.some.inj hrun
    have hc := h.conns c
    rw [not_not.mp hphase] at hc
    exact h.setConn (hc.clientHello room)
  | serverHello c sid suite version tls13 extended =>
    simp only [resumeExec] at hrun
    split_ifs at hrun with hphase
    have hc := h.conns c
    rw [not_not.mp (not_or.mp hphase).1] at hc
    cases hhello : tlsServerHello (s.conn c) sid suite version tls13 extended with
    | none =>
      rw [hhello] at hrun
      obtain rfl := Option.some.inj hrun
      exact h.setConn (hc.leave (failPhase_eq _))
    | some conn =>
      rw [hhello] at hrun
      obtain rfl := Option.some.inj hrun
      exact h.setConn (hc.serverHello hhello)
  | newSessionTicket c body =>
    simp only [resumeExec] at hrun
    split_ifs at hrun with hphase
    obtain rfl := Option.some.inj hrun
    have hc := h.conns c
    rw [not_not.mp (not_or.mp hphase).1] at hc
    exact ⟨h.base, h.files, connInv_update h.conns (List.Subset.refl _) c (hc.takeTicket body)⟩
  | fail c =>
    simp only [resumeExec] at hrun
    split_ifs at hrun with hphase
    obtain rfl := Option.some.inj hrun
    exact h.setConn ((h.conns c).leave (failPhase_eq _))
  | finish c master roots =>
    simp only [resumeExec] at hrun
    split_ifs at hrun with hphase
    have hc := h.conns c
    rw [not_not.mp hphase] at hc
    cases hsuite : (s.conn c).session.ciphersuite with
    | none => simp [hsuite] at hrun
    | some suite =>
      rw [hsuite] at hrun
      obtain rfl := Option.some.inj hrun
      have hH : s.handshakes ⊆ handshakeOf (finishConn (s.conn c) suite master roots) (s.issued c)
          :: s.handshakes := List.subset_cons_self _ _
      refine ⟨fun t ht i hi ↦ (h.base t ht i hi).mono hH,
        fun p r hp x hx ↦ (h.files p r hp x hx).mono hH, fun d ↦ ?_⟩
      have hd := connInv_update h.conns hH c (hc.finish suite master roots) d
      rwa [Function.update_eq_self] at hd
  | evict c env =>
    simp only [resumeExec] at hrun
    split_ifs at hrun with hphase
    obtain rfl := Option.some.inj hrun
    obtain ⟨hbase, hfiles⟩ := tlsResumeEvict_spec (s.conn c) env h.base h.files
    have hset := h.setConn ((h.conns c).leave (.inr rfl))
    exact ⟨hbase, hfiles, hset.conns⟩
  | record c env =>
    simp only [resumeExec] at hrun
    split_ifs at hrun with hphase
    obtain rfl := Option.some.inj hrun
    have hc := h.conns c
    rw [not_not.mp hphase] at hc
    obtain ⟨hbase, hfiles⟩ := tlsResumeRecord_spec (s.conn c) env h.base h.files
      (fun hfull _ serial ↦ hc.recordFull hfull serial env) (by
        intro hres hnew e he hissued
        simp only [keepsSession, hres, hnew, he, Bool.and_self, Bool.not_true, Bool.false_or,
          Option.all_some, beq_iff_eq] at hkeep
        exact hc.recordResumed hnew hkeep hissued)
    have hset := h.setConn ((h.conns c).leave (.inr rfl))
    exact ⟨hbase, hfiles, hset.conns⟩

/-- **One session for every entry, where resumed connections find their own.** In every run in which
every resumed connection that records a new ticket finds the session it runs on, every valid entry
of the cache, in every state, has the credentials of one session; and what a connection offers is a
session ID or a ticket that was issued for the master secret it would restore. -/
theorem resume_oneSession_of_kept {s : ResumeSys} (h : Reachable keptExec ResumeSys.Initial s) :
    BaseHolds (IssuedFor s.handshakes) s.base ∧
      ∀ c, s.phase c = .handshaking → (s.conn c).resumeFlags.offered = true →
        (s.conn c).resumeFlags.ticketNew = false →
        ∃ k, IssuedFor s.handshakes k ∧ Offers (s.conn c) k := by
  have hinv : ResumeInv s := by
    refine h.invariant (fun s ↦ resumeInv_init) ?_
    intro s e s' hs hrun
    rw [keptExec] at hrun
    split_ifs at hrun with hkeep
    exact resumeInv_step hs hkeep hrun
  exact ⟨hinv.base, fun c hp ho ht ↦ (hinv.conns c).offer hp ho ht⟩

/-! ### Two connections to one host -/

/-- A connection that may resume, to a host with one letter. -/
def raceConn : TlsConnection where
  hostName := [104]
  port := 443
  verify := false
  expiryChecked := false
  remoteCount := 2
  store := none
  rootDer := false
  roots := []
  sessionPath := []
  resumeFlags := ⟨true, false, false, false, false, false⟩
  offerSid := []
  master := []
  ticketBuffer := true
  ticket := []
  ticketLifetime := 0
  cipherSuite := 0
  protocol := 0
  session := ⟨[], [], false, false, none, 0⟩

/-- The library at its start, with such connections. -/
def raceStart : ResumeSys where
  base := ⟨none, 0, false, []⟩
  files := fun _ ↦ none
  conn := fun _ ↦ raceConn
  phase := fun _ ↦ .opened
  issued := fun _ ↦ []
  handshakes := []

theorem raceStart_initial : raceStart.Initial where
  sessions := rfl
  files := by
    intro path records h
    cases h
  phase _ := rfl
  flags _ := ⟨rfl, rfl, rfl⟩

/-- A system where allocations succeed. -/
def raceEnv : ResumeEnv where
  now := 0
  allocLoad := true
  allocTable := true
  openFile := false
  records := 0
  random := List.replicate 32 7
  rootDigest := fun _ ↦ 0

/-- A full handshake of a connection, on a new master secret and with a new ticket. -/
def fullHandshake (c : Nat) (master ticket : UInt8) : List ResumeEvent :=
  [.serverHello c [] 0xC02F 0x0303 false true, .newSessionTicket c [0, 0, 0, 0, 0, 1, ticket],
    .finish c [master] [], .record c raceEnv]

/-- A handshake that resumes the session on offer, with a new ticket. -/
def resumedHandshake (c : Nat) (ticket : UInt8) : List ResumeEvent :=
  [.serverHello c (List.replicate 32 7) 0xC02F 0x0303 false true,
    .newSessionTicket c [0, 0, 0, 0, 0, 1, ticket], .finish c [] [], .record c raceEnv]

/-- A first session is cached and offered by two connections. The server declines the one, which
caches a second session, and resumes the other, with a new ticket. -/
def raceEvents : List ResumeEvent :=
  [.prepare 0 raceEnv] ++ fullHandshake 0 1 10 ++ [.prepare 1 raceEnv, .prepare 2 raceEnv] ++
    fullHandshake 2 2 20 ++ resumedHandshake 1 11

/-- The cache has a valid entry whose credentials are not those of one session. -/
def mixedEntry (s : ResumeSys) : Bool :=
  s.base.sessions.any fun table ↦
    decide (∃ i, (table i).valid = true ∧ ¬ IssuedFor s.handshakes (table i).credentials)

/-- **A ticket beside the secret of another session.** -/
theorem resume_mixedEntry :
    ∃ s, Reachable resumeExec ResumeSys.Initial s ∧ ∃ table, s.base.sessions = some table ∧
      ∃ i, (table i).valid = true ∧ ¬ IssuedFor s.handshakes (table i).credentials := by
  have hrun : (run resumeExec raceStart raceEvents).any mixedEntry = true := by decide +kernel
  obtain ⟨s, hs, hmixed⟩ := (Option.any_eq_true _ _).mp hrun
  obtain ⟨table, htable, hi⟩ := (Option.any_eq_true _ _).mp hmixed
  exact ⟨s, ⟨raceStart, raceEvents, raceStart_initial, hs⟩, table, htable, of_decide_eq_true hi⟩

/-- Where the second connection is resumed alone, the entry keeps its session. -/
theorem resume_oneSession_alone :
    ∃ s, Reachable keptExec ResumeSys.Initial s ∧ (∃ table, s.base.sessions = some table ∧
      ∃ i, (table i).valid = true ∧ (table i).ticket = [11]) ∧
      BaseHolds (IssuedFor s.handshakes) s.base := by
  have hrun : (run keptExec raceStart ([.prepare 0 raceEnv] ++ fullHandshake 0 1 10 ++
      [.prepare 1 raceEnv] ++ resumedHandshake 1 11)).any (fun s ↦ s.base.sessions.any fun table ↦
      decide (∃ i, (table i).valid = true ∧ (table i).ticket = [11])) = true := by decide +kernel
  obtain ⟨s, hs, hbase⟩ := (Option.any_eq_true _ _).mp hrun
  obtain ⟨table, htable, hi⟩ := (Option.any_eq_true _ _).mp hbase
  have hreach : Reachable keptExec ResumeSys.Initial s := ⟨raceStart, _, raceStart_initial, hs⟩
  exact ⟨s, hreach, ⟨table, htable, of_decide_eq_true hi⟩, (resume_oneSession_of_kept hreach).1⟩

end AmiNetXDuo.TlsLib
