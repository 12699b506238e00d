import Mathlib.Algebra.Ring.Nat
import Mathlib.Data.List.Basic
import Mathlib.Logic.Function.Basic

/-!
# The session cache of the TLS library

The cache of `tls_resume.c`: at most eight sessions in the library base, keyed by host, port and
everything a resumed handshake does not check again, and mirrored to a file. A connection takes a
session from the cache before its handshake and records the session it got after it, each under the
lock of the base.

What a file holds is kept as its records, without the layout of a record in bytes; how many of them
a write or a read gets through is left to the environment, as is every allocation.

## Main definitions

* `ResumeEntry`, `TlsBase` : a cached session, and the cache.
* `TlsConnection`, `TlsSession` : what a connection and the vendored session hold.
* `tlsResumePrepare`, `tlsResumeEvict`, `tlsResumeRecord` : the three critical sections.
* `tlsResumeAccept`, `tlsResumeTakeTicket`, `tlsClientHello` : the part of the handshake that the
  library wraps.

## Main results

* `tlsResumePrepare_spec`, `tlsResumeEvict_spec`, `tlsResumeRecord_spec` : which entries the cache
  may have after each of the three, given those it had and those of the files.
-/

namespace AmiNetXDuo.TlsLib

/-- A string or an array of bytes, without what follows its length or its NUL. -/
abbrev Bytes := List UInt8

/-! ### Constants -/

/-- `TLS_RESUME_SID_MAX`. -/
def resumeSidMax : Nat := 32

/-- `TLS_RESUME_HOST_MAX`. -/
def resumeHostMax : Nat := 64

/-- `TLS_RESUME_SLOTS`. -/
def resumeSlots : Nat := 8

/-- `TLS_RESUME_TICKET_MAX`. -/
def resumeTicketMax : Nat := 256

/-- `TLS_MAX_ROOTS`. -/
def maxRoots : Nat := 2

/-- `TLS_STORE_PATH_MAX`. -/
def storePathMax : Nat := 160

/-- `TLS_CLOCK_FLOOR`. -/
def clockFloor : UInt32 := 1767225600

/-- `TLS_RESUME_MAX_AGE`. -/
def resumeMaxAge : UInt32 := 86400

/-- `TLS_R_FNV_OFFSET`. -/
def fnvOffset : UInt32 := 2166136261

/-- `TLS_R_FNV_PRIME`. -/
def fnvPrime : UInt32 := 16777619

/-- `TLSRE_VERIFIED`. -/
def entryVerified : UInt8 := 1

/-- `TLSRE_DATED`. -/
def entryDated : UInt8 := 2

/-! ### The data -/

/-- `TLSResumeEntry`. The session ID and the ticket stand without what follows their lengths, and
the roots are pairs of a key and a digest. -/
structure ResumeEntry where
  host : Bytes
  port : UInt16
  cipherSuite : UInt16
  protocol : UInt16
  sid : Bytes
  valid : Bool
  flags : UInt8
  maxChain : UInt8
  trustKey : UInt32
  stamp : UInt32
  lifetime : UInt32
  serial : UInt32
  master : Bytes
  ticket : Bytes
  roots : List (UInt32 × UInt32)
  deriving DecidableEq, Repr

/-- An entry as `tls_bzero()` leaves it. -/
def ResumeEntry.zero : ResumeEntry where
  host := []
  port := 0
  cipherSuite := 0
  protocol := 0
  sid := []
  valid := false
  flags := 0
  maxChain := 0
  trustKey := 0
  stamp := 0
  lifetime := 0
  serial := 0
  master := []
  ticket := []
  roots := []

/-- The table of the cache. -/
abbrev Table := Fin resumeSlots → ResumeEntry

/-- The part of `struct TLSLibBase` that belongs to the cache. -/
structure TlsBase where
  /-- `tb_Sessions`. -/
  sessions : Option Table
  /-- `tb_SessionSerial`. -/
  serial : UInt32
  /-- `tb_SessionsLoaded`. -/
  loaded : Bool
  /-- `tb_SessionPath`. -/
  path : Bytes

/-- The session files, by their name without its case: the records of a file. -/
abbrev Files := Bytes → Option (List ResumeEntry)

/-- `tc_ResumeFlags`. -/
structure ResumeFlags where
  /-- `TLSR_ENABLED`. -/
  enabled : Bool
  /-- `TLSR_OFFERED`. -/
  offered : Bool
  /-- `TLSR_RESUMED`. -/
  resumed : Bool
  /-- `TLSR_TICKET_NEW`. -/
  ticketNew : Bool
  /-- `TLSR_PERSIST`. -/
  persist : Bool
  /-- `TLSR_SID_GEN`. -/
  sidGen : Bool
  deriving DecidableEq, Repr

/-- What the library reads of `NX_SECURE_TLS_SESSION`. -/
structure TlsSession where
  sessionId : Bytes
  masterSecret : Bytes
  tls13 : Bool
  extendedMasterSecret : Bool
  /-- The number of the negotiated suite, once there is one. -/
  ciphersuite : Option UInt16
  protocolVersion : UInt16
  deriving DecidableEq, Repr

/-- The part of `struct TLSConnection` that resumption uses. -/
structure TlsConnection where
  hostName : Bytes
  port : UInt16
  /-- `TLSF_VERIFY`. -/
  verify : Bool
  expiryChecked : Bool
  remoteCount : UInt32
  /-- `tc_Store`, its fingerprint. -/
  store : Option UInt32
  /-- Whether `tc_RootDer` is there. -/
  rootDer : Bool
  /-- The roots the chain was checked against: `tc_RootKey` and the digest of `tc_Root`. -/
  roots : List (UInt32 × UInt32)
  sessionPath : Bytes
  resumeFlags : ResumeFlags
  offerSid : Bytes
  master : Bytes
  /-- Whether `tc_Ticket` is there. -/
  ticketBuffer : Bool
  ticket : Bytes
  ticketLifetime : UInt32
  cipherSuite : UInt16
  protocol : UInt16
  session : TlsSession
  deriving DecidableEq, Repr

/-- What the system answers during one critical section. -/
structure ResumeEnv where
  /-- `tls_time_monotonic()`. -/
  now : UInt32
  /-- Whether the table can be allocated when the file is loaded, and when it is used. -/
  allocLoad : Bool
  allocTable : Bool
  /-- Whether the session file can be opened, with memory for one record. -/
  openFile : Bool
  /-- How many records can be read or written. -/
  records : Nat
  /-- `ami_random_rand()`, for a session ID. -/
  random : Bytes
  /-- `tls_store_root_digest()`. -/
  rootDigest : UInt32 → UInt32

/-! ### Keys -/

/-- `ca + ('a' - 'A')` for a capital letter. -/
def lowerByte (c : UInt8) : UInt8 := if 65 ≤ c ∧ c ≤ 90 then c + 32 else c

/-- The name of a file as the filesystem sees it, which tells no capital letter from a small one. -/
def fileName (path : Bytes) : Bytes := path.map lowerByte

/-- `tls_r_str_equal()`. -/
def strEqual : Nat → Bytes → Bytes → Bool
  | 0, _, _ => true
  | limit + 1, a, b =>
    if lowerByte (a.headD 0) ≠ lowerByte (b.headD 0) then false
    else if lowerByte (a.headD 0) = 0 then true
    else strEqual limit a.tail b.tail

/-- `tls_resume_flags()`. -/
def tlsResumeFlags (conn : TlsConnection) : UInt8 :=
  (if conn.verify then entryVerified else 0) ||| (if conn.expiryChecked then entryDated else 0)

/-- `tls_resume_trust_key()`. -/
def tlsResumeTrustKey (conn : TlsConnection) : UInt32 :=
  let hash := (fnvOffset ^^^ (tlsResumeFlags conn).toUInt32) * fnvPrime
  let hash := (hash ^^^ conn.remoteCount) * fnvPrime
  let hash := (hash ^^^ conn.store.getD 0) * fnvPrime
  if hash = 0 then fnvPrime else hash

/-- `tls_expired()`. -/
def tlsExpired (stamp lifetime now : UInt32) : Bool :=
  if decide (clockFloor ≤ now) ≠ decide (clockFloor ≤ stamp) then true
  else if now < stamp then true
  else
    let limit := if lifetime ≠ 0 ∧ lifetime < resumeMaxAge then lifetime else resumeMaxAge
    decide (limit < now - stamp)

/-- What `tls_resume_find()` compares. -/
def ResumeEntry.matchesKey (e : ResumeEntry) (conn : TlsConnection) : Bool :=
  e.valid && e.port == conn.port && e.trustKey == tlsResumeTrustKey conn &&
    e.flags == tlsResumeFlags conn && strEqual resumeHostMax e.host conn.hostName

/-- `tls_resume_find()`. -/
def tlsResumeFind (table : Table) (conn : TlsConnection) : Option (Fin resumeSlots) :=
  (List.finRange resumeSlots).find? fun i ↦ (table i).matchesKey conn

/-- The least recently used entry, the first of those with the lowest serial. -/
def leastRecent (table : Table) : Fin resumeSlots :=
  (List.finRange resumeSlots).foldl
    (fun victim i ↦ if (table i).serial < (table victim).serial then i else victim) ⟨0, by decide⟩

/-- `tls_resume_slot()`. -/
def tlsResumeSlot (table : Table) (conn : TlsConnection) : Fin resumeSlots :=
  match tlsResumeFind table conn with
  | some i => i
  | none =>
    match (List.finRange resumeSlots).find? fun i ↦ !(table i).valid with
    | some i => i
    | none => leastRecent table

/-! ### The file -/

/-- `tls_resume_encode()`: the fields that a record has. -/
def tlsResumeEncode (e : ResumeEntry) : ResumeEntry := { e with valid := false, serial := 0 }

/-- `tls_resume_decode()`. -/
def tlsResumeDecode (r : ResumeEntry) : Option ResumeEntry :=
  let e := { r with host := r.host.take (resumeHostMax - 1), valid := true }
  if e.host = [] ∨ resumeSidMax < e.sid.length ∨ resumeTicketMax < e.ticket.length ∨
      maxRoots < e.roots.length then none
  else if e.flags &&& entryVerified ≠ 0 ∧
      (e.roots = [] ∨ ∃ r ∈ e.roots, r.1 = 0 ∨ r.2 = 0) then none
  else if e.trustKey = 0 then none
  else if e.sid = [] ∧ e.ticket = [] then none
  else some e

/-- One record read into the table, at the slot after those used so far. -/
def loadRecord (acc : Table × Nat × UInt32) (r : ResumeEntry) : Table × Nat × UInt32 :=
  let (table, used, serial) := acc
  if h : used < resumeSlots then
    match tlsResumeDecode r with
    | none => (Function.update table ⟨used, h⟩ .zero, used, serial)
    | some e =>
      (Function.update table ⟨used, h⟩ { e with serial := serial + 1 }, used + 1, serial + 1)
  else acc

/-- `tls_resume_table()`. -/
def tlsResumeTable (base : TlsBase) (alloc : Bool) : TlsBase :=
  match base.sessions with
  | some _ => base
  | none => if alloc then { base with sessions := some fun _ ↦ .zero } else base

/-- The records that can be read from a file. -/
def readRecords (files : Files) (path : Bytes) (env : ResumeEnv) : List ResumeEntry :=
  if path = [] ∨ env.openFile = false then []
  else (((files (fileName path)).getD []).take resumeSlots).take env.records

/-- `tls_resume_load()`. -/
def tlsResumeLoad (base : TlsBase) (files : Files) (path : Bytes) (env : ResumeEnv) : TlsBase :=
  if base.loaded ∧ strEqual storePathMax base.path path then base
  else
    match (tlsResumeTable base env.allocLoad).sessions with
    | none => base
    | some table =>
      -- another file is another cache
      let table := if base.loaded then fun _ ↦ .zero else table
      let (table, _, serial) := (readRecords files path env).foldl loadRecord
        (table, 0, base.serial)
      { sessions := some table, serial := serial, loaded := true,
        path := path.take (storePathMax - 1) }

/-- `tls_resume_save()`. -/
def tlsResumeSave (base : TlsBase) (files : Files) (path : Bytes) (env : ResumeEnv) : Files :=
  match base.sessions with
  | none => files
  | some table =>
    if path = [] ∨ env.openFile = false then files
    else
      let valid := (List.finRange resumeSlots).filter fun i ↦ (table i).valid
      Function.update files (fileName path)
        (some ((valid.map fun i ↦ tlsResumeEncode (table i)).take env.records))

/-! ### The critical sections -/

/-- `tls_resume_roots_current()`. -/
def tlsResumeRootsCurrent (conn : TlsConnection) (e : ResumeEntry) (env : ResumeEnv) : Bool :=
  if e.flags &&& entryVerified = 0 then true
  else if e.roots = [] ∨ maxRoots < e.roots.length ∨ conn.store = none ∨ conn.rootDer = false then
    false
  else e.roots.all fun r ↦
    r.1 ≠ 0 && r.2 ≠ 0 && env.rootDigest r.1 ≠ 0 && env.rootDigest r.1 == r.2

/-- What a connection takes from an entry that it offers. -/
def offerEntry (conn : TlsConnection) (e : ResumeEntry) (env : ResumeEnv) : TlsConnection :=
  let ticket := if conn.ticketBuffer then e.ticket else []
  let generated := e.sid = [] ∧ ticket ≠ []
  { conn with
    offerSid := if generated then env.random.take resumeSidMax else e.sid
    master := e.master
    cipherSuite := e.cipherSuite
    protocol := e.protocol
    ticket := ticket
    resumeFlags := { conn.resumeFlags with
      offered := true
      sidGen := if generated then true else conn.resumeFlags.sidGen } }

/-- The part of `tls_resume_prepare()` that has the table. -/
def prepareFrom (base : TlsBase) (table : Table) (conn : TlsConnection) (env : ResumeEnv) :
    TlsBase × TlsConnection :=
  match tlsResumeFind table conn with
  | none => (base, conn)
  | some i =>
    if tlsExpired (table i).stamp (table i).lifetime env.now then
      ({ base with sessions := some (Function.update table i .zero) }, conn)
    else if tlsResumeRootsCurrent conn (table i) env = false then (base, conn)
    else
      ({ base with
          sessions := some (Function.update table i { table i with serial := base.serial + 1 })
          serial := base.serial + 1 },
        offerEntry conn (table i) env)

/-- `tls_resume_prepare()`. -/
def tlsResumePrepare (base : TlsBase) (files : Files) (conn : TlsConnection) (env : ResumeEnv) :
    TlsBase × TlsConnection :=
  if conn.resumeFlags.enabled = false then (base, conn)
  else if conn.hostName = [] ∨ resumeHostMax ≤ conn.hostName.length then
    (base, { conn with resumeFlags := { conn.resumeFlags with enabled := false } })
  else
    let base := tlsResumeTable (tlsResumeLoad base files conn.sessionPath env) env.allocTable
    match base.sessions with
    | none => (base, conn)
    | some table => prepareFrom base table conn env

/-- `tls_resume_evict()`. -/
def tlsResumeEvict (base : TlsBase) (files : Files) (conn : TlsConnection) (env : ResumeEnv) :
    TlsBase × Files :=
  if conn.hostName = [] then (base, files)
  else
    match base.sessions with
    | none => (base, files)
    | some table =>
      match tlsResumeFind table conn with
      | none => (base, files)
      | some i =>
        let base := { base with sessions := some (Function.update table i .zero) }
        (base, if conn.resumeFlags.persist then tlsResumeSave base files conn.sessionPath env
          else files)

/-- `tls_resume_secret_bound()`. -/
def tlsResumeSecretBound (s : TlsSession) : Bool := s.tls13 || s.extendedMasterSecret

/-- Whether the connection has a ticket that the server sent in this handshake. -/
def haveTicket (conn : TlsConnection) : Bool :=
  conn.resumeFlags.ticketNew && decide (conn.ticket ≠ []) && conn.ticketBuffer

/-- Whether the session has an ID that fits an entry. -/
def haveSid (conn : TlsConnection) : Bool :=
  decide (conn.session.sessionId ≠ []) && decide (conn.session.sessionId.length ≤ resumeSidMax)

/-- A resumed session in its entry: a ticket that came with the handshake replaces the old one. -/
def recordResumed (e : ResumeEntry) (conn : TlsConnection) (serial : UInt32) (env : ResumeEnv) :
    ResumeEntry :=
  let e := { e with serial := serial }
  if haveTicket conn then
    { e with ticket := conn.ticket, lifetime := conn.ticketLifetime, stamp := env.now }
  else e

/-- The entry for a full handshake. -/
def recordFull (conn : TlsConnection) (serial : UInt32) (env : ResumeEnv) : ResumeEntry where
  host := conn.hostName.take (resumeHostMax - 1)
  port := conn.port
  cipherSuite := conn.cipherSuite
  protocol := conn.protocol
  sid := if haveSid conn then conn.session.sessionId else []
  valid := true
  flags := tlsResumeFlags conn
  maxChain := conn.remoteCount.toUInt8
  trustKey := tlsResumeTrustKey conn
  stamp := env.now
  lifetime := if haveTicket conn then conn.ticketLifetime else 0
  serial := serial
  master := conn.session.masterSecret
  ticket := if haveTicket conn then conn.ticket else []
  roots := if conn.verify then conn.roots else []

/-- Whether a full handshake is recorded. -/
def recordable (conn : TlsConnection) : Bool :=
  (haveTicket conn || haveSid conn) && tlsResumeSecretBound conn.session &&
    (!conn.verify || (decide (conn.roots ≠ []) && decide (conn.roots.length ≤ maxRoots)))

/-- The cache with one entry replaced, under a new serial. -/
def putEntry (base : TlsBase) (table : Table) (i : Fin resumeSlots) (e : ResumeEntry) : TlsBase :=
  { base with sessions := some (Function.update table i e), serial := base.serial + 1 }

/-- The part of `tls_resume_record()` that has the table: the cache, and whether it has to be
saved. -/
def recordFrom (base : TlsBase) (table : Table) (conn : TlsConnection) (env : ResumeEnv) :
    TlsBase × Bool :=
  if conn.resumeFlags.resumed then
    match tlsResumeFind table conn with
    | none => (base, false)
    | some i =>
      (putEntry base table i (recordResumed (table i) conn (base.serial + 1) env), haveTicket conn)
  else if recordable conn then
    (putEntry base table (tlsResumeSlot table conn) (recordFull conn (base.serial + 1) env), true)
  else (base, false)

/-- `tls_resume_record()`. -/
def tlsResumeRecord (base : TlsBase) (files : Files) (conn : TlsConnection) (env : ResumeEnv) :
    TlsBase × Files :=
  if conn.resumeFlags.enabled = false ∨ conn.hostName = [] then (base, files)
  else
    let base := tlsResumeTable base env.allocTable
    match base.sessions with
    | none => (base, files)
    | some table =>
      let (base, changed) := recordFrom base table conn env
      (base, if changed && conn.resumeFlags.persist then
        tlsResumeSave base files conn.sessionPath env else files)

/-! ### The handshake -/

/-- How much of an offer fits the ClientHello. -/
inductive HelloRoom
  /-- The session ID and the ticket. -/
  | all
  /-- The session ID, with an empty ticket extension. -/
  | sessionId
  /-- Not even the empty extension. -/
  | nothing
  deriving DecidableEq, Repr

/-- `__wrap__nx_secure_tls_send_clienthello()`, what it does to the flags. -/
def tlsClientHello (conn : TlsConnection) (room : HelloRoom) : TlsConnection :=
  if conn.resumeFlags.enabled = false then conn
  else
    match room with
    | .all => conn
    | .sessionId =>
      -- a session ID of this client's own means nothing without the ticket
      if conn.resumeFlags.sidGen then
        { conn with resumeFlags := { conn.resumeFlags with offered := false } }
      else conn
    | .nothing => { conn with resumeFlags := { conn.resumeFlags with offered := false } }

/-- `tls_resume_accept()`: nothing when the server may not resume the session like this. -/
def tlsResumeAccept (conn : TlsConnection) : Option TlsConnection :=
  match conn.session.ciphersuite with
  | none => none
  | some suite =>
    if suite ≠ conn.cipherSuite then none
    else if conn.session.protocolVersion ≠ conn.protocol then none
    else if tlsResumeSecretBound conn.session = false then none
    else some { conn with
      session := { conn.session with masterSecret := conn.master }
      cipherSuite := suite
      resumeFlags := { conn.resumeFlags with resumed := true } }

/-- A ServerHello, as the vendored code leaves it in the session, and the test of its session ID
against the one that was offered. -/
def tlsServerHello (conn : TlsConnection) (sid : Bytes) (suite version : UInt16)
    (tls13 extended : Bool) : Option TlsConnection :=
  let conn := { conn with session := { conn.session with
    sessionId := sid
    ciphersuite := some suite
    protocolVersion := version
    tls13 := tls13
    extendedMasterSecret := extended } }
  if conn.resumeFlags.enabled && conn.resumeFlags.offered && !conn.resumeFlags.resumed &&
      decide (conn.offerSid ≠ []) && decide (sid = conn.offerSid) then tlsResumeAccept conn
  else some conn

/-- `tls_r_be16()`. -/
def be16 (p : Bytes) : Nat := (p.getD 0 0).toNat * 256 + (p.getD 1 0).toNat

/-- `tls_r_be32()`. -/
def be32 (p : Bytes) : Nat := be16 p * 65536 + be16 (p.drop 2)

/-- `tls_resume_take_ticket()`, for the body of a NewSessionTicket. -/
def tlsResumeTakeTicket (conn : TlsConnection) (body : Bytes) : TlsConnection :=
  if body.length < 6 ∨ conn.ticketBuffer = false then conn
  else
    let ticketLength := be16 (body.drop 4)
    if body.length < 6 + ticketLength ∨ ticketLength = 0 ∨ resumeTicketMax < ticketLength then conn
    else { conn with
      ticket := (body.drop 6).take ticketLength
      ticketLifetime := UInt32.ofNat (be32 body)
      resumeFlags := { conn.resumeFlags with ticketNew := true } }

/-! ### What the cache holds -/

/-- What an entry has of a session. -/
structure Credentials where
  master : Bytes
  sid : Bytes
  ticket : Bytes
  cipherSuite : UInt16
  protocol : UInt16
  deriving DecidableEq, Repr

/-- The session of an entry. -/
def ResumeEntry.credentials (e : ResumeEntry) : Credentials :=
  ⟨e.master, e.sid, e.ticket, e.cipherSuite, e.protocol⟩

section Holds

variable (P : Credentials → Prop)

/-- Every valid entry of a table has the property. -/
def TableHolds (table : Table) : Prop := ∀ i, (table i).valid = true → P (table i).credentials

/-- Every valid entry of the cache has the property. -/
def BaseHolds (base : TlsBase) : Prop := ∀ table, base.sessions = some table → TableHolds P table

/-- Every record of every file has the property. -/
def FilesHold (files : Files) : Prop :=
  ∀ path records, files path = some records → ∀ r ∈ records, P r.credentials

variable {P}

theorem tableHolds_zero : TableHolds P fun _ ↦ .zero := by
  intro i hi
  cases hi

theorem TableHolds.update {table : Table} (h : TableHolds P table) {i : Fin resumeSlots}
    {e : ResumeEntry} (he : e.valid = true → P e.credentials) :
    TableHolds P (Function.update table i e) := by
  intro j hj
  by_cases hji : j = i
  · subst hji
    rw [Function.update_self] at hj ⊢
    exact he hj
  · rw [Function.update_of_ne hji] at hj ⊢
    exact h j hj

theorem TableHolds.evict {table : Table} (h : TableHolds P table) (i : Fin resumeSlots) :
    TableHolds P (Function.update table i .zero) :=
  h.update fun hv ↦ by cases hv

theorem BaseHolds.of_table {base : TlsBase} {table : Table} (hs : base.sessions = some table)
    (h : TableHolds P table) : BaseHolds P base := by
  intro t ht
  rw [hs] at ht
  obtain rfl := Option.some.inj ht
  exact h

theorem tlsResumeFind_spec {table : Table} {conn : TlsConnection} {i : Fin resumeSlots}
    (h : tlsResumeFind table conn = some i) : (table i).valid = true := by
  have hkey := List.find?_some h
  simp only [ResumeEntry.matchesKey, Bool.and_eq_true] at hkey
  exact hkey.1.1.1.1

theorem tlsResumeDecode_spec {r e : ResumeEntry} (h : tlsResumeDecode r = some e) :
    e.credentials = r.credentials := by
  simp only [tlsResumeDecode] at h
  split_ifs at h
  obtain rfl := Option.some.inj h
  rfl

/-- The records of a file that are read into a table. -/
theorem foldl_loadRecord_holds {records : List ResumeEntry} {acc : Table × Nat × UInt32}
    (h : TableHolds P acc.1) (hr : ∀ r ∈ records, P r.credentials) :
    TableHolds P (records.foldl loadRecord acc).1 := by
  induction records generalizing acc with
  | nil => exact h
  | cons r records ih =>
    refine ih ?_ fun r' hr' ↦ hr r' (List.mem_cons_of_mem r hr')
    obtain ⟨table, used, serial⟩ := acc
    simp only [loadRecord]
    split_ifs with hused
    · cases hdec : tlsResumeDecode r with
      | none => exact h.evict _
      | some e =>
        refine h.update fun _ ↦ ?_
        have hcred : e.credentials = r.credentials := tlsResumeDecode_spec hdec
        exact hcred ▸ hr r List.mem_cons_self
    · exact h

theorem BaseHolds.table {base : TlsBase} (h : BaseHolds P base) (alloc : Bool) :
    BaseHolds P (tlsResumeTable base alloc) := by
  cases hs : base.sessions with
  | some table => simpa [tlsResumeTable, hs] using h
  | none =>
    simp only [tlsResumeTable, hs]
    split_ifs
    · exact .of_table rfl tableHolds_zero
    · exact h

theorem readRecords_mem {files : Files} {path : Bytes} {env : ResumeEnv} {r : ResumeEntry}
    (hf : FilesHold P files) (h : r ∈ readRecords files path env) : P r.credentials := by
  rw [readRecords] at h
  split_ifs at h
  · cases h
  · have hmem := List.mem_of_mem_take (List.mem_of_mem_take h)
    cases hp : files (fileName path) with
    | none => simp [hp] at hmem
    | some records => exact hf _ records hp r (by simpa [hp] using hmem)

/-- The cache after the file of a connection has been loaded. -/
theorem BaseHolds.load {base : TlsBase} {files : Files} (h : BaseHolds P base)
    (hf : FilesHold P files) (path : Bytes) (env : ResumeEnv) :
    BaseHolds P (tlsResumeLoad base files path env) := by
  rw [tlsResumeLoad]
  by_cases hsame : base.loaded ∧ strEqual storePathMax base.path path
  · rw [if_pos hsame]
    exact h
  · rw [if_neg hsame]
    cases hs : (tlsResumeTable base env.allocLoad).sessions with
    | none => exact h
    | some table =>
      refine .of_table rfl (foldl_loadRecord_holds ?_ fun r hr ↦ readRecords_mem hf hr)
      dsimp only
      split_ifs
      · exact tableHolds_zero
      · exact h.table _ table hs

/-- The files after the cache has been saved. -/
theorem FilesHold.save {base : TlsBase} {files : Files} (h : BaseHolds P base)
    (hf : FilesHold P files) (path : Bytes) (env : ResumeEnv) :
    FilesHold P (tlsResumeSave base files path env) := by
  rw [tlsResumeSave]
  cases hs : base.sessions with
  | none => exact hf
  | some table =>
    dsimp only
    split_ifs
    · exact hf
    · intro p records hp r hr
      by_cases hpp : p = fileName path
      · subst hpp
        rw [Function.update_self] at hp
        obtain rfl := Option.some.inj hp
        obtain ⟨i, hi, rfl⟩ := List.mem_map.mp (List.mem_of_mem_take hr)
        exact h table hs i (List.mem_filter.mp hi).2
      · rw [Function.update_of_ne hpp] at hp
        exact hf p records hp r hr

/-- What a connection offers: the credentials of an entry, with a session ID of its own where the
entry has only a ticket. -/
structure Offers (conn : TlsConnection) (c : Credentials) : Prop where
  master : conn.master = c.master
  cipherSuite : conn.cipherSuite = c.cipherSuite
  protocol : conn.protocol = c.protocol
  sid : conn.resumeFlags.sidGen = false → conn.offerSid = c.sid
  ticket : conn.ticket = c.ticket ∨ conn.ticket = []

/-- What prepare leaves: the cache with the entries it may have, and the connection as it was, the
switch of resumption apart, or with one of them on offer. -/
structure Prepared (P : Credentials → Prop) (conn : TlsConnection) (r : TlsBase × TlsConnection) :
    Prop where
  base : BaseHolds P r.1
  conn : (∃ b, r.2 = { conn with resumeFlags := { conn.resumeFlags with enabled := b } }) ∨
    ∃ c, P c ∧ Offers r.2 c ∧ r.2.session = conn.session ∧
      r.2.resumeFlags = { conn.resumeFlags with
        offered := true
        sidGen := r.2.resumeFlags.sidGen }

theorem Prepared.same {base : TlsBase} {conn : TlsConnection} (h : BaseHolds P base) :
    Prepared P conn (base, conn) :=
  ⟨h, .inl ⟨conn.resumeFlags.enabled, rfl⟩⟩

theorem offers_offerEntry (conn : TlsConnection) (e : ResumeEntry) (env : ResumeEnv) :
    Offers (offerEntry conn e env) e.credentials := by
  refine ⟨rfl, rfl, rfl, fun hgen ↦ ?_, ?_⟩
  · simp only [offerEntry] at hgen ⊢
    split_ifs at hgen ⊢
    · rfl
    · rfl
  · simp only [offerEntry]
    split_ifs
    · exact .inl rfl
    · exact .inr rfl

theorem prepareFrom_spec {base : TlsBase} {table : Table} {conn : TlsConnection} (env : ResumeEnv)
    (h : BaseHolds P base) (htable : TableHolds P table) :
    Prepared P conn (prepareFrom base table conn env) := by
  rw [prepareFrom]
  cases hfind : tlsResumeFind table conn with
  | none => exact .same h
  | some i =>
    dsimp only
    split_ifs
    · exact .same (.of_table rfl (htable.evict i))
    · exact .same h
    · have hi : P (table i).credentials := htable i (tlsResumeFind_spec hfind)
      exact ⟨.of_table rfl (htable.update fun _ ↦ hi),
        .inr ⟨_, hi, offers_offerEntry conn (table i) env, rfl, rfl⟩⟩

theorem tlsResumePrepare_spec {base : TlsBase} {files : Files} (conn : TlsConnection)
    (env : ResumeEnv) (h : BaseHolds P base) (hf : FilesHold P files) :
    Prepared P conn (tlsResumePrepare base files conn env) := by
  rw [tlsResumePrepare]
  split_ifs with hoff hname
  · exact .same h
  · exact ⟨h, .inl ⟨false, rfl⟩⟩
  · have hbase := (h.load hf conn.sessionPath env).table env.allocTable
    dsimp only
    cases hs : (tlsResumeTable (tlsResumeLoad base files conn.sessionPath env)
      env.allocTable).sessions with
    | none => exact .same hbase
    | some table => exact prepareFrom_spec env hbase (hbase table hs)

theorem tlsResumeEvict_spec {base : TlsBase} {files : Files} (conn : TlsConnection)
    (env : ResumeEnv) (h : BaseHolds P base) (hf : FilesHold P files) :
    BaseHolds P (tlsResumeEvict base files conn env).1 ∧
      FilesHold P (tlsResumeEvict base files conn env).2 := by
  rw [tlsResumeEvict]
  by_cases hname : conn.hostName = []
  · rw [if_pos hname]
    exact ⟨h, hf⟩
  · rw [if_neg hname]
    cases hs : base.sessions with
    | none => exact ⟨h, hf⟩
    | some table =>
      dsimp only
      cases hfind : tlsResumeFind table conn with
      | none => exact ⟨h, hf⟩
      | some i =>
        have hbase : BaseHolds P { base with sessions := some (Function.update table i .zero) } :=
          .of_table rfl ((h table hs).evict i)
        refine ⟨hbase, ?_⟩
        dsimp only
        split_ifs
        · exact hf.save hbase _ _
        · exact hf

/-- The entry that a resumed connection finds when it records its session. -/
def foundEntry (base : TlsBase) (conn : TlsConnection) : Option ResumeEntry :=
  base.sessions.bind fun table ↦ (tlsResumeFind table conn).map table

/-- **What record does.** The cache keeps its entries if the session of a full handshake may be one,
and the entry that a resumed connection finds may have the connection's new ticket. -/
theorem tlsResumeRecord_spec {base : TlsBase} {files : Files} (conn : TlsConnection)
    (env : ResumeEnv) (h : BaseHolds P base) (hf : FilesHold P files)
    (hfull : conn.resumeFlags.resumed = false → recordable conn = true →
      ∀ serial, P (recordFull conn serial env).credentials)
    (hresumed : conn.resumeFlags.resumed = true → haveTicket conn = true →
      ∀ e, foundEntry base conn = some e →
        P e.credentials → P { e.credentials with ticket := conn.ticket }) :
    BaseHolds P (tlsResumeRecord base files conn env).1 ∧
      FilesHold P (tlsResumeRecord base files conn env).2 := by
  rw [tlsResumeRecord]
  split_ifs
  · exact ⟨h, hf⟩
  · dsimp only
    have hbase := h.table env.allocTable
    -- a table that is only now allocated has nothing to find
    have hfound : foundEntry (tlsResumeTable base env.allocTable) conn = none ∨
        foundEntry (tlsResumeTable base env.allocTable) conn = foundEntry base conn := by
      cases hs : base.sessions with
      | some table => exact .inr (by simp [tlsResumeTable, hs])
      | none =>
        simp only [tlsResumeTable, hs]
        split_ifs
        · refine .inl ?_
          simp only [foundEntry, Option.bind_some, Option.map_eq_none_iff]
          exact List.find?_eq_none.mpr fun i _ ↦ by simp [ResumeEntry.matchesKey, ResumeEntry.zero]
        · exact .inr rfl
    obtain ⟨base', hbase'⟩ : ∃ b, b = tlsResumeTable base env.allocTable := ⟨_, rfl⟩
    rw [← hbase'] at hbase hfound ⊢
    cases hs : base'.sessions with
    | none => exact ⟨hbase, hf⟩
    | some table =>
      have htable := hbase table hs
      have hrec : BaseHolds P (recordFrom base' table conn env).1 := by
        rw [recordFrom]
        split_ifs with hres hable
        · cases hfind : tlsResumeFind table conn with
          | none => exact hbase
          | some i =>
            refine .of_table rfl (htable.update fun _ ↦ ?_)
            have hi := htable i (tlsResumeFind_spec hfind)
            have hentry : foundEntry base' conn = some (table i) := by
              simp [foundEntry, hs, hfind]
            simp only [recordResumed]
            split_ifs with hticket
            · rcases hfound with hnone | heq
              · rw [hentry] at hnone
                cases hnone
              · exact hresumed hres hticket (table i) (heq ▸ hentry) hi
            · exact hi
        · refine .of_table rfl (htable.update fun _ ↦ ?_)
          exact hfull (Bool.not_eq_true _ ▸ hres) hable _
        · exact hbase
      refine ⟨hrec, ?_⟩
      dsimp only
      split_ifs
      · exact hf.save hrec _ _
      · exact hf

end Holds

end AmiNetXDuo.TlsLib
