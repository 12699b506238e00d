import AmiNetXDuo.TlsLib.Resume

/-!
# The trust store and the sessions verified against it

The trust store of `tls_store.c`: an index that is read when a connection is opened, and the root
certificates that a chain asks for, read during the handshake. A cached session that was verified
carries a digest of each root its chain was checked against, and is offered again only while the
store has the same roots.

The parser of certificates is vendored code, which the repository does not have. What the library
uses of it is in `Vendored`: how a block of ASN.1 begins, and the part of a certificate that
`nx_secure_x509_certificate_data` points at.

## Main definitions

* `TrustStore`, `tlsStoreOpen`, `tlsStoreFetch`, `tlsStoreRootDigest` : the store.
* `tlsIssuerNameDer`, `tlsStoreSupply` : the roots that a chain needs.
* `Cached`, `Later` : a verified session in the cache, and a connection that could resume it.

## Main results

* `tlsResumePrepare_offers_iff` : the session is offered exactly if, for each of its roots, the part
  of the certificate that was digested then has the digest of the whole certificate.
* `tlsResumePrepare_refuses` : a session of a store that has not changed, which is not offered.
-/

namespace AmiNetXDuo.TlsLib

/-! ### The store -/

/-- `TLS_STORE_MAGIC`. -/
def storeMagic : Nat := 0x41435331

/-- `TLS_STORE_HEADER`. -/
def storeHeader : Nat := 16

/-- `TLS_STORE_ENTRY`. -/
def storeEntrySize : Nat := 12

/-- `TLS_STORE_MAX_ROOTS`. -/
def storeMaxRoots : Nat := 1024

/-- `TLS_ROOT_DER_MAX`. -/
def rootDerMax : Nat := 2560

/-- `TLSStoreEntry`. -/
structure StoreEntry where
  key : UInt32
  offset : UInt32
  length : UInt32
  deriving DecidableEq, Repr

/-- `TLSStore`, without the path of its file. -/
structure TrustStore where
  index : List StoreEntry
  fingerprint : UInt32
  deriving DecidableEq, Repr

/-- One byte or word taken into an FNV-1a hash. -/
def fnvStep (hash v : UInt32) : UInt32 := (hash ^^^ v) * fnvPrime

/-- A hash that is not zero, which means that there is none. -/
def fnvFold (hash : UInt32) : UInt32 := if hash = 0 then fnvPrime else hash

/-- `tls_fnv1a()`. -/
def tlsFnv1a (data : Bytes) : UInt32 :=
  fnvFold (data.foldl (fun hash b ↦ fnvStep hash b.toUInt32) fnvOffset)

/-- One record of the index. -/
def storeEntryAt (file : Bytes) (i : Nat) : StoreEntry :=
  let r := file.drop (storeHeader + i * storeEntrySize)
  ⟨UInt32.ofNat (be32 r), UInt32.ofNat (be32 (r.drop 4)), UInt32.ofNat (be32 (r.drop 8))⟩

/-- The fingerprint of an index. -/
def storeFingerprint (index : List StoreEntry) : UInt32 :=
  fnvFold (index.foldl (fun hash e ↦ fnvStep (fnvStep (fnvStep hash e.key) e.offset) e.length)
    (fnvStep fnvOffset (UInt32.ofNat index.length)))

/-- Whether the header of a file announces an index of this many records, and they are there. -/
def storeHeaderOk (file : Bytes) (count : Nat) : Bool :=
  decide (storeHeader ≤ file.length) && be32 file == storeMagic && be32 (file.drop 4) == count &&
    be32 (file.drop 8) == storeHeader &&
      decide (storeHeader + count * storeEntrySize ≤ file.length)

/-- `tls_store_open()`. -/
def tlsStoreOpen (file : Bytes) : Option TrustStore :=
  let count := be32 (file.drop 4)
  if count = 0 ∨ storeMaxRoots < count ∨ storeHeaderOk file count = false then none
  else
    let index := (List.range count).map (storeEntryAt file)
    some ⟨index, storeFingerprint index⟩

/-- `tls_store_same()`. -/
def tlsStoreSame (store : TrustStore) (file : Bytes) : Bool :=
  storeHeaderOk file store.index.length &&
    (List.range store.index.length).map (storeEntryAt file) == store.index

/-- The binary search of `tls_store_fetch()`. -/
def storeSearch (index : List StoreEntry) (key : UInt32) (lo hi : Nat) : Option StoreEntry :=
  if _h : lo < hi then
    let mid := lo + (hi - lo) / 2
    match index[mid]? with
    | none => none
    | some e =>
      if e.key < key then storeSearch index key (mid + 1) hi
      else if key < e.key then storeSearch index key lo mid
      else some e
  else none
termination_by hi - lo

/-- `tls_store_fetch()`, with the file as it is now. -/
def tlsStoreFetch (store : TrustStore) (file : Bytes) (key : UInt32) : Option Bytes :=
  if key = 0 then none
  else
    match storeSearch store.index key 0 store.index.length with
    | none => none
    | some e =>
      let length := e.length.toNat
      if length = 0 ∨ rootDerMax < length then none
      else if tlsStoreSame store file = false ∨ file.length < e.offset.toNat + length then none
      else some ((file.drop e.offset.toNat).take length)

/-- `tls_store_der_digest()`. -/
def tlsStoreDerDigest (der : Bytes) : UInt32 :=
  fnvFold (der.foldl (fun hash b ↦ fnvStep hash b.toUInt32)
    (fnvStep fnvOffset (UInt32.ofNat der.length)))

/-- `tls_store_root_digest()`. -/
def tlsStoreRootDigest (store : TrustStore) (file : Bytes) (key : UInt32) : UInt32 :=
  match tlsStoreFetch store file key with
  | none => 0
  | some der => tlsStoreDerDigest der

/-! ### The roots of a chain -/

/-- The class of an ASN.1 tag. -/
inductive TagClass
  | universal
  | application
  | context
  | privateUse
  deriving DecidableEq, Repr

/-- How a block of ASN.1 begins. -/
structure Tlv where
  type : UInt16
  tagClass : TagClass
  length : Nat
  headerLength : Nat
  deriving DecidableEq, Repr

/-- `NX_SECURE_ASN_TAG_SEQUENCE`. -/
def tagSequence : UInt16 := 0x10

/-- The vendored code. -/
structure Vendored where
  /-- `_nx_secure_x509_asn1_tlv_block_parse()`. -/
  tlvBlockParse : Bytes → Option Tlv
  /-- `nx_secure_x509_certificate_initialize()`: what `nx_secure_x509_certificate_data` points at,
  for as long as its length says. -/
  certificateInitialize : Bytes → Option Bytes
  /-- Whether `_nx_secure_x509_store_certificate_add()` takes a certificate. -/
  storeCertificateAdd : Bytes → Bool

/-- A block that is a sequence. -/
def Vendored.sequence (x : Vendored) (p : Bytes) : Option Tlv :=
  (x.tlvBlockParse p).filter fun t ↦ t.type = tagSequence ∧ t.tagClass = .universal

/-- The loop of `tls_issuer_name_der()` over the fields before the issuer. -/
def skipFields (x : Vendored) (field : Nat) (p : Bytes) : Option Bytes :=
  if _h : field < 3 then
    match x.tlvBlockParse p with
    | none => none
    | some t =>
      -- without a version, the first block is the serial number
      let skipped := if field = 0 ∧ t.tagClass ≠ .context then 1 else 0
      if p.length < t.headerLength + t.length then none
      else skipFields x (field + skipped + 1) (p.drop (t.headerLength + t.length))
  else some p
termination_by 3 - field

/-- `tls_issuer_name_der()`, for what `nx_secure_x509_certificate_data` points at. -/
def tlsIssuerNameDer (x : Vendored) (cert : Bytes) : Option Bytes := do
  let outer ← x.sequence cert
  let p ← skipFields x 0 ((cert.drop outer.headerLength).take outer.length)
  let name ← x.sequence p
  if p.length < name.headerLength + name.length then none
  else some (p.take (name.headerLength + name.length))

/-- `tls_cert_issuer_key()`. -/
def tlsCertIssuerKey (x : Vendored) (cert : Bytes) : UInt32 :=
  match tlsIssuerNameDer x cert with
  | none => 0
  | some name => if name = [] then 0 else tlsFnv1a name

/-- A root that a connection has loaded: `tc_RootKey`, its bytes in `tc_RootDer`, and what `tc_Root`
points at. -/
structure LoadedRoot where
  key : UInt32
  der : Bytes
  data : Bytes
  deriving DecidableEq, Repr

/-- One certificate of the chain in `tls_store_supply()`. -/
def supplyOne (x : Vendored) (store : TrustStore) (file : Bytes) (roots : List LoadedRoot)
    (cert : Bytes) : List LoadedRoot :=
  let key := tlsCertIssuerKey x cert
  if maxRoots ≤ roots.length ∨ key = 0 ∨ roots.any (·.key == key) then roots
  else
    match tlsStoreFetch store file key with
    | none => roots
    | some der =>
      match x.certificateInitialize der with
      | none => roots
      | some data => if x.storeCertificateAdd data then roots ++ [⟨key, der, data⟩] else roots

/-- `tls_store_supply()`, for the certificates that the server sent. -/
def tlsStoreSupply (x : Vendored) (store : TrustStore) (file : Bytes) (chain : List Bytes) :
    List LoadedRoot :=
  chain.foldl (supplyOne x store file) []

/-- What `tls_resume_record()` keeps of a root. -/
def LoadedRoot.recorded (r : LoadedRoot) : UInt32 × UInt32 := (r.key, tlsStoreDerDigest r.data)

theorem fnvFold_ne_zero (hash : UInt32) : fnvFold hash ≠ 0 := by
  rw [fnvFold]
  split_ifs with h
  · decide
  · exact h

theorem tlsStoreDerDigest_ne_zero (der : Bytes) : tlsStoreDerDigest der ≠ 0 := fnvFold_ne_zero _

/-- Every root that is loaded was in the store, under a key. -/
theorem tlsStoreSupply_spec {x : Vendored} {store : TrustStore} {file : Bytes}
    {chain : List Bytes} : ∀ r ∈ tlsStoreSupply x store file chain,
      r.key ≠ 0 ∧ tlsStoreFetch store file r.key = some r.der := by
  refine List.foldlRecOn chain (supplyOne x store file)
    (motive := fun roots : List LoadedRoot ↦ ∀ r ∈ roots,
      r.key ≠ 0 ∧ tlsStoreFetch store file r.key = some r.der)
    (fun r hr ↦ absurd hr List.not_mem_nil) fun roots ih cert _ ↦ ?_
  simp only [supplyOne]
  split_ifs with hskip
  · exact ih
  cases hfetch : tlsStoreFetch store file (tlsCertIssuerKey x cert) with
  | none => exact ih
  | some der =>
    dsimp only
    cases x.certificateInitialize der with
    | none => exact ih
    | some data =>
      dsimp only
      split_ifs
      · intro r hr
        rcases List.mem_append.mp hr with hr | hr
        · exact ih r hr
        · obtain rfl := List.mem_singleton.mp hr
          exact ⟨fun h0 ↦ hskip (.inr (.inl h0)), hfetch⟩
      · exact ih

/-! ### The entry in the cache -/

theorem strEqual_self (limit : Nat) (a : Bytes) : strEqual limit a a = true := by
  induction limit generalizing a with
  | zero => rfl
  | succ limit ih =>
    rw [strEqual, if_neg (not_not_intro rfl), ih]
    exact ite_self _

/-- No entry before the slot that is chosen has the key. -/
theorem tlsResumeSlot_spec (table : Table) (conn : TlsConnection) :
    ∃ before behind, List.finRange resumeSlots = before ++ tlsResumeSlot table conn :: behind ∧
      ∀ j ∈ before, (table j).matchesKey conn = false := by
  rw [tlsResumeSlot]
  cases hfind : tlsResumeFind table conn with
  | some i =>
    obtain ⟨-, before, behind, hsplit, hbefore⟩ := List.find?_eq_some_iff_append.mp hfind
    exact ⟨before, behind, hsplit, fun j hj ↦ by simpa using hbefore j hj⟩
  | none =>
    obtain ⟨before, behind, hsplit⟩ := List.append_of_mem (List.mem_finRange _)
    exact ⟨before, behind, hsplit, fun j _ ↦
      by simpa using List.find?_eq_none.mp hfind j (List.mem_finRange j)⟩

/-- An entry that is put into its slot is found. -/
theorem tlsResumeFind_update {table : Table} {conn : TlsConnection} {e : ResumeEntry}
    (he : e.matchesKey conn = true) :
    tlsResumeFind (Function.update table (tlsResumeSlot table conn) e) conn =
      some (tlsResumeSlot table conn) := by
  obtain ⟨before, behind, hsplit, hbefore⟩ := tlsResumeSlot_spec table conn
  refine List.find?_eq_some_iff_append.mpr ⟨by rwa [Function.update_self], before, behind, hsplit,
    fun j hj ↦ ?_⟩
  have hnodup := List.nodup_finRange resumeSlots
  rw [hsplit, List.nodup_append] at hnodup
  rw [Function.update_of_ne (hnodup.2.2 j hj _ List.mem_cons_self), hbefore j hj]
  rfl

theorem matchesKey_recordFull {conn : TlsConnection} (hhost : conn.hostName.length < resumeHostMax)
    (serial : UInt32) (env : ResumeEnv) : (recordFull conn serial env).matchesKey conn = true := by
  have htake : conn.hostName.take (resumeHostMax - 1) = conn.hostName :=
    List.take_of_length_le (by omega)
  simp [ResumeEntry.matchesKey, recordFull, htake, strEqual_self]

section Scenario

variable (x : Vendored) (store : TrustStore) (file : Bytes) (chain : List Bytes)

/-- A connection has completed a full handshake, verified against the store in the file, and its
session is one that is cached. -/
structure Cached (base : TlsBase) (conn : TlsConnection) (env : ResumeEnv) : Prop where
  opened : tlsStoreOpen file = some store
  fingerprint : conn.store = some store.fingerprint
  verify : conn.verify = true
  roots : conn.roots = (tlsStoreSupply x store file chain).map LoadedRoot.recorded
  full : conn.resumeFlags.resumed = false
  enabled : conn.resumeFlags.enabled = true
  named : conn.hostName ≠ []
  host : conn.hostName.length < resumeHostMax
  recordable : recordable conn = true
  table : base.sessions ≠ none ∨ env.allocTable = true

/-- The cache that a connection looks into, behind the loading of its file. -/
def preparedBase (base : TlsBase) (files : Files) (conn : TlsConnection) (env : ResumeEnv) :
    TlsBase :=
  tlsResumeTable (tlsResumeLoad base files conn.sessionPath env) env.allocTable

/-- A later connection, to the same host and with the same settings, while the file of the store is
the same: the cache still has the entry, under whatever serial, and it has not expired. -/
structure Later (conn : TlsConnection) (recorded base : TlsBase) (files : Files)
    (conn' : TlsConnection) (env : ResumeEnv) : Prop where
  hostName : conn'.hostName = conn.hostName
  port : conn'.port = conn.port
  verify : conn'.verify = conn.verify
  expiryChecked : conn'.expiryChecked = conn.expiryChecked
  remoteCount : conn'.remoteCount = conn.remoteCount
  sessionPath : conn'.sessionPath = conn.sessionPath
  sameStore : conn'.store = conn.store
  rootDer : conn'.rootDer = true
  enabled : conn'.resumeFlags.enabled = true
  fresh : conn'.resumeFlags.offered = false
  kept : ∃ serial, foundEntry (preparedBase base files conn' env) conn' =
    (foundEntry recorded conn).map fun e ↦ { e with serial := serial }
  unexpired : ∀ e ∈ foundEntry (preparedBase base files conn' env) conn',
    tlsExpired e.stamp e.lifetime env.now = false
  digests : env.rootDigest = tlsStoreRootDigest store file

variable {x store file chain}

/-- The session that has been recorded is found. -/
theorem Cached.found {base : TlsBase} {conn : TlsConnection} {env : ResumeEnv}
    (h : Cached x store file chain base conn env) (files : Files) :
    ∃ serial, foundEntry (tlsResumeRecord base files conn env).1 conn =
      some (recordFull conn serial env) := by
  obtain ⟨table, htable⟩ : ∃ table, (tlsResumeTable base env.allocTable).sessions = some table := by
    cases hs : base.sessions with
    | some table => exact ⟨table, by rw [tlsResumeTable, hs]; exact hs⟩
    | none =>
      have halloc : env.allocTable = true := h.table.resolve_left fun hne ↦ hne hs
      exact ⟨_, by rw [tlsResumeTable, hs, halloc]; rfl⟩
  refine ⟨(tlsResumeTable base env.allocTable).serial + 1, ?_⟩
  have hoff : ¬(conn.resumeFlags.enabled = false ∨ conn.hostName = []) := by
    simp [h.enabled, h.named]
  simp only [tlsResumeRecord, if_neg hoff, htable, recordFrom, h.full, h.recordable, if_true,
    Bool.false_eq_true, if_false]
  simp [foundEntry, putEntry, tlsResumeFind_update (matchesKey_recordFull h.host _ env)]

/-- **What prepare offers.** The entry that is found, if it has not expired, exactly while the store
has its roots. -/
theorem tlsResumePrepare_offered {base : TlsBase} {files : Files} {conn : TlsConnection}
    {env : ResumeEnv} {e : ResumeEntry} (henabled : conn.resumeFlags.enabled = true)
    (hfresh : conn.resumeFlags.offered = false) (hnamed : conn.hostName ≠ [])
    (hhost : conn.hostName.length < resumeHostMax)
    (hfound : foundEntry (preparedBase base files conn env) conn = some e)
    (hexpired : tlsExpired e.stamp e.lifetime env.now = false) :
    (tlsResumePrepare base files conn env).2.resumeFlags.offered =
      tlsResumeRootsCurrent conn e env := by
  obtain ⟨table, htable, i, hfind, rfl⟩ : ∃ table,
      (preparedBase base files conn env).sessions = some table ∧
        ∃ i, tlsResumeFind table conn = some i ∧ table i = e := by
    simpa [foundEntry, Option.bind_eq_some_iff] using hfound
  have hon : ¬conn.resumeFlags.enabled = false := by simp [henabled]
  have hname : ¬(conn.hostName = [] ∨ resumeHostMax ≤ conn.hostName.length) := by
    rintro (h | h)
    · exact hnamed h
    · omega
  rw [preparedBase] at htable
  simp only [tlsResumePrepare, if_neg hon, if_neg hname, htable, prepareFrom, hfind, hexpired,
    Bool.false_eq_true, if_false]
  split_ifs with hroots
  · rw [hroots, hfresh]
  · rw [Bool.not_eq_false] at hroots
    rw [hroots]
    rfl

/-- The roots of a verified session are current exactly if what was digested of each has the digest
of what the store has. -/
theorem tlsResumeRootsCurrent_iff {base : TlsBase} {conn conn' : TlsConnection}
    {env env' : ResumeEnv} (h : Cached x store file chain base conn env)
    (hstore : conn'.store ≠ none) (hder : conn'.rootDer = true)
    (hdigests : env'.rootDigest = tlsStoreRootDigest store file)
    (e : ResumeEntry) (hflags : e.flags = tlsResumeFlags conn) (hroots : e.roots = conn.roots) :
    tlsResumeRootsCurrent conn' e env' = true ↔
      ∀ r ∈ tlsStoreSupply x store file chain,
        tlsStoreDerDigest r.data = tlsStoreDerDigest r.der := by
  have hverified : ¬e.flags &&& entryVerified = 0 := by
    rw [hflags, tlsResumeFlags, h.verify]
    cases conn.expiryChecked <;> decide
  have hcount : ¬(e.roots = [] ∨ maxRoots < e.roots.length ∨ conn'.store = none ∨
      conn'.rootDer = false) := by
    have hable := h.recordable
    simp only [TlsLib.recordable, h.verify, Bool.and_eq_true, Bool.or_eq_true, decide_eq_true_eq,
      Bool.not_true, Bool.false_eq_true, false_or] at hable
    rintro (hnil | hmany | hnone | hfalse)
    · exact hable.2.1 (hroots ▸ hnil)
    · rw [hroots] at hmany
      omega
    · exact hstore hnone
    · rw [hder] at hfalse
      cases hfalse
  rw [tlsResumeRootsCurrent, if_neg hverified, if_neg hcount, hroots, h.roots, List.all_map,
    List.all_eq_true]
  refine forall₂_congr fun r hr ↦ ?_
  obtain ⟨hkey, hfetch⟩ := tlsStoreSupply_spec r hr
  have hdigest : env'.rootDigest r.key = tlsStoreDerDigest r.der := by
    rw [hdigests, tlsStoreRootDigest, hfetch]
  simp [LoadedRoot.recorded, hdigest, hkey, tlsStoreDerDigest_ne_zero]
  exact eq_comm

/-- **When a verified session is offered again.** Nothing has changed, and the session is offered
exactly if, for each root of the chain, what the parser left of the certificate has the digest of
the certificate. -/
theorem tlsResumePrepare_offers_iff {base base' : TlsBase} {files files' : Files}
    {conn conn' : TlsConnection} {env env' : ResumeEnv}
    (h : Cached x store file chain base conn env)
    (hlater : Later store file conn (tlsResumeRecord base files conn env).1 base' files' conn'
      env') :
    (tlsResumePrepare base' files' conn' env').2.resumeFlags.offered = true ↔
      ∀ r ∈ tlsStoreSupply x store file chain,
        tlsStoreDerDigest r.data = tlsStoreDerDigest r.der := by
  obtain ⟨serial, hfound⟩ := h.found files
  obtain ⟨serial', hkept⟩ := hlater.kept
  rw [hfound, Option.map_some] at hkept
  rw [tlsResumePrepare_offered hlater.enabled hlater.fresh (hlater.hostName ▸ h.named)
    (hlater.hostName ▸ h.host) hkept (hlater.unexpired _ hkept)]
  refine tlsResumeRootsCurrent_iff h ?_ hlater.rootDer hlater.digests _ rfl ?_
  · rw [hlater.sameStore, h.fingerprint]
    exact Option.some_ne_none _
  · rw [recordFull, h.verify]
    rfl

end Scenario

/-! ### A session that is refused -/

/-- A parser of blocks with a short length, in which a certificate is its first block. -/
def shortForm : Vendored where
  tlvBlockParse p :=
    match p with
    | tag :: length :: _ =>
      some ⟨(tag &&& 0x1f).toUInt16, if tag < 0x80 then .universal else .context, length.toNat, 2⟩
    | _ => none
  certificateInitialize der := some ((der.drop 2).take (2 + ((der.drop 3).headD 0).toNat))
  storeCertificateAdd _ := true

/-- The part of a certificate that is signed: a serial number, an algorithm, and an empty issuer. -/
def sampleTbs : Bytes := [0x30, 7, 0x02, 1, 1, 0x30, 0, 0x30, 0]

/-- A root: the part that is signed, an algorithm, and a signature. -/
def sampleRoot : Bytes := [0x30, 14] ++ sampleTbs ++ [0x30, 0, 0x03, 1, 0]

/-- The file of a store with this root. -/
def sampleStoreFile : Bytes :=
  [0x41, 0x43, 0x53, 0x31] ++ [0, 0, 0, 1] ++ [0, 0, 0, 16] ++ [0, 0, 0, 0] ++
    [49, 237, 139, 125] ++ [0, 0, 0, 28] ++ [0, 0, 0, 16] ++ sampleRoot

/-- A connection of `a` on port 443 that verifies, with nothing of its handshake yet. -/
def sampleOpened : TlsConnection where
  hostName := [97]
  port := 443
  verify := true
  expiryChecked := true
  remoteCount := 2
  store := (tlsStoreOpen sampleStoreFile).map (·.fingerprint)
  rootDer := true
  roots := []
  sessionPath := []
  resumeFlags := ⟨true, false, false, false, false, false⟩
  offerSid := []
  master := []
  ticketBuffer := true
  ticket := []
  ticketLifetime := 0
  cipherSuite := 0
  protocol := 0x303
  session := ⟨[], [], false, false, none, 0x303⟩

/-- The store of the file. -/
def sampleStore : TrustStore := (tlsStoreOpen sampleStoreFile).getD ⟨[], 0⟩

/-- The connection behind its handshake, in which a certificate of the root came. -/
def sampleVerified : TlsConnection :=
  { sampleOpened with
    roots := (tlsStoreSupply shortForm sampleStore sampleStoreFile [sampleTbs]).map
      LoadedRoot.recorded
    session := ⟨[1], [2], false, true, some 0xc02f, 0x303⟩ }

/-- The system, with nothing that fails. -/
def sampleEnv : ResumeEnv where
  now := clockFloor
  allocLoad := true
  allocTable := true
  openFile := true
  records := resumeSlots
  random := []
  rootDigest := tlsStoreRootDigest sampleStore sampleStoreFile

/-- The cache before any session. -/
def sampleBase : TlsBase := ⟨none, 0, false, []⟩

/-- The cache with the session. -/
def sampleRecorded : TlsBase :=
  (tlsResumeRecord sampleBase (fun _ ↦ none) sampleVerified sampleEnv).1

theorem cached_sample : Cached shortForm sampleStore sampleStoreFile [sampleTbs] sampleBase
    sampleVerified sampleEnv where
  opened := by decide +kernel
  fingerprint := by decide +kernel
  verify := rfl
  roots := rfl
  full := rfl
  enabled := rfl
  named := by decide
  host := by decide
  recordable := by decide +kernel
  table := .inr rfl

theorem later_sample : Later sampleStore sampleStoreFile sampleVerified sampleRecorded
    sampleRecorded (fun _ ↦ none) sampleOpened sampleEnv where
  hostName := rfl
  port := rfl
  verify := rfl
  expiryChecked := rfl
  remoteCount := rfl
  sessionPath := rfl
  sameStore := by decide +kernel
  rootDer := rfl
  enabled := rfl
  fresh := rfl
  kept := ⟨1, by decide +kernel⟩
  unexpired := by decide +kernel
  digests := rfl

/-- The session of a root whose signed part and whose certificate differ in their digests. -/
theorem tlsResumePrepare_offers_iff_sample :
    (tlsResumePrepare sampleRecorded (fun _ ↦ none) sampleOpened sampleEnv).2.resumeFlags.offered =
        true ↔
      ∀ r ∈ tlsStoreSupply shortForm sampleStore sampleStoreFile [sampleTbs],
        tlsStoreDerDigest r.data = tlsStoreDerDigest r.der :=
  tlsResumePrepare_offers_iff cached_sample later_sample

/-- **Nothing has changed, and the session is refused.** The next connection, with the cache exactly
as the handshake left it, offers nothing. -/
theorem tlsResumePrepare_refuses :
    Cached shortForm sampleStore sampleStoreFile [sampleTbs] sampleBase sampleVerified sampleEnv ∧
      Later sampleStore sampleStoreFile sampleVerified sampleRecorded sampleRecorded
        (fun _ ↦ none) sampleOpened sampleEnv ∧
      (tlsResumePrepare sampleRecorded (fun _ ↦ none) sampleOpened
        sampleEnv).2.resumeFlags.offered = false :=
  ⟨cached_sample, later_sample, by decide +kernel⟩

end AmiNetXDuo.TlsLib
