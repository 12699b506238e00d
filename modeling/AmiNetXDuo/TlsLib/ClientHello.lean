import AmiNetXDuo.Lib.Memory
import AmiNetXDuo.TlsLib.Resume

/-!
# The ClientHello of a connection that resumes

The wrapper that `tls_resume.c` puts around `_nx_secure_tls_send_clienthello()`. The vendored code
has written the body of a ClientHello to the packet, with an empty session ID; the wrapper walks to
the extensions, moves everything behind the session ID up, in place, and appends a `session_ticket`
extension. What does not fit is left out.

An address is a natural number, and the memory is that of the whole machine. The memory of the
session ID and of the ticket belongs to the connection and lies apart from the packet.

## Main definitions

* `HelloPacket` : the packet as the vendored code leaves it.
* `helloExtensions` : the walk to the extensions.
* `wrapSendClienthello` : the wrapper.
* `ClientHello`, `ClientHello.encode` : a ClientHello, and its bytes.

## Main results

* `wrapSendClienthello_exact` : the message is untouched, or it is the same ClientHello with the
  session ID and one more extension.
-/

namespace AmiNetXDuo.TlsLib

open Memory

/-- `TLS_CLIENTHELLO_CACHE_MAX`. -/
def clientHelloCacheMax : Nat := 500

/-- `TLS_EXT_SESSION_TICKET`. -/
def extSessionTicket : Nat := 0x23

/-- `NX_SUCCESS`. -/
def nxSuccess : UInt32 := 0

/-! ### The wrapper -/

/-- The packet behind the vendored code, with the place where its append pointer was before. -/
structure HelloPacket where
  memory : Nat → BitVec 8
  base : Nat
  /-- `nx_packet_append_ptr`. -/
  appendPtr : Nat
  /-- `nx_packet_data_end`. -/
  dataEnd : Nat
  /-- `nx_packet_length`. -/
  length : UInt32
  base_le : base ≤ appendPtr
  append_le : appendPtr ≤ dataEnd

namespace HelloPacket

/-- How long the message is. -/
def bodyLength (p : HelloPacket) : Nat := p.appendPtr - p.base

/-- The message. -/
def body (p : HelloPacket) : List (BitVec 8) := read p.memory p.base p.bodyLength

/-- The two ceilings: the packet, and the handshake cache of the session with the header of the
message. -/
def fits (p : HelloPacket) (need : Nat) : Prop :=
  p.base + p.bodyLength + need ≤ p.dataEnd ∧ p.bodyLength + need + 4 ≤ clientHelloCacheMax

instance (p : HelloPacket) (need : Nat) : Decidable (p.fits need) :=
  inferInstanceAs (Decidable (_ ∧ _))

end HelloPacket

/-- The bytes of an array of the connection. -/
def octets (bytes : Bytes) : List (BitVec 8) := bytes.map UInt8.toBitVec

/-- The two bytes that `tls_r_put16()` writes. -/
def put16 (v : Nat) : List (BitVec 8) := [BitVec.ofNat 8 (v / 256), BitVec.ofNat 8 v]

/-- `tls_r_be16()`, at an address. -/
def be16At (m : Nat → BitVec 8) (a : Nat) : Nat := (m a).toNat * 256 + (m (a + 1)).toNat

/-- The session ID that the message gets. -/
def helloSid (conn : TlsConnection) : List (BitVec 8) :=
  if conn.resumeFlags.offered = true ∧ conn.offerSid.length ≤ resumeSidMax then
    octets conn.offerSid
  else []

/-- The ticket that the message gets if it fits. -/
def helloTicket (conn : TlsConnection) : List (BitVec 8) :=
  if conn.resumeFlags.offered = true ∧ conn.ticketBuffer = true then octets conn.ticket else []

/-- What fits the packet. -/
def helloRoom (conn : TlsConnection) (p : HelloPacket) : HelloRoom :=
  if p.fits ((helloSid conn).length + 4 + (helloTicket conn).length) then .all
  else if p.fits ((helloSid conn).length + 4) then .sessionId
  else .nothing

/-- The walk over the ciphersuites and the compression methods: the offset of the length of the
extensions, if they are exactly the rest of the message. -/
def helloExtensions (m : Nat → BitVec 8) (base length : Nat) : Option Nat :=
  if length < 37 then none
  else
    let offset := 37 + be16At m (base + 35)
    if length < offset + 1 then none
    else
      let offset := offset + 1 + (m (base + offset)).toNat
      if length < offset + 2 then none
      else if offset + 2 + be16At m (base + offset) ≠ length then none
      else some offset

/-- The session ID put into a message of some length: everything behind its length byte moves up. -/
def spliceSid (m : Nat → BitVec 8) (base length : Nat) (sid : List (BitVec 8)) : Nat → BitVec 8 :=
  if sid.length = 0 then m
  else
    let m := copyDown m (base + 35) (base + 35 + sid.length) (length - 35)
    let m := Function.update m (base + 34) (BitVec.ofNat 8 sid.length)
    write m (base + 35) sid

/-- The extension appended to a message of some length, and the length of the extensions. -/
def appendTicket (m : Nat → BitVec 8) (base length offset : Nat) (ticket : List (BitVec 8)) :
    Nat → BitVec 8 :=
  let extTotal := be16At m (base + offset)
  let m := write m (base + length) (put16 extSessionTicket)
  let m := write m (base + length + 2) (put16 ticket.length)
  let m := write m (base + length + 4) ticket
  write m (base + offset) (put16 (extTotal + 4 + ticket.length))

/-- The memory of the message behind the walk. -/
def spliceHello (p : HelloPacket) (offset : Nat) (sid ticket : List (BitVec 8)) : Nat → BitVec 8 :=
  appendTicket (spliceSid p.memory p.base p.bodyLength sid) p.base (p.bodyLength + sid.length)
    (offset + sid.length) ticket

/-- The packet with a session ID and a ticket that fit. -/
def HelloPacket.splice (p : HelloPacket) (offset : Nat) (sid ticket : List (BitVec 8))
    (h : p.fits (sid.length + 4 + ticket.length)) : HelloPacket where
  memory := spliceHello p offset sid ticket
  base := p.base
  appendPtr := p.base + (p.bodyLength + sid.length + (4 + ticket.length))
  dataEnd := p.dataEnd
  length := p.length + UInt32.ofNat (sid.length + 4 + ticket.length)
  base_le := Nat.le_add_right ..
  append_le := by
    have hfit := h.1
    omega

/-- The ticket that the message has room for. -/
def sentTicket (conn : TlsConnection) (p : HelloPacket) : List (BitVec 8) :=
  match helloRoom conn p with
  | .all => helloTicket conn
  | _ => []

/-- `__wrap__nx_secure_tls_send_clienthello()`, from the status of the vendored code on. The
connection is the one that `tls_conn_for_session()` finds. -/
def wrapSendClienthello (status : UInt32) (conn : Option TlsConnection) (p : HelloPacket) :
    UInt32 × Option TlsConnection × HelloPacket :=
  if status ≠ nxSuccess then (status, conn, p)
  else
    match conn with
    | none => (nxSuccess, none, p)
    | some c =>
      if c.resumeFlags.enabled = false then (nxSuccess, some c, p)
      else if p.bodyLength < 35 ∨ p.memory (p.base + 34) ≠ 0 then (nxSuccess, some c, p)
      else
        let c' := tlsClientHello c (helloRoom c p)
        if h : p.fits ((helloSid c).length + 4 + (sentTicket c p).length) then
          match helloExtensions p.memory p.base p.bodyLength with
          | none => (nxSuccess, some c', p)
          | some offset => (nxSuccess, some c', p.splice offset (helloSid c) (sentTicket c p) h)
        else (nxSuccess, some c', p)

/-! ### A ClientHello -/

/-- The body of a ClientHello, with the limits that the length fields of its parts set. -/
structure ClientHello where
  version : List (BitVec 8)
  random : List (BitVec 8)
  sessionId : List (BitVec 8)
  cipherSuites : List (BitVec 8)
  compressionMethods : List (BitVec 8)
  extensions : List (BitVec 8)
  version_length : version.length = 2
  random_length : random.length = 32
  sessionId_length : sessionId.length ≤ 32
  cipherSuites_length : cipherSuites.length < 2 ^ 16
  compressionMethods_length : compressionMethods.length < 2 ^ 8
  extensions_length : extensions.length < 2 ^ 16

namespace ClientHello

/-- The parts between the session ID and the extensions. -/
def offers (h : ClientHello) : List (BitVec 8) :=
  put16 h.cipherSuites.length ++ h.cipherSuites ++
    (BitVec.ofNat 8 h.compressionMethods.length :: h.compressionMethods)

/-- The bytes of the message. -/
def encode (h : ClientHello) : List (BitVec 8) :=
  h.version ++ h.random ++ (BitVec.ofNat 8 h.sessionId.length :: h.sessionId) ++ h.offers ++
    (put16 h.extensions.length ++ h.extensions)

/-- The message is the other one with a session ID and one more extension. -/
structure Extends (h' h : ClientHello) (sid extension : List (BitVec 8)) : Prop where
  version : h'.version = h.version
  random : h'.random = h.random
  sessionId : h'.sessionId = sid
  cipherSuites : h'.cipherSuites = h.cipherSuites
  compressionMethods : h'.compressionMethods = h.compressionMethods
  extensions : h'.extensions = h.extensions ++ extension

end ClientHello

/-- A `session_ticket` extension. -/
def ticketExtension (ticket : List (BitVec 8)) : List (BitVec 8) :=
  put16 extSessionTicket ++ put16 ticket.length ++ ticket

@[simp] theorem length_put16 (v : Nat) : (put16 v).length = 2 := rfl

theorem read_two (m : Nat → BitVec 8) (a : Nat) : read m a 2 = put16 (be16At m a) := by
  have hlo : (m (a + 1)).toNat < 256 := (m (a + 1)).isLt
  have hdiv : be16At m a / 256 = (m a).toNat := by
    rw [be16At]
    omega
  have hmod : be16At m a % 256 = (m (a + 1)).toNat := by
    rw [be16At]
    omega
  have hhigh : BitVec.ofNat 8 (be16At m a) = m (a + 1) :=
    BitVec.eq_of_toNat_eq (by rw [BitVec.toNat_ofNat]; exact hmod)
  rw [put16, hdiv, hhigh, BitVec.ofNat_toNat]
  rfl

theorem read_one (m : Nat → BitVec 8) (a : Nat) : read m a 1 = [BitVec.ofNat 8 (m a).toNat] := by
  rw [BitVec.ofNat_toNat]
  rfl

theorem be16At_lt (m : Nat → BitVec 8) (a : Nat) : be16At m a < 2 ^ 16 := by
  have h0 : (m a).toNat < 256 := (m a).isLt
  have h1 : (m (a + 1)).toNat < 256 := (m (a + 1)).isLt
  rw [be16At]
  omega

/-! ### The walk -/

/-- What stands at the offset that the walk finds. -/
theorem helloExtensions_spec {m : Nat → BitVec 8} {base length offset : Nat}
    (h : helloExtensions m base length = some offset) :
    ∃ suites methods, suites = be16At m (base + 35) ∧
      methods = (m (base + (37 + suites))).toNat ∧ offset = 37 + suites + 1 + methods ∧
      length = offset + 2 + be16At m (base + offset) := by
  simp only [helloExtensions] at h
  split_ifs at h with _ _ _ hlen
  obtain rfl := Option.some.inj h
  exact ⟨_, _, rfl, rfl, rfl, (not_ne_iff.mp hlen).symm⟩

/-- The message that has parts of these lengths at an address. -/
def helloAt (m : Nat → BitVec 8) (base suites methods ext : Nat) (hs : suites < 2 ^ 16)
    (hm : methods < 2 ^ 8) (he : ext < 2 ^ 16) : ClientHello where
  version := read m base 2
  random := read m (base + 2) 32
  sessionId := []
  cipherSuites := read m (base + 35 + 2) suites
  compressionMethods := read m (base + 35 + (2 + suites) + 1) methods
  extensions := read m (base + (35 + (2 + suites + (1 + methods))) + 2) ext
  version_length := length_read ..
  random_length := length_read ..
  sessionId_length := Nat.zero_le _
  cipherSuites_length := (length_read ..).symm ▸ hs
  compressionMethods_length := (length_read ..).symm ▸ hm
  extensions_length := (length_read ..).symm ▸ he

/-- **What is accepted is a ClientHello.** Its extensions stand at the offset of the walk. -/
theorem exists_clientHello {m : Nat → BitVec 8} {base length offset : Nat}
    (hzero : m (base + 34) = 0) (h : helloExtensions m base length = some offset) :
    ∃ hello : ClientHello, hello.sessionId = [] ∧ read m base length = hello.encode ∧
      offset = 35 + hello.offers.length := by
  obtain ⟨suites, methods, hsuites, hmethods, hoffset, hlen⟩ := helloExtensions_spec h
  have hoffset' : offset = 35 + (2 + suites + (1 + methods)) := by omega
  subst hoffset'
  obtain ⟨ext, hext⟩ : ∃ ext, ext = be16At m (base + (35 + (2 + suites + (1 + methods)))) :=
    ⟨_, rfl⟩
  have hs : suites < 2 ^ 16 := hsuites ▸ be16At_lt _ _
  have hm : methods < 2 ^ 8 := hmethods ▸ (m _).isLt
  have he : ext < 2 ^ 16 := hext ▸ be16At_lt _ _
  have haddr : base + (37 + suites) = base + 35 + (2 + suites) := by omega
  have hoffers : read m (base + 35) (2 + suites + (1 + methods)) =
      (helloAt m base suites methods ext hs hm he).offers := by
    rw [read_add, read_add, read_add m _ 1, read_two, read_one, ← hsuites, ← haddr, ← hmethods,
      haddr]
    simp [ClientHello.offers, helloAt]
  have hhead : read m base 35 = read m base 2 ++ read m (base + 2) 32 ++ [0] := by
    rw [← hzero]
    rfl
  refine ⟨helloAt m base suites methods ext hs hm he, rfl, ?_, ?_⟩
  · rw [← hext, Nat.add_assoc] at hlen
    rw [hlen, read_add, read_add m base 35, hoffers, hhead, read_add m _ 2,
      read_two m (base + (35 + _)), ← hext]
    simp [ClientHello.encode, helloAt]
  · rw [← hoffers, length_read]

/-! ### The splice -/

theorem length_ticketExtension (ticket : List (BitVec 8)) :
    (ticketExtension ticket).length = 4 + ticket.length := by
  simp only [ticketExtension, List.length_append, length_put16]

/-- A session ID put into a message: its length byte and its bytes stand where the length byte of
the empty one was. -/
theorem read_spliceSid {m : Nat → BitVec 8} {base length : Nat} {head tail sid : List (BitVec 8)}
    (hread : read m base length = head ++ [0] ++ tail) (hhead : head.length = 34) :
    read (spliceSid m base length sid) base (length + sid.length) =
      head ++ (BitVec.ofNat 8 sid.length :: sid) ++ tail := by
  have hlen : length = 35 + tail.length := by
    rw [← length_read m base length, hread]
    simp [hhead, Nat.add_comm]
  subst hlen
  rw [read_add] at hread
  obtain ⟨hfront, htail⟩ := List.append_inj hread (by simp [hhead])
  rw [spliceSid]
  split_ifs with hsid
  · obtain rfl := List.eq_nil_of_length_eq_zero hsid
    rw [List.length_nil, Nat.add_zero, read_add, hfront, htail]
    rfl
  · obtain ⟨hhead', -⟩ :=
      List.append_inj ((read_add m base 34 1).symm.trans hfront) (by simp [hhead])
    have hmoved : read (write m (base + (35 + sid.length)) tail) base
        (35 + sid.length + tail.length) =
          head ++ read m (base + 34) (1 + sid.length) ++ tail := by
      rw [read_write_end, show 35 + sid.length = 34 + (1 + sid.length) by omega, read_add, hhead']
    have hinside := read_write_inside (BitVec.ofNat 8 sid.length :: sid) hmoved
      (by simp [Nat.add_comm])
    rw [hhead] at hinside
    rw [Nat.add_sub_cancel_left, copyDown_eq_write _ _ (Nat.le_add_right ..), htail,
      Nat.add_assoc base, Nat.add_right_comm 35]
    exact hinside

theorem be16At_of_read {m : Nat → BitVec 8} {base length v : Nat} {front ext : List (BitVec 8)}
    (hread : read m base length = front ++ put16 v ++ ext) (hv : v < 2 ^ 16) :
    be16At m (base + front.length) = v := by
  have hlen : length = front.length + 2 + ext.length := by
    rw [← length_read m base length, hread, List.length_append, List.length_append, length_put16]
  subst hlen
  rw [read_add, read_add] at hread
  obtain ⟨hpair, -⟩ := List.append_inj hread (by simp)
  obtain ⟨-, htwo⟩ := List.append_inj hpair (by simp)
  obtain ⟨h0, h1⟩ : m (base + front.length) = BitVec.ofNat 8 (v / 256) ∧
      m (base + front.length + 1) = BitVec.ofNat 8 v := by
    simpa [Memory.read, put16, List.range_succ] using htwo
  rw [be16At, h0, h1, BitVec.toNat_ofNat, BitVec.toNat_ofNat]
  omega

/-- An extension appended to a message, with the length of the extensions it is added to. -/
theorem read_appendTicket {m : Nat → BitVec 8} {base length offset v : Nat}
    {front ext ticket : List (BitVec 8)} (hread : read m base length = front ++ put16 v ++ ext)
    (hv : v < 2 ^ 16) (hoffset : front.length = offset) :
    read (appendTicket m base length offset ticket) base (length + (4 + ticket.length)) =
      front ++ put16 (v + 4 + ticket.length) ++ (ext ++ ticketExtension ticket) := by
  have hwrites : write (write (write m (base + length) (put16 extSessionTicket))
      (base + length + 2) (put16 ticket.length)) (base + length + 4) ticket =
        write m (base + length) (ticketExtension ticket) := by
    rw [ticketExtension, write_append, write_append]
    rfl
  have happended := read_write_end m base length (ticketExtension ticket)
  rw [hread, length_ticketExtension, List.append_assoc] at happended
  have hinside := read_write_inside (put16 (v + 4 + ticket.length)) happended (by simp)
  subst hoffset
  rw [appendTicket, be16At_of_read hread hv, hwrites]
  exact hinside

/-- Nothing outside the message changes. -/
theorem spliceHello_of_lt_or_ge {p : HelloPacket} {offset : Nat} {sid ticket : List (BitVec 8)}
    {a : Nat} (hbody : 35 ≤ p.bodyLength) (hoffset : offset + 2 ≤ p.bodyLength)
    (ha : a < p.base ∨ p.base + (p.bodyLength + sid.length + (4 + ticket.length)) ≤ a) :
    spliceHello p offset sid ticket a = p.memory a := by
  have hsid : spliceSid p.memory p.base p.bodyLength sid a = p.memory a := by
    rw [spliceSid]
    split_ifs with hnil
    · rfl
    · dsimp only
      rw [write_of_lt_or_ge (by omega), Function.update_of_ne (by omega),
        copyDown_eq_write _ _ (Nat.le_add_right ..), write_of_lt_or_ge (by simp; omega)]
  rw [spliceHello, appendTicket, write_of_lt_or_ge (by simp; omega), write_of_lt_or_ge (by omega),
    write_of_lt_or_ge (by simp; omega), write_of_lt_or_ge (by simp; omega), hsid]

/-- **The splice is exact.** A message that is a ClientHello becomes the ClientHello with the
session ID and the extension. -/
theorem body_splice {p : HelloPacket} {offset : Nat} {sid ticket : List (BitVec 8)}
    (hfit : p.fits (sid.length + 4 + ticket.length)) (hsid : sid.length ≤ 32) {hello : ClientHello}
    (hempty : hello.sessionId = []) (hbody : p.body = hello.encode)
    (hoffset : offset = 35 + hello.offers.length) :
    ∃ hello' : ClientHello, hello'.Extends hello sid (ticketExtension ticket) ∧
      (p.splice offset sid ticket hfit).body = hello'.encode := by
  have hhead : (hello.version ++ hello.random).length = 34 := by
    rw [List.length_append, hello.version_length, hello.random_length]
  have hspliced : read (spliceSid p.memory p.base p.bodyLength sid) p.base
      (p.bodyLength + sid.length) = hello.version ++ hello.random ++
        (BitVec.ofNat 8 sid.length :: sid) ++ hello.offers ++ put16 hello.extensions.length ++
          hello.extensions := by
    rw [HelloPacket.body, ClientHello.encode, hempty, List.append_assoc _ hello.offers] at hbody
    rw [read_spliceSid hbody hhead]
    simp only [List.append_assoc]
  have hfront : (hello.version ++ hello.random ++ (BitVec.ofNat 8 sid.length :: sid) ++
      hello.offers).length = offset + sid.length := by
    rw [List.length_append, List.length_append, hhead, List.length_cons]
    omega
  have htotal : hello.extensions.length + 4 + ticket.length =
      (hello.extensions ++ ticketExtension ticket).length := by
    rw [List.length_append, length_ticketExtension, Nat.add_assoc]
  have happended : (p.splice offset sid ticket hfit).body = _ :=
    (congrArg (read _ p.base) (Nat.add_sub_cancel_left ..)).trans
      (read_appendTicket hspliced hello.extensions_length hfront)
  have hlen : hello.extensions.length ≤ p.bodyLength := by
    rw [← length_read p.memory p.base p.bodyLength, ← HelloPacket.body, hbody]
    simp [ClientHello.encode]
    omega
  have hcache := hfit.2
  rw [clientHelloCacheMax] at hcache
  refine ⟨{ hello with
    sessionId := sid
    extensions := hello.extensions ++ ticketExtension ticket
    sessionId_length := hsid
    extensions_length := by omega }, ⟨rfl, rfl, rfl, rfl, rfl, rfl⟩, ?_⟩
  rw [happended, htotal, List.append_assoc _ (put16 _)]
  rfl

/-! ### The wrapper -/

theorem length_helloSid_le (conn : TlsConnection) : (helloSid conn).length ≤ 32 := by
  rw [helloSid]
  split_ifs with h
  · simpa [octets, resumeSidMax] using h.2
  · exact Nat.zero_le _

/-- What the wrapper may make of a packet. -/
structure Spliced (conn : TlsConnection) (p p' : HelloPacket) : Prop where
  /-- The message was a ClientHello without a session ID, and is the same one with the session ID of
  the connection and one more extension. -/
  message : ∃ hello hello' : ClientHello, hello.sessionId = [] ∧ p.body = hello.encode ∧
    hello'.Extends hello (helloSid conn) (ticketExtension (sentTicket conn p)) ∧
    p'.body = hello'.encode
  /-- The extension has the whole ticket, if that fits, or none of it. -/
  ticket : sentTicket conn p =
    if p.fits ((helloSid conn).length + 4 + (helloTicket conn).length) then helloTicket conn else []
  base : p'.base = p.base
  dataEnd : p'.dataEnd = p.dataEnd
  /-- The length of the packet counts the bytes that the append pointer has moved over. -/
  length : p'.length = p.length + UInt32.ofNat (p'.appendPtr - p.appendPtr)
  cache : p'.bodyLength + 4 ≤ clientHelloCacheMax
  /-- Every byte outside the message is what it was. -/
  outside : ∀ a, a < p.base ∨ p'.appendPtr ≤ a → p'.memory a = p.memory a

theorem sentTicket_eq (conn : TlsConnection) (p : HelloPacket) : sentTicket conn p =
    if p.fits ((helloSid conn).length + 4 + (helloTicket conn).length) then helloTicket conn
    else [] := by
  rw [sentTicket, helloRoom]
  split_ifs <;> rfl

theorem spliced_splice {conn : TlsConnection} {p : HelloPacket} {offset : Nat}
    (hfit : p.fits ((helloSid conn).length + 4 + (sentTicket conn p).length))
    (hzero : p.memory (p.base + 34) = 0)
    (hwalk : helloExtensions p.memory p.base p.bodyLength = some offset) :
    Spliced conn p (p.splice offset (helloSid conn) (sentTicket conn p) hfit) := by
  obtain ⟨hello, hempty, hbody, hoffset⟩ := exists_clientHello hzero hwalk
  obtain ⟨hello', hextends, hbody'⟩ :=
    body_splice hfit (length_helloSid_le conn) hempty hbody hoffset
  obtain ⟨_, _, _, _, hoff, hlen⟩ := helloExtensions_spec hwalk
  have hmoved : p.base + (p.bodyLength + (helloSid conn).length +
      (4 + (sentTicket conn p).length)) - p.appendPtr =
        (helloSid conn).length + 4 + (sentTicket conn p).length := by
    have hle := p.base_le
    rw [HelloPacket.bodyLength]
    omega
  refine ⟨⟨hello, hello', hempty, hbody, hextends, hbody'⟩, sentTicket_eq conn p, rfl, rfl, ?_, ?_,
    fun a ha ↦ spliceHello_of_lt_or_ge (by omega) (by omega) ha⟩
  · exact congrArg (fun n ↦ p.length + UInt32.ofNat n) hmoved.symm
  · have htotal := hfit.2
    rw [HelloPacket.bodyLength, HelloPacket.splice, Nat.add_sub_cancel_left]
    omega

/-- **The ClientHello of a connection.** Whatever the vendored code leaves in the packet and
whatever the connection holds, the wrapper leaves the packet alone or gives it exactly the
ClientHello with the session ID and the extension. -/
theorem wrapSendClienthello_exact (status : UInt32) (conn : Option TlsConnection)
    (p : HelloPacket) :
    (wrapSendClienthello status conn p).2.2 = p ∨
      ∃ c, conn = some c ∧ Spliced c p (wrapSendClienthello status conn p).2.2 := by
  cases conn with
  | none =>
    simp only [wrapSendClienthello]
    exact .inl (by split_ifs <;> rfl)
  | some c =>
    simp only [wrapSendClienthello]
    split_ifs with hstatus hoff hshape hfit
    · exact .inl rfl
    · exact .inl rfl
    · exact .inl rfl
    · have hzero : p.memory (p.base + 34) = 0 := not_ne_iff.mp (not_or.mp hshape).2
      cases hwalk : helloExtensions p.memory p.base p.bodyLength with
      | none => exact .inl rfl
      | some offset => exact .inr ⟨c, rfl, spliced_splice hfit hzero hwalk⟩
    · exact .inl rfl

end AmiNetXDuo.TlsLib
