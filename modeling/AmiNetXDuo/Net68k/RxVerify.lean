import AmiNetXDuo.Net68k.Checksum

/-!
# The receive checks of `n68k_rx_verify.c`

The walking verifier `n68k_rx_verify`, which sums the frame it looks at, and `n68k_rx_verify_sum`,
which starts from a sum that the copy of the frame has produced.  Both report which checksums they
have checked and whether the frame must be dropped.

Counters are left out: nothing reads them here.

## Main definitions

* `RxPacket` : a received frame of one buffer, from its IP header on.
* `n68kRxv6Shape` : where the transport of an IPv6 frame starts.
* `n68kRxVerify` and `n68kRxVerifySum` : the two verifiers.
-/

namespace AmiNetXDuo.Net68k

open OnesComplement

/-- A received frame of one buffer: the address of its IP header, the memory from there on, and its
length. -/
structure RxPacket where
  prepend : Nat
  mem : Mem
  length : Nat
  ipVersion : Nat
  nonnull : 0 < prepend
  /-- The pool clears the version, which the stack stamps after these checks. -/
  fresh : ipVersion ≠ ipVersionV6

theorem zero_ne_ipVersionV6 : 0 ≠ ipVersionV6 := by decide

/-- The bits of `nx_packet_interface_capability_flag`. -/
inductive Capability
  | ipv4RxChecksum | tcpRxChecksum | udpRxChecksum | icmpv4RxChecksum | icmpv6RxChecksum
  | igmpRxChecksum
  deriving DecidableEq, Repr

/-- The bits to publish, and whether the frame is corrupt. -/
structure RxVerdict where
  flags : List Capability
  drop : Bool
  deriving DecidableEq, Repr

/-- `n68k_rxv_even`: longword alignment. -/
def n68kRxvEven (prepend : Nat) : Bool := prepend % 4 = 0

/-- `n68k_rxv_fold`. -/
def n68kRxvFold (sum : ULong) : ULong := fold sum

/-- `n68k_rxv_sum_be`. -/
def n68kRxvSumBe (p : Mem) (i longwords : Nat) : ULong := n68kSumLongwords p i longwords

/-- `n68k_rx_sum_ok`, with the packet presented from offset `off` of the frame on. -/
def n68kRxSumOk (packet : RxPacket) (ipVersion off protocol length : Nat)
    (src dst : List ULong) : Bool :=
  let checksum := n68kIpChecksumCompute (fun j ↦ packet.mem (off + j)) (packet.prepend + off)
    (packet.prepend + packet.length) ipVersion protocol length src dst
  ~~~checksum &&& 0xFFFF#32 = 0

/-! ### IPv6 -/

/-- The loop of `n68k_rxv6_dstopt_plain`. -/
def dstoptLoop (opt : Mem) (bytes i : Nat) : Bool :=
  if i < bytes then
    if opt i = 0 then dstoptLoop opt bytes (i + 1)
    else if i + 2 > bytes then false
    else if opt i = 201 then false
    else dstoptLoop opt bytes (i + 2 + (opt (i + 1)).toNat)
  else i = bytes
termination_by bytes - i

/-- `n68k_rxv6_dstopt_plain`: no home address among the options, and no length that overruns. -/
def n68kRxv6DstoptPlain (opt : Mem) (bytes : Nat) : Bool := dstoptLoop opt bytes 0

/-- The next-header values of the extension headers that are walked or told apart. -/
def v6Hopopt : Nat := 0
def v6Routing : Nat := 43
def v6Fragment : Nat := 44
def v6Ah : Nat := 51
def v6Dstopt : Nat := 60

/-- `N68K_V6_MAX_EXT`. -/
def v6MaxExt : Nat := 8

/-- The length of an extension header; `none` for one that is not walked. -/
def extLength (next : Nat) (lengthByte : UByte) : Option Nat :=
  if next = v6Hopopt ∨ next = v6Dstopt ∨ next = v6Routing then some ((lengthByte.toNat + 1) * 8)
  else if next = v6Fragment then some 8
  else if next = v6Ah then some ((lengthByte.toNat + 2) * 4)
  else none

/-- What an extension header must not say: segments left, a real fragment, a home address. -/
def extPlain (ip : Mem) (next at' hlen : Nat) : Bool :=
  if next = v6Routing then ip (at' + 3) = 0
  else if next = v6Fragment then rd16 ip (at' + 2) &&& 0xFFF9#32 = 0
  else if next = v6Dstopt then n68kRxv6DstoptPlain (fun j ↦ ip (at' + 2 + j)) (hlen - 2)
  else true

/-- The walk over the chain of extension headers, of which `room` more are allowed: the upper-layer
protocol and its offset. -/
def chainLoop (ip : Mem) (end' next at' : Nat) (room : Nat) : Option (Nat × Nat) :=
  if next = protocolTcp ∨ next = protocolUdp ∨ next = protocolIcmpv6 then some (next, at')
  else
    match room with
    | 0 => none
    | room + 1 =>
        if at' + 8 > end' then none
        else
          match extLength next (ip (at' + 1)) with
          | none => none
          | some hlen =>
              if hlen < 8 ∨ at' + hlen > end' then none
              else if !extPlain ip next at' hlen then none
              else chainLoop ip end' (ip at').toNat (at' + hlen) room

/-- Where the transport of an IPv6 frame starts, and the upper-layer length and protocol. -/
structure V6Shape where
  protocol : Nat
  offset : Nat
  payload : Nat
  deriving DecidableEq, Repr

/-- `n68k_rxv6_shape`. -/
def n68kRxv6Shape (ip : Mem) (length : Nat) : Option V6Shape :=
  if length < 40 then none
  else
    let plen := (rd16 ip 4).toNat
    if plen = 0 ∨ plen + 40 > length then none
    else
      let end' := 40 + plen
      match chainLoop ip end' (ip 6).toNat 40 v6MaxExt with
      | none => none
      | some (next, at') =>
          if at' + (if next = protocolTcp then 20 else 8) > end' then none
          else if next = protocolUdp ∧ (rd16 ip (at' + 4)).toNat ≠ end' - at' then none
          else if next = protocolUdp ∧ rd16 ip (at' + 6) = 0 then none
          else some ⟨next, at', end' - at'⟩

/-- `n68k_rxv6_bit`. -/
def n68kRxv6Bit (protocol : Nat) : Capability :=
  if protocol = protocolTcp then .tcpRxChecksum
  else if protocol = protocolUdp then .udpRxChecksum
  else .icmpv6RxChecksum

/-- `n68k_rxv6_verify`. -/
def n68kRxv6Verify (packet : RxPacket) : RxVerdict :=
  let ip := packet.mem
  match n68kRxv6Shape ip packet.length with
  | none => ⟨[], false⟩
  | some shape =>
      let src := [rd32 ip 8, rd32 ip 12, rd32 ip 16, rd32 ip 20]
      let dst := [rd32 ip 24, rd32 ip 28, rd32 ip 32, rd32 ip 36]
      if !n68kRxSumOk packet ipVersionV6 shape.offset shape.protocol shape.payload src dst then
        ⟨[], true⟩
      else ⟨[n68kRxv6Bit shape.protocol], false⟩

/-! ### The walking verifier -/

/-- The bit of a checked IPv4 transport. -/
def transportBit (protocol : Nat) : Capability :=
  if protocol = protocolTcp then .tcpRxChecksum
  else if protocol = protocolUdp then .udpRxChecksum
  else if protocol = protocolIcmp then .icmpv4RxChecksum
  else .igmpRxChecksum

/-- The transport of an IPv4 frame whose header is right and which is no fragment. -/
def verifyTransport (packet : RxPacket) (ihl payload : Nat) : RxVerdict :=
  let ip := packet.mem
  let flags := [Capability.ipv4RxChecksum]
  let protocol := (ip 9).toNat
  if ¬(protocol = protocolTcp ∨ protocol = protocolUdp ∨ protocol = protocolIcmp ∨
      protocol = protocolIgmp) then ⟨flags, false⟩
  else if protocol = protocolUdp ∧ (payload < 8 ∨ (rd16 ip (ihl + 4)).toNat ≠ payload) then
    ⟨flags, false⟩
  else if protocol = protocolUdp ∧ payload ≥ 8 ∧ rd16 ip (ihl + 6) = 0 then ⟨flags, false⟩
  else
    let noPseudo := protocol = protocolIcmp ∨ protocol = protocolIgmp
    let src := if noPseudo then [] else [rd32 ip 12]
    let dst := if noPseudo then [] else [rd32 ip 16]
    if !n68kRxSumOk packet packet.ipVersion ihl protocol payload src dst then ⟨[], true⟩
    else ⟨flags ++ [transportBit protocol], false⟩

/-- `n68k_rx_verify`. -/
def n68kRxVerify (packet : RxPacket) : RxVerdict :=
  let ip := packet.mem
  if packet.length < 20 then ⟨[], false⟩
  else if ip 0 >>> 4 = 6#8 then n68kRxv6Verify packet
  else if ip 0 >>> 4 ≠ 4#8 then ⟨[], false⟩
  else
    let ihl := (ip 0 &&& 0x0f#8).toNat * 4
    if ihl < 20 ∨ ihl > packet.length then ⟨[], false⟩
    else if !n68kRxSumOk packet packet.ipVersion 0 ipVersionV4 ihl [] [] then ⟨[], true⟩
    else
      let total := (rd16 ip 2).toNat
      if total < ihl ∨ total > packet.length then ⟨[.ipv4RxChecksum], false⟩
      else if rd16 ip 6 &&& 0x3FFF#32 ≠ 0 then ⟨[.ipv4RxChecksum], false⟩
      else verifyTransport packet ihl (total - ihl)

/-! ### The verifier on a carried sum -/

/-- The IPv6 branch of `n68k_rx_verify_sum`. -/
def verifySum6 (packet : RxPacket) (carried : ULong) (copied : Nat) : RxVerdict :=
  let ip := packet.mem
  match n68kRxv6Shape ip packet.length with
  | none => ⟨[], false⟩
  | some shape =>
      if copied ≠ shape.offset + shape.payload ∨ (shape.offset - 40) % 4 ≠ 0 then
        n68kRxv6Verify packet
      else
        let sum := n68kRxvSumBe ip 0 2
        -- the extension headers come out with the first two longwords
        let head :=
          if shape.offset > 40 then eac sum (n68kRxvSumBe ip 40 ((shape.offset - 40) / 4)) else sum
        let sum := eac (~~~head) carried
        let sum := n68kRxvFold sum + BitVec.ofNat 32 shape.protocol + BitVec.ofNat 32 shape.payload
        if n68kRxvFold sum ≠ 0xFFFF#32 then ⟨[], true⟩
        else ⟨[n68kRxv6Bit shape.protocol], false⟩

/-- The sum of an IPv4 header, written out where it has no options. -/
def headSum (ip : Mem) (ihl : Nat) : ULong :=
  if ihl = 20 then
    eac (eac (eac (eac (rd32 ip 0) (rd32 ip 4)) (rd32 ip 8)) (rd32 ip 12)) (rd32 ip 16)
  else n68kSumLongwords ip 0 (ihl / 4)

/-- `n68k_rx_verify_sum`. -/
def n68kRxVerifySum (packet : RxPacket) (carried : ULong) (copied : Nat) : RxVerdict :=
  let ip := packet.mem
  if packet.length < 20 then ⟨[], false⟩
  else if ip 0 >>> 4 = 6#8 then verifySum6 packet carried copied
  else if ip 0 >>> 4 ≠ 4#8 then ⟨[], false⟩
  else if !n68kRxvEven packet.prepend then n68kRxVerify packet
  else
    let ihl := (ip 0 &&& 0x0f#8).toNat * 4
    let total := (rd16 ip 2).toNat
    if ihl < 20 ∨ total < ihl ∨ total > packet.length ∨ copied ≠ total then n68kRxVerify packet
    else
      let protocol := (ip 9).toNat
      let payload := total - ihl
      if (protocol ≠ protocolTcp ∧ protocol ≠ protocolUdp) ∨ rd16 ip 6 &&& 0x3FFF#32 ≠ 0 then
        n68kRxVerify packet
      else if protocol = protocolUdp ∧ (payload < 8 ∨ (rd16 ip (ihl + 4)).toNat ≠ payload) then
        n68kRxVerify packet
      else if protocol = protocolUdp ∧ payload ≥ 8 ∧ rd16 ip (ihl + 6) = 0 then
        n68kRxVerify packet
      else if n68kRxvFold (headSum ip ihl) ≠ 0xFFFF#32 then ⟨[], true⟩
      else
        let sum := eac (eac carried (rd32 ip 12)) (rd32 ip 16)
        -- no carry comes around here
        let sum := sum + BitVec.ofNat 32 protocol + BitVec.ofNat 32 payload
        if n68kRxvFold sum ≠ 0xFFFF#32 then ⟨[], true⟩
        else ⟨[.ipv4RxChecksum,
          if protocol = protocolTcp then .tcpRxChecksum else .udpRxChecksum], false⟩

end AmiNetXDuo.Net68k
