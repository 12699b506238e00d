import AmiNetXDuo.Sana2.CopyToBuff

/-!
# The receive path above the slots: settling, coalescing and delivery

A completed read is settled into an Ethernet frame and handed up.  The coalescer of `sana2_rx.c`
holds a run of TCP segments that continue each other as a chain behind the first one, and delivers
it as one datagram when something else arrives, when the run is full, or when the drain ends.

## Main definitions

* `NxPacket` : a packet with the buffers chained behind it.
* `amiSana2RxSettle` : from a completed read to a frame.
* `amiSana2RxDeliver` : delivery of one packet to the IP layer.
* `amiSana2GroFlush`, `amiSana2GroTake` : the coalescer.
* `amiSana2RxStep`, `amiSana2RxRun` : what a ring does with its events.
-/

namespace AmiNetXDuo.Sana2

open Net68k

/-- `AMI_ETH_HEADER_SIZE`. -/
def ethHeaderSize : Nat := 14

/-- `AMI_SANA2_GRO_MAX`. -/
def groMax : Nat := 16

/-- The `n` bytes of memory from offset `off` on. -/
def bytesAt (m : Mem) (off n : Nat) : List UByte := (List.range n).map fun i ↦ m (off + i)

@[simp] theorem length_bytesAt (m : Mem) (off n : Nat) : (bytesAt m off n).length = n := by
  simp [bytesAt]

theorem drop_bytesAt (m : Mem) (off n k : Nat) :
    (bytesAt m off n).drop k = bytesAt m (off + k) (n - k) := by
  apply List.ext_getElem
  · simp
  · intro i h₁ h₂
    simp [bytesAt, Nat.add_assoc]

theorem getD_bytesAt (m : Mem) {off n i : Nat} (h : i < n) :
    (bytesAt m off n).getD i 0 = m (off + i) := by
  simp [bytesAt, h]

theorem bytesAt_congr {m m' : Mem} {off n : Nat} (h : ∀ i, off ≤ i → m i = m' i) :
    bytesAt m off n = bytesAt m' off n :=
  List.map_congr_left fun i _ ↦ h (off + i) (Nat.le_add_right _ _)

/-- Memory with one byte written. -/
def setByte (m : Mem) (i : Nat) (v : UByte) : Mem := fun j ↦ if j = i then v else m j

/-- A big-endian word, written as two bytes. -/
def setWord (m : Mem) (i n : Nat) : Mem :=
  setByte (setByte m i (BitVec.ofNat 8 (n / 256))) (i + 1) (BitVec.ofNat 8 n)

theorem setWord_of_ne {m : Mem} {i n j : Nat} (h : j ≠ i) (h' : j ≠ i + 1) :
    setWord m i n j = m j := by
  rw [setWord, setByte, if_neg h', setByte, if_neg h]

/-- The word reads back when it fits. -/
theorem toNat_rd16_setWord {m : Mem} {i n : Nat} (h : n < 65536) :
    (rd16 (setWord m i n) i).toNat = n := by
  rw [toNat_rd16, setWord]
  simp only [setByte, Nat.left_eq_add, one_ne_zero, if_true, if_false, BitVec.toNat_ofNat]
  omega

/-- `AmiRxSum`: what the copy of a frame has summed, and whether the device vouches for its
checksums (`ANXD_S2_RXF_VERIFIED`). -/
structure RxSum where
  sum : ULong
  copied : Nat
  summed : Bool
  verified : Bool

/-- A packet: the memory behind its prepend pointer, the bytes in its own buffer, the buffers
chained behind it, and `nx_packet_length`, which counts them all. -/
structure NxPacket where
  prepend : Nat
  mem : Mem
  own : Nat
  chain : List (List UByte)
  length : Nat
  nonnull : 0 < prepend

/-! ### Settling -/

/-- A completed read: the slot, with its packet, and the request. -/
structure RxCompletion where
  prepend : Nat
  nonnull : 0 < prepend
  /-- The packet from its prepend pointer on, as the copy hook has left it. -/
  mem : Mem
  capacity : Nat
  copied : Nat
  sum : ULong
  summed : Bool
  verified : Bool
  /-- The device has written the link header. -/
  hdrWritten : Bool
  dataLength : Nat
  bcast : Bool
  dstAddr : Mem
  srcAddr : Mem
  packetType : ULong

/-- What settling uses of an `AmiSana2If`. -/
structure RxIface where
  rawMode : Bool
  addrBytes : Nat

/-- A frame that goes up: its packet, which is one buffer, and its sum. -/
structure Frame where
  packet : NxPacket
  sum : RxSum
  own_eq : packet.own = packet.length
  chain_eq : packet.chain = []

/-- `ami_sana2_rx_resolve_length`: the length, and whether the sum still describes the packet. -/
def amiSana2RxResolveLength (slot : RxCompletion) : Option (Nat × Bool) :=
  if slot.copied = 0 then none
  else
    let length := if slot.dataLength = 0 then slot.copied else slot.dataLength
    if length > slot.capacity ∨ length > slot.copied then none
    else some (length, length = slot.copied)

/-- The link header that is synthesised in front of a cooked frame. -/
def linkHeader (iface : RxIface) (slot : RxCompletion) : Mem := fun i ↦
  if i < 6 then
    if iface.addrBytes ≠ 6 then 0 else if slot.bcast then 0xff else slot.dstAddr i
  else if i < 12 then
    if iface.addrBytes ≠ 6 then 0 else slot.srcAddr (i - 6)
  else if i = 12 then (slot.packetType >>> 8).setWidth 8
  else slot.packetType.setWidth 8

/-- `ami_sana2_rx_frame_length`. -/
def amiSana2RxFrameLength (iface : RxIface) (payload : Nat) : Nat :=
  if iface.rawMode then payload else payload + ethHeaderSize

/-- `ami_sana2_rx_settle`. -/
def amiSana2RxSettle (iface : RxIface) (slot : RxCompletion) : Option Frame :=
  match amiSana2RxResolveLength slot with
  | none => none
  | some (length, whole) =>
      let mem : Mem :=
        if !iface.rawMode && !slot.hdrWritten then
          putBytes slot.mem (linkHeader iface slot) 0 ethHeaderSize
        else slot.mem
      let length := amiSana2RxFrameLength iface length
      some
        { packet := ⟨slot.prepend, mem, length, [], length, slot.nonnull⟩
          sum := ⟨slot.sum, slot.copied, whole && slot.summed, whole && slot.verified⟩
          own_eq := rfl
          chain_eq := rfl }

/-! ### Delivery -/

/-- The Ethernet types that the demultiplexer knows. -/
inductive EtherType
  | ipv4 | ipv6 | arp | rarp
  deriving DecidableEq, Repr

/-- The demultiplexer's reading of the type field. -/
def etherType (type : ULong) : Option EtherType :=
  if type = 0x0800 then some .ipv4
  else if type = 0x86dd then some .ipv6
  else if type = 0x0806 then some .arp
  else if type = 0x8035 then some .rarp
  else none

/-- What the IP layer gets: the packet without its link header, and the capability bits. -/
structure IpPacket where
  type : EtherType
  head : List UByte
  chain : List (List UByte)
  length : Nat
  flags : List Capability
  deriving DecidableEq, Repr

/-- A packet as the verifiers see it: without its link header. -/
def NxPacket.ipView (p : NxPacket) : RxPacket where
  prepend := p.prepend + ethHeaderSize
  mem i := p.mem (ethHeaderSize + i)
  length := p.length - ethHeaderSize
  ipVersion := 0
  nonnull := Nat.add_pos_left p.nonnull _
  fresh := zero_ne_ipVersionV6

/-- The verifier that applies: on the carried sum when there is one. -/
def verifyPacket (p : NxPacket) (sum : RxSum) : RxVerdict :=
  if sum.summed then n68kRxVerifySum p.ipView sum.sum sum.copied else n68kRxVerify p.ipView

/-- The bits of a packet whose checksums the device or the coalescer has checked. -/
def verifiedFlags (p : NxPacket) : EtherType → List Capability
  | .ipv4 => [.ipv4RxChecksum,
      if p.mem (ethHeaderSize + 9) = 6 then .tcpRxChecksum else .udpRxChecksum]
  | _ => [if p.mem (ethHeaderSize + 6) = 6 then .tcpRxChecksum else .udpRxChecksum]

/-- The packet that is dispatched, less its link header. -/
def dispatched (p : NxPacket) (type : EtherType) (flags : List Capability) : IpPacket where
  type := type
  head := bytesAt p.mem ethHeaderSize (p.own - ethHeaderSize)
  chain := p.chain
  length := p.length - ethHeaderSize
  flags := flags

/-- `ami_sana2_rx_deliver`; `none` when the packet is released. -/
def amiSana2RxDeliver (p : NxPacket) (sum : RxSum) : Option IpPacket :=
  if p.length < ethHeaderSize then none
  else
    match etherType (rd16 p.mem 12) with
    | none => none
    | some .arp => some (dispatched p .arp [])
    | some .rarp => some (dispatched p .rarp [])
    | some type =>
        if sum.verified then some (dispatched p type (verifiedFlags p type))
        else
          let verdict := verifyPacket p sum
          if verdict.drop then none else some (dispatched p type verdict.flags)

/-! ### Coalescing -/

/-- `AmiSana2GroKey`. -/
structure GroKey where
  addr : List ULong
  ports : ULong
  seq : ULong
  ack : ULong
  win : ULong
  data : Nat
  skip : Nat
  version : Nat

/-- The part of `ami_sana2_gro_key` behind the IP header: `tcp` is the offset of the TCP header and
`tlen` the length from there on. -/
def tcpKey (m : Mem) (tcp tlen version : Nat) (addr : List ULong) : Option GroKey :=
  if m (tcp + 12) >>> 4 ≠ 5#8 ∨ (m (tcp + 13) ≠ 0x10 ∧ m (tcp + 13) ≠ 0x18) then none
  else
    let data := (tlen - 20) % 65536
    if data = 0 then none
    else some
      { addr := addr, ports := rd32 m tcp, seq := rd32 m (tcp + 4), ack := rd32 m (tcp + 8),
        win := rd16 m (tcp + 14), data := data, skip := tcp + 20, version := version }

/-- `ami_sana2_gro_key`. -/
def amiSana2GroKey (p : NxPacket) : Option GroKey :=
  let m := p.mem
  let frame := p.length
  let ip := ethHeaderSize
  if frame < ip + 40 then none
  else if m 12 = 0x08 ∧ m 13 = 0x00 then
    if m ip ≠ 0x45 ∨ m (ip + 9) ≠ 6 ∨ m (ip + 6) &&& 0x3f ≠ 0 ∨ m (ip + 7) ≠ 0 then none
    else
      let total := (rd16 m (ip + 2)).toNat
      if total < 40 ∨ total ≠ frame - ip then none
      else tcpKey m (ip + 20) (total - 20) 4 [rd32 m (ip + 12), rd32 m (ip + 16)]
  else if m 12 = 0x86 ∧ m 13 = 0xdd then
    if frame < ip + 60 ∨ m ip >>> 4 ≠ 6#8 ∨ m (ip + 6) ≠ 6 then none
    else
      let tlen := (rd16 m (ip + 4)).toNat
      if tlen < 20 ∨ tlen + 40 ≠ frame - ip then none
      else tcpKey m (ip + 40) tlen 6 ((List.range 8).map fun i ↦ rd32 m (ip + 8 + i * 4))
  else none

/-- `ami_sana2_gro_verify`: the sum with the verdict in it, or `none`. -/
def amiSana2GroVerify (p : NxPacket) (sum : RxSum) (version : Nat) : Option RxSum :=
  if sum.verified then some sum
  else
    let verdict := verifyPacket p sum
    let need := .tcpRxChecksum :: if version = 4 then [Capability.ipv4RxChecksum] else []
    if verdict.drop || !need.all (fun c ↦ verdict.flags.contains c) then none
    else some { sum with verified := true }

/-- The held run of a ring: `gro_head` with its chain, and the `gro_` fields. -/
structure HeldRun where
  head : NxPacket
  sum : RxSum
  count : Nat
  addr : List ULong
  ports : ULong
  next : ULong
  ack : ULong
  win : ULong

/-- The settings of the interface that bound a run, and the connection that ACKPACE paces. -/
structure GroConfig where
  ackTpkb : Nat
  ackGroPorts : ULong
  groFrames : Nat
  /-- GROFRAMES is 1 to 16. -/
  groFrames_pos : 0 < groFrames
  groFrames_le : groFrames ≤ groMax

/-- How many frames a run may have. -/
def GroConfig.limit (cfg : GroConfig) (ports : ULong) : Nat :=
  if cfg.ackTpkb = 0 ∨ ports = cfg.ackGroPorts then cfg.groFrames else groMax

/-- The length field of the head of a run, rewritten to what the chain holds. -/
def rewriteLength (p : NxPacket) : NxPacket :=
  let total := p.length - ethHeaderSize
  if p.mem ethHeaderSize >>> 4 = 6#8 then
    let total := total - 40
    { p with mem := setByte (setByte p.mem (ethHeaderSize + 4) (BitVec.ofNat 8 (total / 256)))
              (ethHeaderSize + 5) (BitVec.ofNat 8 total) }
  else
    { p with mem := setByte (setByte p.mem (ethHeaderSize + 2) (BitVec.ofNat 8 (total / 256)))
              (ethHeaderSize + 3) (BitVec.ofNat 8 total) }

/-- `ami_sana2_gro_flush`: what it delivers; nothing is held afterwards. -/
def amiSana2GroFlush (stop : Bool) : Option HeldRun → List IpPacket
  | none => []
  | some run =>
      let head := if run.count > 1 then rewriteLength run.head else run.head
      if stop then [] else (amiSana2RxDeliver head run.sum).toList

/-- The run held from its first frame on. -/
def HeldRun.start (frame : Frame) (sum : RxSum) (key : GroKey) : HeldRun where
  head := frame.packet
  sum := sum
  count := 1
  addr := key.addr
  ports := key.ports
  next := key.seq + BitVec.ofNat 32 key.data
  ack := key.ack
  win := key.win

/-- A frame chained behind the run: its payload only. -/
def HeldRun.append (run : HeldRun) (frame : Frame) (key : GroKey) : HeldRun :=
  { run with
    head := { run.head with
      chain := run.head.chain ++ [bytesAt frame.packet.mem key.skip key.data]
      length := run.head.length + key.data }
    next := key.seq + BitVec.ofNat 32 key.data
    count := run.count + 1 }

/-- Whether the frame continues the run. -/
def HeldRun.continues (run : HeldRun) (key : GroKey) : Bool :=
  run.addr.length = key.addr.length && run.ports = key.ports && run.next = key.seq &&
    run.ack = key.ack && run.win = key.win && run.addr = key.addr

/-- `ami_sana2_gro_take`: whether it took the frame, the run it holds then, and what it has
delivered. -/
def amiSana2GroTake (stop : Bool) (cfg : GroConfig) (held : Option HeldRun) (frame : Frame) :
    Bool × Option HeldRun × List IpPacket :=
  match amiSana2GroKey frame.packet with
  | none => (false, none, amiSana2GroFlush stop held)
  | some key =>
      match amiSana2GroVerify frame.packet frame.sum key.version with
      | none => (false, none, amiSana2GroFlush stop held)
      | some sum =>
          match held.filter (·.continues key) with
          | some run =>
              let run := run.append frame key
              if run.count ≥ cfg.limit run.ports then (true, none, amiSana2GroFlush stop (some run))
              else (true, some run, [])
          | none => (true, some (.start frame sum key), amiSana2GroFlush stop held)

/-- `ami_sana2_rx_hand_up`, the tap apart. -/
def amiSana2RxHandUp (stop : Bool) (cfg : GroConfig) (held : Option HeldRun) (frame : Frame) :
    Option HeldRun × List IpPacket :=
  match amiSana2GroTake stop cfg held frame with
  | (true, held, out) => (held, out)
  | (false, held, out) => (held, out ++ (amiSana2RxDeliver frame.packet frame.sum).toList)

/-! ### Runs of a ring -/

/-- What reaches a ring: a completed read, or a flush without one (a failed read, the end of the
drain). -/
inductive RingEvent
  | complete (cfg : GroConfig) (slot : RxCompletion)
  | flush

/-- One event, while the interface is not stopping.  A read that cannot be settled flushes. -/
def amiSana2RxStep (iface : RxIface) (held : Option HeldRun) :
    RingEvent → Option HeldRun × List IpPacket
  | .flush => (none, amiSana2GroFlush false held)
  | .complete cfg slot =>
      match amiSana2RxSettle iface slot with
      | none => (none, amiSana2GroFlush false held)
      | some frame => amiSana2RxHandUp false cfg held frame

/-- The events of a ring one after the other: the run held at the end, and what the IP layer got. -/
def amiSana2RxRun (iface : RxIface) (held : Option HeldRun) :
    List RingEvent → Option HeldRun × List IpPacket
  | [] => (held, [])
  | e :: es =>
      let (held, out) := amiSana2RxStep iface held e
      let (held, rest) := amiSana2RxRun iface held es
      (held, out ++ rest)

end AmiNetXDuo.Sana2
