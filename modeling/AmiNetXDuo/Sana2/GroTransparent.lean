import Mathlib.Data.List.Chain
import AmiNetXDuo.Sana2.Gro

/-!
# Receive coalescing is transparent

What the IP layer gets from a ring, with every coalesced run expanded into its frames, is what it
would have got without the coalescer, in the same order.

A packet that reaches the IP layer stands for the frames it was made of: it is the delivery of one
frame, or a run.  The frames of a run are plain TCP segments of one flow, each of which continues
the one before it, and the packet is the first frame with the payload of all of them behind its
headers.

## Main definitions

* `Frame.Plain` : a TCP segment without options, fragments or unusual flags, with a payload.
* `Frame.Checked` : its checksums are known to be right.
* `IsRun`, `StandsFor` : what a packet stands for.

## Main results

* `amiSana2RxRun_transparent` : the IP layer gets the delivered frames in order.
-/

namespace AmiNetXDuo.Sana2

open Net68k

/-! ### Frames -/

namespace Frame

variable (f : Frame)

def mem : Mem := f.packet.mem

def length : Nat := f.packet.length

/-- The frame is IPv4, by its Ethernet type. -/
def IsV4 : Prop := rd16 f.mem 12 = 0x0800

instance : Decidable f.IsV4 := inferInstanceAs (Decidable (_ = _))

/-- Where the TCP header of a plain segment starts. -/
def tcpAt : Nat := if f.IsV4 then 34 else 54

/-- The source and destination address, as longwords. -/
def addresses : List ULong :=
  if f.IsV4 then [rd32 f.mem 26, rd32 f.mem 30]
  else (List.range 8).map fun i ↦ rd32 f.mem (22 + i * 4)

/-- The source and the destination port. -/
def ports : ULong := rd32 f.mem f.tcpAt

def seq : ULong := rd32 f.mem (f.tcpAt + 4)

def ack : ULong := rd32 f.mem (f.tcpAt + 8)

def window : ULong := rd16 f.mem (f.tcpAt + 14)

def payload : List UByte := bytesAt f.mem (f.tcpAt + 20) (f.length - (f.tcpAt + 20))

/-- What the IP layer gets of the frame alone. -/
def delivered : Option IpPacket := amiSana2RxDeliver f.packet f.sum

/-- A TCP segment with nothing unusual about it: fixed headers that say its true length, not a
fragment, ACK or ACK and PSH, and some data. -/
structure Plain : Prop where
  ip : (f.IsV4 ∧ f.mem 14 = 0x45 ∧ f.mem 23 = 6 ∧ f.mem 20 &&& 0x3f = 0 ∧ f.mem 21 = 0 ∧
      (rd16 f.mem 16).toNat + 14 = f.length) ∨
    (rd16 f.mem 12 = 0x86dd ∧ f.mem 14 >>> 4 = 6#8 ∧ f.mem 20 = 6 ∧
      (rd16 f.mem 18).toNat + 54 = f.length)
  dataOffset : f.mem (f.tcpAt + 12) >>> 4 = 5#8
  tcpFlags : f.mem (f.tcpAt + 13) = 0x10 ∨ f.mem (f.tcpAt + 13) = 0x18
  payload_pos : f.tcpAt + 20 < f.length

/-- The device has vouched for the checksums, or the verifier has found them right. -/
def Checked : Prop :=
  f.sum.verified = true ∨
    ((verifyPacket f.packet f.sum).drop = false ∧
      .tcpRxChecksum ∈ (verifyPacket f.packet f.sum).flags ∧
      (f.IsV4 → .ipv4RxChecksum ∈ (verifyPacket f.packet f.sum).flags))

end Frame

/-- The next segment of the same flow. -/
structure Continues (f g : Frame) : Prop where
  addresses : g.addresses = f.addresses
  ports : g.ports = f.ports
  ack : g.ack = f.ack
  window : g.window = f.window
  seq : g.seq = f.seq + BitVec.ofNat 32 f.payload.length

/-- The payloads of frames, one after the other. -/
def payloads (fs : List Frame) : List UByte := (fs.map Frame.payload).flatten

/-- The IP length field of a packet: the total length of IPv4, the payload length of IPv6. -/
def IpPacket.lengthField (d : IpPacket) : Nat :=
  let m : Mem := fun i ↦ d.head.getD i 0
  if d.type = .ipv4 then (rd16 m 2).toNat else (rd16 m 4).toNat

/-- The packet `d` is the run of the frame `f` and the frames `fs`. -/
structure IsRun (d : IpPacket) (f : Frame) (fs : List Frame) : Prop where
  plain : ∀ g ∈ f :: fs, g.Plain ∧ g.Checked
  continues : List.IsChain Continues (f :: fs)
  /-- The payload is that of the frames. -/
  payload : d.head.drop (f.tcpAt + 6) ++ d.chain.flatten = payloads (f :: fs)
  length : d.length = f.tcpAt + 6 + (payloads (f :: fs)).length
  /-- The headers are those of the first frame, but for the length. -/
  header : ∀ i < f.tcpAt + 6, (if f.IsV4 then i ≠ 2 ∧ i ≠ 3 else i ≠ 4 ∧ i ≠ 5) →
    d.head.getD i 0 = f.mem (14 + i)
  lengthField : (∀ g ∈ f :: fs, g.length ≤ 1514) →
    d.lengthField = (if f.IsV4 then 40 else 20) + (payloads (f :: fs)).length
  flags : ∃ d', f.delivered = some d' ∧ d.type = d'.type ∧ d.flags = d'.flags

/-- A packet that reaches the IP layer stands for one frame or for a run. -/
inductive StandsFor : IpPacket → List Frame → Prop
  | single {d : IpPacket} {f : Frame} (h : f.delivered = some d) : StandsFor d [f]
  | run {d : IpPacket} {f g : Frame} {fs : List Frame} (h : IsRun d f (g :: fs)) :
      StandsFor d (f :: g :: fs)

/-! ### Keys -/

/-- What the key of a frame says. -/
structure KeyOf (f : Frame) (key : GroKey) : Prop where
  plain : f.Plain
  addr : key.addr = f.addresses
  ports : key.ports = f.ports
  seq : key.seq = f.seq
  ack : key.ack = f.ack
  win : key.win = f.window
  data : bytesAt f.packet.mem key.skip key.data = f.payload
  version : key.version = 4 ↔ f.IsV4

theorem tcpKey_eq_some {m : Mem} {tcp tlen version : Nat} {addr : List ULong} {key : GroKey}
    (h : tcpKey m tcp tlen version addr = some key) (htlen : tlen < 65536) :
    m (tcp + 12) >>> 4 = 5#8 ∧ (m (tcp + 13) = 0x10 ∨ m (tcp + 13) = 0x18) ∧ 20 < tlen ∧
      key = ⟨addr, rd32 m tcp, rd32 m (tcp + 4), rd32 m (tcp + 8), rd16 m (tcp + 14), tlen - 20,
        tcp + 20, version⟩ := by
  unfold tcpKey at h
  split_ifs at h with htcp
  simp only at h
  split_ifs at h with hdata
  simp only [not_or, not_not, not_and] at htcp
  refine ⟨htcp.1, ?_, by omega, ?_⟩
  · by_cases hack : m (tcp + 13) = 0x10
    · exact .inl hack
    · exact .inr (htcp.2 hack)
  · rw [← Option.some.inj h, Nat.mod_eq_of_lt (by omega)]

theorem rd16_of_bytes {m : Mem} {i : Nat} {a b : UByte} (ha : m i = a) (hb : m (i + 1) = b) :
    rd16 m i = a.setWidth 32 <<< 8 ||| b.setWidth 32 := by
  rw [rd16, ha, hb]

/-- **The key of a frame.**  Only plain segments have one. -/
theorem keyOf_of_amiSana2GroKey {f : Frame} {key : GroKey}
    (h : amiSana2GroKey f.packet = some key) : KeyOf f key := by
  unfold amiSana2GroKey at h
  have h16 := toNat_rd16_lt f.packet.mem
  dsimp only at h
  split_ifs at h with hshort hv4 hip hlen hv6 hip hlen
  all_goals simp only [ethHeaderSize, Nat.reduceAdd] at *
  · have htype : f.IsV4 := (rd16_of_bytes hv4.1 hv4.2).trans (by decide)
    have htcp : f.tcpAt = 34 := if_pos htype
    simp only [not_or, not_not] at hip hlen
    obtain ⟨hoffset, hflags, hdata, rfl⟩ := tcpKey_eq_some h (by have := h16 16; omega)
    have hlength : (rd16 f.mem 16).toNat + 14 = f.length := by
      unfold Frame.mem Frame.length
      omega
    exact
      { plain :=
          { ip := .inl ⟨htype, hip.1, hip.2.1, hip.2.2.1, hip.2.2.2, hlength⟩
            dataOffset := by rwa [htcp]
            tcpFlags := by rwa [htcp]
            payload_pos := by
              unfold Frame.mem at hlength
              omega }
        addr := (if_pos htype).symm
        ports := by rw [Frame.ports, htcp]; rfl
        seq := by rw [Frame.seq, htcp]; rfl
        ack := by rw [Frame.ack, htcp]; rfl
        win := by rw [Frame.window, htcp]; rfl
        data := by
          rw [Frame.payload, htcp, ← hlength]
          congr 1
        version := ⟨fun _ ↦ htype, fun _ ↦ rfl⟩ }
  · have htype : rd16 f.mem 12 = 0x86dd := (rd16_of_bytes hv6.1 hv6.2).trans (by decide)
    have hnot : ¬f.IsV4 := by
      rw [Frame.IsV4, htype]
      decide
    have htcp : f.tcpAt = 54 := if_neg hnot
    simp only [not_or, not_not] at hip hlen
    obtain ⟨hoffset, hflags, hdata, rfl⟩ := tcpKey_eq_some h (h16 18)
    have hlength : (rd16 f.mem 18).toNat + 54 = f.length := by
      unfold Frame.mem Frame.length
      omega
    exact
      { plain :=
          { ip := .inr ⟨htype, hip.2.1, hip.2.2, hlength⟩
            dataOffset := by rwa [htcp]
            tcpFlags := by rwa [htcp]
            payload_pos := by
              unfold Frame.mem at hlength
              omega }
        addr := (if_neg hnot).symm
        ports := by rw [Frame.ports, htcp]; rfl
        seq := by rw [Frame.seq, htcp]; rfl
        ack := by rw [Frame.ack, htcp]; rfl
        win := by rw [Frame.window, htcp]; rfl
        data := by
          rw [Frame.payload, htcp, ← hlength]
          congr 1
        version := ⟨fun h ↦ absurd h (show ¬6 = 4 by decide), fun h ↦ absurd h hnot⟩ }

/-! ### Verdicts -/

/-- The bits that a verifier publishes on an IPv4 packet: with the TCP bit they are these two. -/
theorem flags_verifyTransport {packet : RxPacket} {ihl payload : Nat}
    (h : .tcpRxChecksum ∈ (verifyTransport packet ihl payload).flags) :
    (verifyTransport packet ihl payload).flags = [.ipv4RxChecksum, .tcpRxChecksum] := by
  revert h
  unfold verifyTransport
  dsimp only
  split_ifs <;> intro h
  all_goals
    simp only [List.mem_append, List.mem_cons, List.not_mem_nil, reduceCtorEq, or_false,
      false_or] at h
  all_goals
    rw [← h]
    rfl

theorem flags_n68kRxVerify_v4 {packet : RxPacket} (hv4 : packet.mem 0 >>> 4 = 4#8)
    (h : .tcpRxChecksum ∈ (n68kRxVerify packet).flags) :
    (n68kRxVerify packet).flags = [.ipv4RxChecksum, .tcpRxChecksum] := by
  have hnot6 : ¬packet.mem 0 >>> 4 = 6#8 := by
    rw [hv4]
    decide
  revert h
  unfold n68kRxVerify
  dsimp only
  rw [if_neg hnot6]
  split_ifs
  all_goals first | exact flags_verifyTransport | simp

theorem flags_n68kRxv6Verify {packet : RxPacket}
    (h : .tcpRxChecksum ∈ (n68kRxv6Verify packet).flags) :
    (n68kRxv6Verify packet).flags = [.tcpRxChecksum] := by
  revert h
  unfold n68kRxv6Verify
  dsimp only
  split
  · simp
  · split_ifs
    · simp
    · intro h
      rw [List.mem_singleton.mp h]

/-- A verdict that has the given bits when it has the TCP bit. -/
def BitsOnTcp (bits : List Capability) (r : RxVerdict) : Prop :=
  .tcpRxChecksum ∈ r.flags → r.flags = bits

theorem BitsOnTcp.none (bits : List Capability) (drop : Bool) : BitsOnTcp bits ⟨[], drop⟩ := nofun

theorem flags_n68kRxVerifySum_v4 {packet : RxPacket} (hv4 : packet.mem 0 >>> 4 = 4#8)
    (carried : ULong) (copied : Nat) :
    BitsOnTcp [.ipv4RxChecksum, .tcpRxChecksum] (n68kRxVerifySum packet carried copied) := by
  have hnot6 : ¬packet.mem 0 >>> 4 = 6#8 := by
    rw [hv4]
    decide
  have hverify : BitsOnTcp [.ipv4RxChecksum, .tcpRxChecksum] (n68kRxVerify packet) :=
    flags_n68kRxVerify_v4 hv4
  unfold n68kRxVerifySum
  dsimp only
  rw [if_neg hnot6]
  -- every branch but the last answers nothing or asks the verifier that sums the packet
  generalize n68kRxVerify packet = verdict at hverify
  repeat' apply iteInduction (motive := BitsOnTcp _) <;> intro _
  all_goals first
    | exact hverify
    | exact BitsOnTcp.none _ _
    | simp [BitsOnTcp]

/-- The bits that apply, whichever verifier looked at an IPv4 packet. -/
theorem flags_verifyPacket_v4 {p : NxPacket} {s : RxSum} (hv4 : p.mem 14 >>> 4 = 4#8)
    (h : .tcpRxChecksum ∈ (verifyPacket p s).flags) :
    (verifyPacket p s).flags = [.ipv4RxChecksum, .tcpRxChecksum] := by
  have hv4 : p.ipView.mem 0 >>> 4 = 4#8 := hv4
  revert h
  unfold verifyPacket
  split_ifs
  · exact flags_n68kRxVerifySum_v4 hv4 _ _
  · exact flags_n68kRxVerify_v4 hv4

theorem flags_verifyPacket_v6 {p : NxPacket} {s : RxSum} (hv6 : p.mem 14 >>> 4 = 6#8)
    (h : .tcpRxChecksum ∈ (verifyPacket p s).flags) :
    (verifyPacket p s).flags = [.tcpRxChecksum] := by
  have hv6 : p.ipView.mem 0 >>> 4 = 6#8 := hv6
  revert h
  unfold verifyPacket
  split_ifs
  · unfold n68kRxVerifySum
    dsimp only
    rw [if_pos hv6]
    split_ifs
    · simp
    · unfold verifySum6
      dsimp only
      split
      · simp
      · split_ifs
        all_goals first
          | exact flags_n68kRxv6Verify
          | simp [eq_comm]
  · unfold n68kRxVerify
    dsimp only
    rw [if_pos hv6]
    split_ifs
    · simp
    · exact flags_n68kRxv6Verify

/-! ### Delivery of plain segments -/

/-- The type of a plain segment. -/
def Frame.type (f : Frame) : EtherType := if f.IsV4 then .ipv4 else .ipv6

/-- The bits of a plain segment whose checksums are right. -/
def Frame.tcpCapabilities (f : Frame) : List Capability :=
  if f.IsV4 then [.ipv4RxChecksum, .tcpRxChecksum] else [.tcpRxChecksum]

theorem Frame.tcpAt_pos (f : Frame) : 34 ≤ f.tcpAt := by
  unfold Frame.tcpAt
  split_ifs <;> omega

namespace Frame.Plain

variable {f : Frame} (h : f.Plain)

include h

theorem etherType_eq : etherType (rd16 f.mem 12) = some f.type := by
  rcases h.ip with ⟨hv4, -⟩ | ⟨hv6, -⟩
  · have hv4' : rd16 f.mem 12 = 0x0800 := hv4
    rw [Frame.type, if_pos hv4, hv4']
    decide
  · have hnot : ¬f.IsV4 := by
      rw [Frame.IsV4, hv6]
      decide
    rw [Frame.type, if_neg hnot, hv6]
    decide

/-- A plain segment with a verdict goes up as it is. -/
theorem deliver_verified {p : NxPacket} {sum : RxSum} (hmem : ∀ i < 14, p.mem i = f.mem i)
    (hproto : p.mem 20 = f.mem 20 ∧ p.mem 23 = f.mem 23) (hlength : 14 ≤ p.length)
    (hsum : sum.verified = true) :
    amiSana2RxDeliver p sum = some (dispatched p f.type f.tcpCapabilities) := by
  have htype : rd16 p.mem 12 = rd16 f.mem 12 := by
    rw [rd16, rd16, hmem 12 (by omega), hmem 13 (by omega)]
  have hshort : ¬p.length < ethHeaderSize := by
    unfold ethHeaderSize
    omega
  rw [amiSana2RxDeliver, if_neg hshort, htype, h.etherType_eq]
  rcases h.ip with ⟨hv4, -, hprotocol, -⟩ | ⟨hv6, -, hnext, -⟩
  · have hflags : verifiedFlags p .ipv4 = [.ipv4RxChecksum, .tcpRxChecksum] := by
      rw [verifiedFlags, show p.mem (ethHeaderSize + 9) = 6 from hproto.2.trans hprotocol]
      rfl
    simp only [Frame.type, Frame.tcpCapabilities, if_pos hv4, hsum, if_true, hflags]
  · have hnot : ¬f.IsV4 := by
      rw [Frame.IsV4, hv6]
      decide
    have hflags : verifiedFlags p .ipv6 = [.tcpRxChecksum] := by
      simp only [verifiedFlags, show p.mem (ethHeaderSize + 6) = 6 from hproto.1.trans hnext]
      rfl
    simp only [Frame.type, Frame.tcpCapabilities, if_neg hnot, hsum, if_true, hflags]

/-- What the IP layer gets of a plain segment with right checksums, when it goes up alone. -/
theorem delivered_eq (hchecked : f.Checked) :
    f.delivered = some (dispatched f.packet f.type f.tcpCapabilities) := by
  have hpos := f.tcpAt_pos
  have hlength : 14 ≤ f.packet.length := by
    have := h.payload_pos
    unfold Frame.length at this
    omega
  by_cases hverified : f.sum.verified = true
  · exact h.deliver_verified (fun _ _ ↦ rfl) ⟨rfl, rfl⟩ hlength hverified
  · obtain ⟨hdrop, htcp, -⟩ := hchecked.resolve_left hverified
    have hshort : ¬f.packet.length < ethHeaderSize := by
      unfold ethHeaderSize
      omega
    rw [Frame.delivered, amiSana2RxDeliver, if_neg hshort,
      show etherType (rd16 f.packet.mem 12) = some f.type from h.etherType_eq]
    rcases h.ip with ⟨hv4, hbyte, -⟩ | ⟨hv6, hbyte, -⟩
    · have hflags := flags_verifyPacket_v4 (p := f.packet) (s := f.sum) (by
        rw [show f.packet.mem 14 = 0x45 from hbyte]
        decide) htcp
      simp only [Frame.type, Frame.tcpCapabilities, if_pos hv4, hverified, hdrop, hflags,
        Bool.false_eq_true, if_false]
    · have hnot : ¬f.IsV4 := by
        rw [Frame.IsV4, hv6]
        decide
      have hflags := flags_verifyPacket_v6 (p := f.packet) (s := f.sum) hbyte htcp
      simp only [Frame.type, Frame.tcpCapabilities, if_neg hnot, hverified, hdrop, hflags,
        Bool.false_eq_true, if_false]

end Frame.Plain

/-- The coalescer takes only frames whose checksums are right, and marks them so. -/
theorem checked_of_amiSana2GroVerify {f : Frame} {version : Nat} {sum : RxSum}
    (hversion : version = 4 ↔ f.IsV4)
    (h : amiSana2GroVerify f.packet f.sum version = some sum) :
    sum.verified = true ∧ f.Checked := by
  unfold amiSana2GroVerify at h
  dsimp only at h
  split_ifs at h with hverified hfour hverdict hverdict
  · rw [← Option.some.inj h]
    exact ⟨hverified, .inl hverified⟩
  all_goals
    simp only [Bool.or_eq_true, not_or, Bool.not_eq_true, Bool.not_eq_false', List.all_cons,
      List.all_nil, Bool.and_eq_true, List.contains_iff_mem, and_true] at hverdict
    rw [← Option.some.inj h]
  · exact ⟨rfl, .inr ⟨hverdict.1, hverdict.2.1, fun _ ↦ hverdict.2.2⟩⟩
  · exact ⟨rfl, .inr ⟨hverdict.1, hverdict.2, fun hv4 ↦ absurd (hversion.mpr hv4) hfour⟩⟩

/-! ### The held run -/

@[simp] theorem payloads_nil : payloads [] = [] := rfl

theorem payloads_cons (f : Frame) (fs : List Frame) :
    payloads (f :: fs) = f.payload ++ payloads fs := rfl

theorem payloads_concat (fs : List Frame) (g : Frame) :
    payloads (fs ++ [g]) = payloads fs ++ g.payload := by
  simp [payloads]

/-- What a ring holds is the frame `f` with the payloads of the frames `fs` behind it. -/
structure RunOf (run : HeldRun) (f : Frame) (fs : List Frame) : Prop where
  head : run.head =
    { f.packet with chain := fs.map Frame.payload, length := f.length + (payloads fs).length }
  verified : run.sum.verified = true
  count : run.count = fs.length + 1
  plain : ∀ g ∈ f :: fs, g.Plain ∧ g.Checked
  continues : List.IsChain Continues (f :: fs)
  addr : run.addr = (fs.getLastD f).addresses
  ports : run.ports = (fs.getLastD f).ports
  ack : run.ack = (fs.getLastD f).ack
  win : run.win = (fs.getLastD f).window
  next : run.next = (fs.getLastD f).seq + BitVec.ofNat 32 (fs.getLastD f).payload.length

theorem KeyOf.length_payload {f : Frame} {key : GroKey} (h : KeyOf f key) :
    f.payload.length = key.data := by
  rw [← h.data, length_bytesAt]

theorem RunOf.start {f : Frame} {key : GroKey} {sum : RxSum} (hkey : KeyOf f key)
    (hverified : sum.verified = true) (hchecked : f.Checked) :
    RunOf (.start f sum key) f [] where
  head := by
    rw [HeldRun.start, List.map_nil, ← f.chain_eq]
    rfl
  verified := hverified
  count := rfl
  plain g hg := by
    rw [List.mem_singleton.mp hg]
    exact ⟨hkey.plain, hchecked⟩
  continues := List.isChain_singleton f
  addr := hkey.addr
  ports := hkey.ports
  ack := hkey.ack
  win := hkey.win
  next := by
    show key.seq + BitVec.ofNat 32 key.data = f.seq + BitVec.ofNat 32 f.payload.length
    rw [hkey.length_payload, hkey.seq]

/-- A frame that continues the run is the next segment after its last. -/
theorem RunOf.continues_last {run : HeldRun} {f g : Frame} {fs : List Frame} {key : GroKey}
    (h : RunOf run f fs) (hkey : KeyOf g key) (hcont : run.continues key = true) :
    Continues (fs.getLastD f) g := by
  simp only [HeldRun.continues, Bool.and_eq_true, decide_eq_true_eq] at hcont
  obtain ⟨⟨⟨⟨⟨-, hports⟩, hnext⟩, hack⟩, hwin⟩, haddr⟩ := hcont
  exact
    { addresses := by rw [← hkey.addr, ← haddr, h.addr]
      ports := by rw [← hkey.ports, ← hports, h.ports]
      ack := by rw [← hkey.ack, ← hack, h.ack]
      window := by rw [← hkey.win, ← hwin, h.win]
      seq := by rw [← hkey.seq, ← hnext, h.next] }

theorem RunOf.append {run : HeldRun} {f g : Frame} {fs : List Frame} {key : GroKey}
    (h : RunOf run f fs) (hkey : KeyOf g key) (hchecked : g.Checked)
    (hcont : run.continues key = true) : RunOf (run.append g key) f (fs ++ [g]) := by
  have hlast : (fs ++ [g]).getLastD f = g := List.getLastD_concat
  have hnext := h.continues_last hkey hcont
  constructor
  case head =>
    rw [HeldRun.append, h.head, hkey.data, payloads_concat, List.length_append,
      hkey.length_payload, List.map_append, ← Nat.add_assoc]
    rfl
  case verified => exact h.verified
  case count => rw [HeldRun.append, h.count, List.length_append, List.length_singleton]
  case plain =>
    intro x hx
    rw [← List.cons_append, List.mem_append, List.mem_singleton] at hx
    rcases hx with hx | rfl
    · exact h.plain x hx
    · exact ⟨hkey.plain, hchecked⟩
  case continues =>
    rw [← List.cons_append, List.isChain_append]
    refine ⟨h.continues, List.isChain_singleton g, ?_⟩
    intro x hx y hy
    rw [List.getLast?_cons, Option.mem_some_iff, ← List.getLastD_eq_getLast?] at hx
    rw [List.head?_singleton, Option.mem_some_iff] at hy
    rw [← hx, ← hy]
    exact hnext
  case addr => rw [hlast, hnext.addresses, ← h.addr]; rfl
  case ports => rw [hlast, hnext.ports, ← h.ports]; rfl
  case ack => rw [hlast, hnext.ack, ← h.ack]; rfl
  case win => rw [hlast, hnext.window, ← h.win]; rfl
  case next => rw [hlast, hkey.length_payload, ← hkey.seq]; rfl

/-! ### Flushing -/

/-- Where the length field of a frame is, and what it does not count. -/
def Frame.lengthAt (f : Frame) : Nat := if f.IsV4 then 16 else 18

def Frame.uncounted (f : Frame) : Nat := if f.IsV4 then 14 else 54

theorem Frame.Plain.rewriteLength_eq {f : Frame} (h : f.Plain) {p : NxPacket}
    (hmem : p.mem = f.mem) :
    rewriteLength p = { p with mem := setWord f.mem f.lengthAt (p.length - f.uncounted) } := by
  rcases h.ip with ⟨hv4, hbyte, -⟩ | ⟨hv6, hbyte, -⟩
  · have hnot6 : ¬p.mem ethHeaderSize >>> 4 = 6#8 := by
      rw [hmem, show f.mem ethHeaderSize = 0x45 from hbyte]
      decide
    rw [rewriteLength, if_neg hnot6, Frame.lengthAt, if_pos hv4, Frame.uncounted, if_pos hv4, hmem]
    rfl
  · have hnot : ¬f.IsV4 := by
      rw [Frame.IsV4, hv6]
      decide
    rw [rewriteLength, if_pos (by rw [hmem]; exact hbyte), Frame.lengthAt, if_neg hnot,
      Frame.uncounted, if_neg hnot, hmem, Nat.sub_sub]
    rfl

/-- Sixteen frames of at most 1514 bytes fit in a length field. -/
theorem length_payloads_le {fs : List Frame} (hplain : ∀ g ∈ fs, g.Plain)
    (hlength : ∀ g ∈ fs, g.length ≤ 1514) : (payloads fs).length ≤ fs.length * 1460 := by
  induction fs with
  | nil => simp
  | cons g fs ih =>
      have hg := (hplain g List.mem_cons_self).payload_pos
      have hle := hlength g List.mem_cons_self
      have hpos := g.tcpAt_pos
      have hpayload : g.payload.length = g.length - (g.tcpAt + 20) := length_bytesAt _ _ _
      have := ih (fun x hx ↦ hplain x (List.mem_cons_of_mem g hx))
        (fun x hx ↦ hlength x (List.mem_cons_of_mem g hx))
      rw [payloads_cons, List.length_append, List.length_cons, hpayload]
      omega

/-- The packet that a run of several frames goes up as. -/
def RunOf.packet (f : Frame) (fs : List Frame) : NxPacket :=
  { f.packet with
    mem := setWord f.mem f.lengthAt (f.length + (payloads fs).length - f.uncounted)
    chain := fs.map Frame.payload
    length := f.length + (payloads fs).length }

theorem RunOf.rewriteLength_head {run : HeldRun} {f : Frame} {fs : List Frame}
    (h : RunOf run f fs) : rewriteLength run.head = RunOf.packet f fs := by
  have hplain := (h.plain f List.mem_cons_self).1
  rw [hplain.rewriteLength_eq (p := run.head) (by rw [h.head]; rfl), h.head]
  rfl

/-- The head of a run has the bytes of its first frame outside the length field. -/
theorem RunOf.mem_packet {f : Frame} {fs : List Frame} {i : Nat} (h : i ≠ f.lengthAt)
    (h' : i ≠ f.lengthAt + 1) : (RunOf.packet f fs).mem i = f.mem i :=
  setWord_of_ne h h'

theorem Frame.lengthAt_bounds (f : Frame) :
    14 ≤ f.lengthAt ∧ f.lengthAt + 1 < 20 ∧ f.uncounted ≤ f.tcpAt + 20 := by
  unfold Frame.lengthAt Frame.uncounted Frame.tcpAt
  split_ifs <;> omega

theorem Frame.Plain.length_eq {f : Frame} (h : f.Plain) :
    f.length = f.tcpAt + 20 + f.payload.length := by
  have := h.payload_pos
  rw [Frame.payload, length_bytesAt]
  omega

/-- The length field of a packet is where that of its frame is. -/
theorem Frame.lengthField_dispatched (f : Frame) {p : NxPacket} {flags : List Capability}
    (h : 6 ≤ p.own - ethHeaderSize) :
    (dispatched p f.type flags).lengthField = (rd16 p.mem f.lengthAt).toNat := by
  have hword : ∀ i, i + 1 < 6 →
      rd16 (fun j ↦ (dispatched p f.type flags).head.getD j 0) i = rd16 p.mem (14 + i) := by
    intro i hi
    rw [rd16, rd16, dispatched, getD_bytesAt _ (by omega), getD_bytesAt _ (by omega)]
    rfl
  unfold IpPacket.lengthField Frame.lengthAt
  by_cases hv4 : f.IsV4
  · have htype : (dispatched p f.type flags).type = .ipv4 := if_pos hv4
    rw [if_pos htype, if_pos hv4, hword 2 (by omega)]
  · have htype : ¬(dispatched p f.type flags).type = .ipv4 := by
      show ¬f.type = .ipv4
      rw [Frame.type, if_neg hv4]
      decide
    rw [if_neg htype, if_neg hv4, hword 4 (by omega)]

/-- A run of several frames, as it is delivered. -/
theorem RunOf.isRun {run : HeldRun} {f : Frame} {fs : List Frame} (h : RunOf run f fs)
    (hcount : fs.length + 1 ≤ groMax) :
    IsRun (dispatched (RunOf.packet f fs) f.type f.tcpCapabilities) f fs := by
  have hplain := (h.plain f List.mem_cons_self).1
  have hchecked := (h.plain f List.mem_cons_self).2
  have hat := f.lengthAt_bounds
  have hpos := f.tcpAt_pos
  have hlen := hplain.length_eq
  have hown : (RunOf.packet f fs).own - ethHeaderSize = f.tcpAt + 6 + f.payload.length := by
    show f.packet.own - 14 = _
    rw [f.own_eq]
    unfold Frame.length at hlen
    omega
  constructor
  case plain => exact h.plain
  case continues => exact h.continues
  case payload =>
    rw [payloads_cons, dispatched, hown, drop_bytesAt]
    refine congrArg₂ _ ?_ rfl
    rw [show ethHeaderSize + (f.tcpAt + 6) = f.tcpAt + 20 by unfold ethHeaderSize; omega,
      show f.tcpAt + 6 + f.payload.length - (f.tcpAt + 6) = f.length - (f.tcpAt + 20) by omega]
    exact bytesAt_congr fun i hi ↦ RunOf.mem_packet (by omega) (by omega)
  case length =>
    show f.length + (payloads fs).length - 14 = _
    rw [payloads_cons, List.length_append]
    omega
  case header =>
    intro i hi hne
    rw [dispatched, hown, getD_bytesAt _ (by omega)]
    refine RunOf.mem_packet ?_ ?_ <;>
    · unfold Frame.lengthAt ethHeaderSize
      split_ifs at hne ⊢ <;> omega
  case lengthField =>
    intro hlength
    have hle := length_payloads_le (fun g hg ↦ (h.plain g hg).1) hlength
    have hfits : f.length + (payloads fs).length - f.uncounted < 65536 := by
      rw [payloads_cons, List.length_append, List.length_cons] at hle
      unfold groMax at hcount
      have := hlength f List.mem_cons_self
      omega
    rw [f.lengthField_dispatched (by omega), RunOf.packet, toNat_rd16_setWord hfits, payloads_cons,
      List.length_append, hlen]
    unfold Frame.tcpAt Frame.uncounted
    split_ifs <;> omega
  case flags => exact ⟨_, hplain.delivered_eq hchecked, rfl, rfl⟩

/-- **Flushing.**  A held run goes up as one packet that stands for its frames. -/
theorem RunOf.flush {run : HeldRun} {f : Frame} {fs : List Frame} (h : RunOf run f fs)
    (hcount : run.count ≤ groMax) :
    ∃ d, amiSana2GroFlush false (some run) = [d] ∧ StandsFor d (f :: fs) := by
  obtain ⟨hplain, hchecked⟩ := h.plain f List.mem_cons_self
  have hlen := hplain.length_eq
  have hpos := f.tcpAt_pos
  rw [h.count] at hcount
  cases fs with
  | nil =>
      have hhead : run.head = f.packet := by
        rw [h.head, List.map_nil, ← f.chain_eq]
        rfl
      refine ⟨dispatched f.packet f.type f.tcpCapabilities, ?_,
        .single (hplain.delivered_eq hchecked)⟩
      have hone : ¬run.count > 1 := by
        rw [h.count]
        decide
      simp only [amiSana2GroFlush, if_neg hone, hhead, Bool.false_eq_true, if_false]
      rw [hplain.deliver_verified (fun _ _ ↦ rfl) ⟨rfl, rfl⟩
        (by unfold Frame.length at hlen; omega) h.verified]
      rfl
  | cons g gs =>
      refine ⟨dispatched (RunOf.packet f (g :: gs)) f.type f.tcpCapabilities, ?_,
        .run (h.isRun hcount)⟩
      have hmany : run.count > 1 := by
        rw [h.count, List.length_cons]
        omega
      have hat := f.lengthAt_bounds
      simp only [amiSana2GroFlush, if_pos hmany, h.rewriteLength_head, Bool.false_eq_true,
        if_false]
      rw [hplain.deliver_verified (fun i hi ↦ RunOf.mem_packet (by omega) (by omega))
        ⟨RunOf.mem_packet (by omega) (by omega), RunOf.mem_packet (by omega) (by omega)⟩
        (by show 14 ≤ f.length + _; omega) h.verified]
      rfl

/-! ### Runs of a ring -/

/-- What a ring holds, if anything, is a run of the frames `fs` that is not full. -/
inductive Holds : Option HeldRun → List Frame → Prop
  | empty : Holds none []
  | run {run : HeldRun} {f : Frame} {fs : List Frame} (h : RunOf run f fs)
      (hcount : run.count < groMax) : Holds (some run) (f :: fs)

theorem Holds.flush {held : Option HeldRun} {fs : List Frame} (h : Holds held fs) :
    ∃ runs, List.Forall₂ StandsFor (amiSana2GroFlush false held) runs ∧ runs.flatten = fs := by
  cases h with
  | empty => exact ⟨[], .nil, rfl⟩
  | @run run f fs h hcount =>
      obtain ⟨d, hflush, hd⟩ := h.flush hcount.le
      rw [hflush]
      exact ⟨[f :: fs], .cons hd .nil, by simp⟩

/-- The frames of a list that reach the IP layer. -/
def deliveredFrames (fs : List Frame) : List Frame := fs.filter (·.delivered.isSome)

theorem KeyOf.delivered_isSome {f : Frame} {key : GroKey} (h : KeyOf f key)
    (hchecked : f.Checked) : f.delivered.isSome = true := by
  rw [h.plain.delivered_eq hchecked]
  rfl

/-- A frame that is not coalesced is delivered alone, if at all. -/
theorem standsFor_amiSana2RxDeliver (f : Frame) :
    ∃ runs, List.Forall₂ StandsFor (amiSana2RxDeliver f.packet f.sum).toList runs ∧
      runs.flatten = deliveredFrames [f] := by
  rcases hd : amiSana2RxDeliver f.packet f.sum with _ | d
  · refine ⟨[], .nil, ?_⟩
    simp [deliveredFrames, Frame.delivered, hd]
  · refine ⟨[[f]], .cons (.single hd) .nil, ?_⟩
    simp [deliveredFrames, Frame.delivered, hd]

/-- What a step has delivered and what it holds are what it held and what it was given. -/
structure StepOf (fs new : List Frame) (held : Option HeldRun) (out : List IpPacket) : Prop where
  step : ∃ runs rest, List.Forall₂ StandsFor out runs ∧ Holds held rest ∧
    runs.flatten ++ rest = fs ++ deliveredFrames new

theorem Holds.stepOf_flush {held : Option HeldRun} {fs : List Frame} (h : Holds held fs) :
    StepOf fs [] none (amiSana2GroFlush false held) := by
  obtain ⟨runs, hruns, rfl⟩ := h.flush
  exact ⟨runs, [], hruns, .empty, by simp [deliveredFrames]⟩

/-- What is held goes up, and then the frame alone. -/
theorem Holds.stepOf_alone {held : Option HeldRun} {fs : List Frame} (h : Holds held fs)
    (f : Frame) :
    StepOf fs [f] none
      (amiSana2GroFlush false held ++ (amiSana2RxDeliver f.packet f.sum).toList) := by
  obtain ⟨runs, hruns, rfl⟩ := h.flush
  obtain ⟨runs', hruns', hf⟩ := standsFor_amiSana2RxDeliver f
  exact ⟨runs ++ runs', [], List.rel_append hruns hruns', .empty, by simp [hf]⟩

theorem GroConfig.limit_le (cfg : GroConfig) (ports : ULong) : cfg.limit ports ≤ groMax := by
  unfold GroConfig.limit
  split_ifs
  · exact cfg.groFrames_le
  · exact le_rfl

/-- A frame that continues the run goes behind it; a full run goes up. -/
theorem RunOf.stepOf_append {run : HeldRun} {f g : Frame} {fs : List Frame} {key : GroKey}
    (h : RunOf run f fs) (cfg : GroConfig) (hcount : run.count < groMax) (hkey : KeyOf g key)
    (hchecked : g.Checked) (hcont : run.continues key = true) :
    (¬(run.append g key).count ≥ cfg.limit (run.append g key).ports →
      StepOf (f :: fs) [g] (some (run.append g key)) []) ∧
    StepOf (f :: fs) [g] none (amiSana2GroFlush false (some (run.append g key))) := by
  have happend := h.append hkey hchecked hcont
  have hg : deliveredFrames [g] = [g] := by
    simp [deliveredFrames, hkey.delivered_isSome hchecked]
  constructor
  · intro hfull
    have hlt := lt_of_lt_of_le (not_le.mp hfull) (cfg.limit_le _)
    exact ⟨[], f :: (fs ++ [g]), .nil, .run happend hlt, by rw [hg]; rfl⟩
  · obtain ⟨d, hflush, hd⟩ := happend.flush hcount
    rw [hflush]
    exact ⟨[f :: (fs ++ [g])], [], .cons hd .nil, .empty, by simp [hg]⟩

/-- **One frame.** -/
theorem Holds.amiSana2RxHandUp {held : Option HeldRun} {fs : List Frame} (h : Holds held fs)
    (cfg : GroConfig) (g : Frame) :
    StepOf fs [g] (amiSana2RxHandUp false cfg held g).1 (amiSana2RxHandUp false cfg held g).2 := by
  unfold Sana2.amiSana2RxHandUp amiSana2GroTake
  rcases hgk : amiSana2GroKey g.packet with _ | key
  · exact h.stepOf_alone g
  have hkey := keyOf_of_amiSana2GroKey hgk
  dsimp only
  rcases hgv : amiSana2GroVerify g.packet g.sum key.version with _ | sum
  · exact h.stepOf_alone g
  obtain ⟨hverified, hchecked⟩ := checked_of_amiSana2GroVerify hkey.version hgv
  dsimp only
  cases hfilter : held.filter (·.continues key) with
  | none =>
      -- what is held goes up, and the frame starts a run of its own
      obtain ⟨runs, hruns, rfl⟩ := h.flush
      refine ⟨runs, [g], hruns, .run (.start hkey hverified hchecked) ?_, ?_⟩
      · show 1 < 16
        decide
      · simp [deliveredFrames, hkey.delivered_isSome hchecked]
  | some run =>
      obtain ⟨rfl, hcont⟩ := Option.filter_eq_some_iff.mp hfilter
      cases h with
      | run h hcount =>
          obtain ⟨hopen, hfull⟩ := h.stepOf_append cfg hcount hkey hchecked hcont
          dsimp only
          split_ifs with hlimit
          · exact hfull
          · exact hopen hlimit

/-- The frame of an event. -/
def RingEvent.frames (iface : RxIface) : RingEvent → List Frame
  | .flush => []
  | .complete _ slot => (amiSana2RxSettle iface slot).toList

/-- **One event.** -/
theorem Holds.amiSana2RxStep {held : Option HeldRun} {fs : List Frame} (h : Holds held fs)
    (iface : RxIface) (e : RingEvent) :
    StepOf fs (e.frames iface) (amiSana2RxStep iface held e).1
      (amiSana2RxStep iface held e).2 := by
  cases e with
  | flush => exact h.stepOf_flush
  | complete cfg slot =>
      unfold Sana2.amiSana2RxStep RingEvent.frames
      dsimp only
      rcases amiSana2RxSettle iface slot with _ | g
      · exact h.stepOf_flush
      · exact h.amiSana2RxHandUp cfg g

/-- The frames of a run of events, in the order of their arrival. -/
def ringFrames (iface : RxIface) (events : List RingEvent) : List Frame :=
  events.flatMap (·.frames iface)

/-- **Whole runs**, from any run that is held. -/
theorem Holds.amiSana2RxRun {held : Option HeldRun} {fs : List Frame} (h : Holds held fs)
    (iface : RxIface) (events : List RingEvent) :
    StepOf fs (ringFrames iface events) (amiSana2RxRun iface held events).1
      (amiSana2RxRun iface held events).2 := by
  induction events generalizing held fs with
  | nil => exact ⟨[], fs, .nil, h, by simp [ringFrames, deliveredFrames]⟩
  | cons e es ih =>
      obtain ⟨runs, rest, hruns, hheld, hsplit⟩ := h.amiSana2RxStep iface e
      obtain ⟨runs', rest', hruns', hheld', hsplit'⟩ := ih hheld
      refine ⟨runs ++ runs', rest', List.rel_append hruns hruns', hheld', ?_⟩
      calc (runs ++ runs').flatten ++ rest'
          = runs.flatten ++ (rest ++ deliveredFrames (ringFrames iface es)) := by
            rw [List.flatten_append, List.append_assoc, hsplit']
        _ = fs ++ deliveredFrames (ringFrames iface (e :: es)) := by
            rw [← List.append_assoc, hsplit, List.append_assoc]
            simp [deliveredFrames, ringFrames]

/-- **Receive coalescing is transparent.**  Whatever completes on a ring and wherever the drain
flushes, the packets that the IP layer has got, and the one that is still held, stand for the
delivered frames in the order of their arrival, each frame once. -/
theorem amiSana2RxRun_transparent (iface : RxIface) (events : List RingEvent) :
    ∃ runs held,
      List.Forall₂ StandsFor (Sana2.amiSana2RxRun iface none events).2 runs ∧
      List.Forall₂ StandsFor (amiSana2GroFlush false (Sana2.amiSana2RxRun iface none events).1)
        held ∧
      runs.flatten ++ held.flatten = deliveredFrames (ringFrames iface events) := by
  obtain ⟨runs, rest, hruns, hheld, hsplit⟩ := Holds.empty.amiSana2RxRun iface events
  obtain ⟨held, hflush, rfl⟩ := hheld.flush
  exact ⟨runs, held, hruns, hflush, hsplit⟩

end AmiNetXDuo.Sana2
