import AmiNetXDuo.Lib.Interleaving
import AmiNetXDuo.Lib.WrapCounter
import AmiNetXDuo.Netdev.GenetRuns
import Mathlib.Data.List.GetD

/-!
# The transmit ring of the GENET

`genet_tx` posts one frame: the frame and the word of the checksum block go into the slot that the
producer index names, the descriptor is written and the index moves. `genet_tx_run` posts a batch of
frames that the opener fills in place. It asks the chip what is finished before the first frame
where the batch does not fit, and it works the checksum word out anew only for a frame whose headers
have another shape than those of the frame before.

Both are compared with one fold of `TxRing.post` over the frames. The index that the chip has
written stands while they run.

## Main definitions

* `netdevTxCsum4`, `genetTxCsumShape`, `genetTxCsumSame` : the checksum word of a frame, and when
  that of another frame is taken.
* `genetTx`, `genetTxEach` : frames that are posted one at a time.
* `genetTxRun` : a batch.
* `TxCounted` : the counts behind the counters of the ring.

## Main results

* `netdevTxCsum4_eq_verdict` : the shape of a TCP frame determines its checksum word.
* `txRunLoop_eq`, `genetTxEach_eq` : what either way of posting leaves in the ring.
* `genetTxRun_eq_each` : a batch is posted as its frames are one at a time.
* `inOrder_of_reachable` : the counters are in order in every run.
-/

namespace AmiNetXDuo.Netdev

open Interleaving Lib.WrapCounter

/-! ### The source -/

/-- `GE_TX_RING`. -/
def geTxRing : ℕ := 64

/-- `GE_TX_KICK_MAX`. -/
def geTxKickMax : ℕ := 8

/-- `GE_TX_PAD`. -/
def geTxPad : ℕ := 2

/-- `NETDEV_FRAME_MIN`. -/
def netdevFrameMin : ℕ := 60

/-- `GENET_TX_STATUS64_LEN`. -/
def genetTxStatus64Len : ℕ := 64

/-- `ANXD_S2_TXF_TCP` and `ANXD_S2_TXF_UDP`. -/
inductive TxFlag
  | tcp
  | udp
  deriving DecidableEq, Repr

/-- The bit of a flag. -/
def TxFlag.bit : TxFlag → UInt8
  | .tcp => 0x01
  | .udp => 0x02

/-- A byte of a buffer. -/
def byteOf (buf : List UInt8) (i : ℕ) : UInt8 := buf.getD i 0

/-- `nd_be16()`. -/
def ndBe16 (buf : List UInt8) (i : ℕ) : ℕ := (byteOf buf i).toNat * 256 + (byteOf buf (i + 1)).toNat

/-- The length of the IP header of a frame. -/
def ipHdrLen (frame : List UInt8) : ℕ := (byteOf frame 14 &&& 0x0F).toNat * 4

/-- The end of `netdev_tx_csum4()`: the checksum lies within the datagram. -/
def txCsumAt (flag : TxFlag) (offset total : ℕ) : Option (TxFlag × ℕ) :=
  if 14 + total < offset + 2 then none else some (flag, offset)

/-- `netdev_tx_csum4()`: the flag, with the place of the checksum. -/
def netdevTxCsum4 (frame : List UInt8) (len : ℕ) (supported : UInt8) : Option (TxFlag × ℕ) :=
  if len < 14 + 20 ∨ byteOf frame 12 ≠ 0x08 ∨ byteOf frame 13 ≠ 0x00 then none
  else
    let plen := len - 14
    let total := ndBe16 frame 16
    if byteOf frame 14 = 0x45 ∧ byteOf frame 23 = 6 then
      if total < 40 ∨ plen < total ∨ ndBe16 frame 20 &&& 0x3FFF ≠ 0 ∨
          supported &&& TxFlag.tcp.bit = 0 ∨ byteOf frame 46 < 0x50 then none
      else some (.tcp, 50)
    else if byteOf frame 14 &&& 0xF0 ≠ 0x40 then none
    else
      let ihl := ipHdrLen frame
      if ihl < 20 ∨ plen < ihl then none
      else if total < ihl ∨ plen < total then none
      else if byteOf frame 20 &&& 0x3F ≠ 0 ∨ byteOf frame 21 ≠ 0 then none
      else
        let tlen := total - ihl
        if byteOf frame 23 = 6 then
          if supported &&& TxFlag.tcp.bit = 0 ∨ tlen < 20 ∨
              byteOf frame (14 + ihl + 12) >>> 4 < 5 then none
          else txCsumAt .tcp (14 + ihl + 16) total
        else if byteOf frame 23 = 17 then
          if supported &&& TxFlag.udp.bit = 0 ∨ tlen < 8 ∨
              ndBe16 frame (14 + ihl + 4) ≠ tlen then none
          else txCsumAt .udp (14 + ihl + 6) total
        else none

/-- `genet_tx_csum_info()`. -/
def genetTxCsumInfo (ihl : UInt8) (offset : ℕ) (flag : TxFlag) : UInt32 :=
  let start : UInt32 := (14 : UInt32) + ((ihl &&& 0x0F).toUInt32 <<< 2)
  let info := start <<< 16 ||| UInt32.ofNat offset
  if flag = .udp then info ||| 0x8000 else info

/-- `genet_tx_desc_status()`. -/
def genetTxDescStatus (len : ℕ) : UInt32 :=
  let sop : UInt32 := 0x2000
  let eop : UInt32 := 0x4000
  let crc : UInt32 := 0x40
  let qtag : UInt32 := 0x1F80
  sop ||| eop ||| crc ||| qtag |||
    ((UInt32.ofNat (len + genetTxStatus64Len) &&& 0x0FFF) <<< 16)

/-- The shape of the headers of a frame, `GENET_TX_SHAPE_LEN` bytes. -/
structure TxShape where
  type₀ : UInt8
  type₁ : UInt8
  /-- Version and header length. -/
  ihl : UInt8
  /-- Flags and fragment. -/
  frag₀ : UInt8
  frag₁ : UInt8
  protocol : UInt8
  /-- The TCP data offset. -/
  thl : UInt8
  deriving DecidableEq, Repr

/-- `genet_tx_thl_at()`. -/
def genetTxThlAt (frame : List UInt8) : ℕ := 14 + ipHdrLen frame + 12

/-- `genet_tx_csum_shape()`. -/
def genetTxCsumShape (frame : List UInt8) : TxShape :=
  ⟨byteOf frame 12, byteOf frame 13, byteOf frame 14, byteOf frame 20, byteOf frame 21,
    byteOf frame 23, byteOf frame (genetTxThlAt frame)⟩

/-- `genet_tx_csum_same()`. -/
def genetTxCsumSame (frame : List UInt8) (shape : TxShape) : Bool :=
  shape.protocol = 6 && genetTxCsumShape frame = shape

/-- `genet_tx_run_reclaims()`. -/
def genetTxRunReclaims (inuse ring count : UInt16) : Bool := ring - inuse < count

/-- A transmit descriptor. The address is an offset into `tx_buf`. -/
structure TxDesc where
  status : UInt32
  addressLo : ℕ
  addressHi : ℕ
  deriving DecidableEq, Repr

/-- What is written for the chip, by slot. -/
structure TxRing where
  /-- The buffers, from `GE_TX_HEAD` on. A frame is shorter than its buffer. -/
  buf : ℕ → List UInt8
  /-- The two words of the status block at `GENET_TX_STATUS64_CSUM_INFO`. -/
  csumInfo : ℕ → UInt16 × UInt16
  desc : ℕ → TxDesc
  txPidx : UInt16

/-- The driver's side of the ring and the chip's registers. -/
structure GenetTx where
  ring : TxRing
  txCidx : UInt16
  txKicked : UInt16
  txbInuse : UInt16
  running : Bool
  txCsum : UInt8
  txMore : Bool
  txPackets : ℕ
  txCompleted : ℕ
  /-- `GENET_TX_DMA_PROD_INDEX`. -/
  prodIndex : UInt16
  /-- `GENET_TX_DMA_CONS_INDEX`. -/
  consIndex : UInt16

/-- `__builtin_bswap16`. -/
def bswap16 (w : UInt16) : UInt16 := w <<< 8 ||| w >>> 8

/-- The slot the producer index names. -/
def TxRing.slot (r : TxRing) : ℕ := (genetRingSlot r.txPidx 64).toNat

/-- Bytes written over the start of a buffer. -/
def overlaid (bytes buf : List UInt8) : List UInt8 := bytes ++ buf.drop bytes.length

/-- What both ways of posting write for a frame that is in its buffer: the checksum words, the
descriptor and the index. -/
def TxRing.write (r : TxRing) (bytes : List UInt8) (len : ℕ) (info : UInt32) : TxRing :=
  let idx := r.slot
  let word := if info = 0 then 0 else info ||| 0x80000000
  let status := genetTxDescStatus len ||| (if info = 0 then 0 else 0x10)
  { buf := Function.update r.buf idx bytes
    csumInfo := Function.update r.csumInfo idx
      (bswap16 (word &&& 0xFFFF).toUInt16, bswap16 (word >>> 16).toUInt16)
    desc := Function.update r.desc idx ⟨status, idx * geBufsz + geTxPad, 0⟩
    txPidx := r.txPidx + 1 }

/-- The checksum word of a frame, without `GENET_TX_CSUM_LEN_VALID`. -/
def txCsumWord (frame : List UInt8) (len : ℕ) (supported : UInt8) : UInt32 :=
  match netdevTxCsum4 frame len supported with
  | none => 0
  | some (flag, offset) => genetTxCsumInfo (byteOf frame 14) offset flag

/-- `ge_tx_kick()`. -/
def geTxKick (s : GenetTx) : GenetTx :=
  if s.ring.txPidx = s.txKicked then s
  else { s with prodIndex := s.ring.txPidx, txKicked := s.ring.txPidx }

/-- `ge_txintr()`. -/
def geTxintr (s : GenetTx) : GenetTx :=
  let waiting := s.ring.txPidx - s.txCidx
  let n := if s.consIndex - s.txCidx > waiting then waiting else s.consIndex - s.txCidx
  let s :=
    if n = 0 then s
    else { s with
      txPackets := s.txPackets + n.toNat
      txCompleted := s.txCompleted + n.toNat
      txCidx := s.consIndex }
  { s with txbInuse := s.ring.txPidx - s.txCidx }

/-- The ring as it was written, and the count in use. -/
def GenetTx.withRing (s : GenetTx) (ring : TxRing) : GenetTx :=
  { s with ring := ring, txbInuse := ring.txPidx - s.txCidx }

/-- What `genet_tx()` answers. -/
inductive TxAnswer
  | posted
  | offline
  | busy
  deriving DecidableEq, Repr

/-- The end of `genet_tx_body()`: a write of a run waits for company. -/
def GenetTx.kickDue (s : GenetTx) : GenetTx :=
  if !s.txMore ∨ geTxKickMax ≤ (s.ring.txPidx - s.txKicked).toNat then geTxKick s else s

/-- The part of `genet_tx_body()` behind the test for a full ring. -/
def genetTxPost (s : GenetTx) (frame : List UInt8) (len : ℕ) : GenetTx :=
  let len := max len netdevFrameMin
  let bytes := overlaid (frame.take len) (s.ring.buf s.ring.slot)
  let info := if s.txCsum = 0 then 0 else txCsumWord bytes len s.txCsum
  (s.withRing (s.ring.write bytes len info)).kickDue

/-- `genet_tx_body()`. -/
def genetTx (s : GenetTx) (frame : List UInt8) (len : ℕ) : GenetTx × TxAnswer :=
  if s.running then
    let s := if 64 ≤ s.txbInuse then geTxintr s else s
    if 64 ≤ s.txbInuse then (s, .busy) else (genetTxPost s frame len, .posted)
  else (s, .offline)

/-- What the opener's `fill` writes into a buffer, and the length it answers. -/
structure TxFrame where
  bytes : List UInt8
  len : ℕ

/-- Frames that are posted one at a time, until one is refused: the state, and how many were. -/
def genetTxEach (s : GenetTx) : List TxFrame → GenetTx × ℕ
  | [] => (s, 0)
  | f :: fs =>
    match genetTx s f.bytes f.len with
    | (s', .posted) => ((genetTxEach s' fs).1, (genetTxEach s' fs).2 + 1)
    | (s', _) => (s', 0)

/-- `info` and `shape` of `genet_tx_run()` for its next frame. -/
def txRunWord (csum : UInt8) (bytes : List UInt8) (len : ℕ) :
    Option (UInt32 × TxShape) → UInt32 × TxShape
  | none => (txCsumWord bytes len csum, genetTxCsumShape bytes)
  | some (info, shape) =>
    if genetTxCsumSame bytes shape then (info, shape)
    else (txCsumWord bytes len csum, genetTxCsumShape bytes)

/-- The loop of `genet_tx_run()`, with `n` frames to come: the ring, how many are posted, and
`*failed`. -/
def txRunLoop (fill : UInt16 → TxFrame) (first : UInt16) (csum : UInt8) :
    ℕ → ℕ → Option (UInt32 × TxShape) → TxRing → TxRing × ℕ × Bool
  | 0, done, _, r => (r, done, false)
  | n + 1, done, last, r =>
    let f := fill (first + UInt16.ofNat done)
    let bytes := overlaid f.bytes (r.buf r.slot)
    if f.len < netdevFrameMin then
      ({ r with buf := Function.update r.buf r.slot bytes }, done, true)
    else if csum = 0 then txRunLoop fill first csum n (done + 1) last (r.write bytes f.len 0)
    else
      let word := txRunWord csum bytes f.len last
      txRunLoop fill first csum n (done + 1) (some word) (r.write bytes f.len word.1)

/-- The reclaim at the start of `genet_tx_run()`. -/
def txRunReclaim (s : GenetTx) (count : UInt16) : GenetTx :=
  if genetTxRunReclaims s.txbInuse 64 count then
    let s := geTxintr s
    if 64 ≤ s.txbInuse then geTxintr (geTxKick s) else s
  else s

/-- `genet_tx_run()`: the state, how many frames were posted, and `*failed`. -/
def genetTxRun (s : GenetTx) (first count : UInt16) (fill : UInt16 → TxFrame) :
    GenetTx × ℕ × Bool :=
  if s.running then
    let s := txRunReclaim s count
    let room := 64 - s.txbInuse
    let count := if count > room then room else count
    let result := txRunLoop fill first s.txCsum count.toNat 0 none s.ring
    let s := s.withRing result.1
    (if result.2.1 ≠ 0 then geTxKick s else s, result.2.1, result.2.2)
  else (s, 0, true)

/-! ### The shape of a frame and its checksum word -/

section Shape

/-- The lengths of a frame of TCP over IPv4: it is as long as its datagram, and that covers the two
headers. -/
def TcpCovered (frame : List UInt8) (len : ℕ) : Prop :=
  byteOf frame 12 = 0x08 → byteOf frame 13 = 0x00 → byteOf frame 14 &&& 0xF0 = 0x40 →
    byteOf frame 23 = 6 →
      ipHdrLen frame + 20 ≤ ndBe16 frame 16 ∧ 14 + ndBe16 frame 16 ≤ len

/-- What `netdev_tx_csum4()` answers for the shape of a TCP frame. -/
def TxShape.verdict (shape : TxShape) (supported : UInt8) : Option (TxFlag × ℕ) :=
  let ihl := (shape.ihl &&& 0x0F).toNat * 4
  if shape.type₀ ≠ 0x08 ∨ shape.type₁ ≠ 0x00 ∨ shape.ihl &&& 0xF0 ≠ 0x40 ∨ ihl < 20 ∨
      shape.frag₀ &&& 0x3F ≠ 0 ∨ shape.frag₁ ≠ 0 ∨ supported &&& TxFlag.tcp.bit = 0 ∨
      shape.thl >>> 4 < 5 then none
  else some (.tcp, 14 + ihl + 16)

theorem shiftRight_lt_five : ∀ n < 256, UInt8.ofNat n >>> 4 < 5 ↔ UInt8.ofNat n < 0x50 := by
  decide +kernel

theorem toNat_and_0x3F : ∀ n < 256, (UInt8.ofNat n &&& 0x3F).toNat = n % 64 := by
  decide +kernel

/-- The fragment word, read as a word and as two bytes. -/
theorem fragment_eq_zero (frame : List UInt8) :
    ndBe16 frame 20 &&& 0x3FFF = 0 ↔ byteOf frame 20 &&& 0x3F = 0 ∧ byteOf frame 21 = 0 := by
  have hhigh := toNat_and_0x3F _ (byteOf frame 20).toNat_lt
  rw [UInt8.ofNat_toNat] at hhigh
  have hlow := (byteOf frame 21).toNat_lt
  rw [ndBe16, show (0x3FFF : ℕ) = 2 ^ 14 - 1 from rfl, Nat.and_two_pow_sub_one_eq_mod,
    ← UInt8.toNat_inj, ← UInt8.toNat_inj, hhigh]
  change ((byteOf frame 20).toNat * 256 + (byteOf frame 21).toNat) % 16384 = 0 ↔
    (byteOf frame 20).toNat % 64 = 0 ∧ (byteOf frame 21).toNat = 0
  omega

/-- A frame of TCP over IPv4 is long enough for its headers, and the branch for a header of five
words says what the general one does. -/
theorem netdevTxCsum4_tcp {frame : List UInt8} {len : ℕ} (hlen : netdevFrameMin ≤ len)
    (htype : byteOf frame 12 = 0x08 ∧ byteOf frame 13 = 0x00)
    (hversion : byteOf frame 14 &&& 0xF0 = 0x40) (hproto : byteOf frame 23 = 6)
    (htotal : ipHdrLen frame + 20 ≤ ndBe16 frame 16) (hfits : 14 + ndBe16 frame 16 ≤ len)
    (supported : UInt8) :
    netdevTxCsum4 frame len supported =
      if ipHdrLen frame < 20 ∨ byteOf frame 20 &&& 0x3F ≠ 0 ∨ byteOf frame 21 ≠ 0 ∨
        supported &&& TxFlag.tcp.bit = 0 ∨ byteOf frame (genetTxThlAt frame) >>> 4 < 5 then none
      else some (.tcp, 14 + ipHdrLen frame + 16) := by
  rw [netdevFrameMin] at hlen
  have hlong : ¬(len < 14 + 20 ∨ byteOf frame 12 ≠ 0x08 ∨ byteOf frame 13 ≠ 0x00) := by
    rw [not_or, not_or, not_not, not_not]
    exact ⟨by omega, htype⟩
  rw [netdevTxCsum4, if_neg hlong, genetTxThlAt]
  by_cases hfive : byteOf frame 14 = 0x45
  · have hihl : ipHdrLen frame = 20 := by
      rw [ipHdrLen, hfive]
      rfl
    have hshift := shiftRight_lt_five _ (byteOf frame 46).toNat_lt
    rw [UInt8.ofNat_toNat] at hshift
    rw [if_pos ⟨hfive, hproto⟩, hihl]
    refine if_congr ?_ rfl rfl
    rw [hshift, ne_eq (ndBe16 frame 20 &&& 0x3FFF), fragment_eq_zero, not_and_or]
    constructor
    · rintro (h | h | (h | h) | h)
      · omega
      · omega
      · exact .inr (.inl h)
      · exact .inr (.inr (.inl h))
      · exact .inr (.inr (.inr h))
    · rintro (h | h | h | h)
      · omega
      · exact .inr (.inr (.inl (.inl h)))
      · exact .inr (.inr (.inl (.inr h)))
      · exact .inr (.inr (.inr h))
  · rw [if_neg fun h ↦ hfive h.1, if_neg (not_not_intro hversion)]
    dsimp only
    by_cases hshort : ipHdrLen frame < 20
    · rw [if_pos (.inl hshort), if_pos (.inl hshort)]
    rw [if_neg (by omega : ¬(ipHdrLen frame < 20 ∨ len - 14 < ipHdrLen frame)),
      if_neg (by omega : ¬(ndBe16 frame 16 < ipHdrLen frame ∨ len - 14 < ndBe16 frame 16))]
    by_cases hfrag : byteOf frame 20 &&& 0x3F ≠ 0 ∨ byteOf frame 21 ≠ 0
    · rw [if_pos hfrag, if_pos]
      rcases hfrag with h | h
      · exact .inr (.inl h)
      · exact .inr (.inr (.inl h))
    rw [if_neg hfrag, if_pos hproto, txCsumAt,
      if_neg (by omega : ¬14 + ndBe16 frame 16 < 14 + ipHdrLen frame + 16 + 2)]
    refine if_congr ?_ rfl rfl
    constructor
    · rintro (h | h | h)
      · exact .inr (.inr (.inr (.inl h)))
      · omega
      · exact .inr (.inr (.inr (.inr h)))
    · rintro (h | h | h | h | h)
      · exact absurd h hshort
      · exact absurd (.inl h) hfrag
      · exact absurd (.inr h) hfrag
      · exact .inl h
      · exact .inr (.inr h)

/-- A frame that is not IPv4 has no checksum of this kind. -/
theorem netdevTxCsum4_not_ip {frame : List UInt8} {len : ℕ} {supported : UInt8}
    (h : byteOf frame 12 ≠ 0x08 ∨ byteOf frame 13 ≠ 0x00 ∨ byteOf frame 14 &&& 0xF0 ≠ 0x40) :
    netdevTxCsum4 frame len supported = none := by
  rw [netdevTxCsum4]
  by_cases hlong : len < 14 + 20 ∨ byteOf frame 12 ≠ 0x08 ∨ byteOf frame 13 ≠ 0x00
  · rw [if_pos hlong]
  rw [if_neg hlong]
  rw [not_or, not_or] at hlong
  have hversion : byteOf frame 14 &&& 0xF0 ≠ 0x40 := by
    rcases h with h | h | h
    · exact absurd h hlong.2.1
    · exact absurd h hlong.2.2
    · exact h
  have hfive : ¬(byteOf frame 14 = 0x45 ∧ byteOf frame 23 = 6) := by
    rintro ⟨hb, -⟩
    rw [hb] at hversion
    exact hversion (by decide)
  rw [if_neg hfive, if_pos hversion]

/-- **The shape of a TCP frame determines its checksum**, whatever its length. -/
theorem netdevTxCsum4_eq_verdict {frame : List UInt8} {len : ℕ} (hlen : netdevFrameMin ≤ len)
    (hcovered : TcpCovered frame len) (hproto : byteOf frame 23 = 6) (supported : UInt8) :
    netdevTxCsum4 frame len supported = (genetTxCsumShape frame).verdict supported := by
  rw [TxShape.verdict]
  by_cases hip : byteOf frame 12 ≠ 0x08 ∨ byteOf frame 13 ≠ 0x00 ∨ byteOf frame 14 &&& 0xF0 ≠ 0x40
  · rw [netdevTxCsum4_not_ip hip, if_pos]
    rcases hip with h | h | h
    · exact .inl h
    · exact .inr (.inl h)
    · exact .inr (.inr (.inl h))
  rw [not_or, not_or, not_not, not_not, not_not] at hip
  obtain ⟨htype₀, htype₁, hversion⟩ := hip
  obtain ⟨htotal, hfits⟩ := hcovered htype₀ htype₁ hversion hproto
  rw [netdevTxCsum4_tcp hlen ⟨htype₀, htype₁⟩ hversion hproto htotal hfits]
  refine if_congr ?_ rfl rfl
  constructor
  · exact fun h ↦ .inr (.inr (.inr h))
  · rintro (h | h | h | h)
    · exact absurd htype₀ h
    · exact absurd htype₁ h
    · exact absurd hversion h
    · exact h

/-- The word that is taken over from another frame is the frame's own. -/
theorem txCsumWord_eq_of_same {frame frame' : List UInt8} {len len' : ℕ}
    (hlen : netdevFrameMin ≤ len) (hlen' : netdevFrameMin ≤ len') (hcovered : TcpCovered frame len)
    (hcovered' : TcpCovered frame' len')
    (hsame : genetTxCsumSame frame' (genetTxCsumShape frame) = true) (supported : UInt8) :
    txCsumWord frame' len' supported = txCsumWord frame len supported := by
  rw [genetTxCsumSame, Bool.and_eq_true, decide_eq_true_eq, decide_eq_true_eq] at hsame
  obtain ⟨hproto, hshape⟩ := hsame
  have hproto' : byteOf frame' 23 = 6 := (congrArg TxShape.protocol hshape).trans hproto
  have hihl : byteOf frame' 14 = byteOf frame 14 := congrArg TxShape.ihl hshape
  rw [txCsumWord, txCsumWord, netdevTxCsum4_eq_verdict hlen hcovered hproto,
    netdevTxCsum4_eq_verdict hlen' hcovered' hproto', hshape, hihl]

end Shape

/-! ### Batches -/

/-- A frame of a batch as the opener fills it. One of TCP over IPv4 is as long as its datagram,
which covers its two headers. -/
structure BatchFrame (f : TxFrame) : Prop where
  whole : f.bytes.length = f.len
  long : netdevFrameMin ≤ f.len
  covered : TcpCovered f.bytes f.len

/-- One frame more in the ring, with the checksum word of its own. -/
def TxRing.post (csum : UInt8) (r : TxRing) (f : TxFrame) : TxRing :=
  let bytes := overlaid f.bytes (r.buf r.slot)
  r.write bytes f.len (if csum = 0 then 0 else txCsumWord bytes f.len csum)

section Batch

theorem byteOf_over {bytes : List UInt8} {i : ℕ} (hi : i < bytes.length) (buf : List UInt8) :
    byteOf (overlaid bytes buf) i = byteOf bytes i := by
  rw [byteOf, byteOf, overlaid, List.getD_append _ _ _ _ hi]

/-- What lies behind a frame in its buffer does not count. -/
theorem BatchFrame.covered_over {f : TxFrame} (hf : BatchFrame f) (buf : List UInt8) :
    TcpCovered (overlaid f.bytes buf) f.len := by
  have hlong := hf.long
  have hwhole := hf.whole
  rw [netdevFrameMin] at hlong
  have hbyte {i : ℕ} (hi : i < 60) : byteOf (overlaid f.bytes buf) i = byteOf f.bytes i :=
    byteOf_over (by omega) buf
  have hcovered := hf.covered
  rw [TcpCovered, ipHdrLen, ndBe16] at hcovered ⊢
  rw [hbyte (by decide), hbyte (by decide), hbyte (by decide), hbyte (by decide),
    hbyte (by decide), hbyte (by decide)]
  exact hcovered

/-- The word in hand is that of a frame that was posted, with its shape. -/
def WordInHand (csum : UInt8) : Option (UInt32 × TxShape) → Prop
  | none => True
  | some (info, shape) => ∃ bytes len, netdevFrameMin ≤ len ∧ TcpCovered bytes len ∧
      info = txCsumWord bytes len csum ∧ shape = genetTxCsumShape bytes

theorem txRunWord_eq {csum : UInt8} {bytes : List UInt8} {len : ℕ}
    {last : Option (UInt32 × TxShape)} (hlast : WordInHand csum last) (hlen : netdevFrameMin ≤ len)
    (hcovered : TcpCovered bytes len) :
    (txRunWord csum bytes len last).1 = txCsumWord bytes len csum ∧
      WordInHand csum (some (txRunWord csum bytes len last)) := by
  have hown : WordInHand csum (some (txCsumWord bytes len csum, genetTxCsumShape bytes)) :=
    ⟨bytes, len, hlen, hcovered, rfl, rfl⟩
  cases last with
  | none => exact ⟨rfl, hown⟩
  | some word =>
    obtain ⟨info, shape⟩ := word
    rw [txRunWord]
    split_ifs with hsame
    · obtain ⟨bytes₀, len₀, hlen₀, hcovered₀, rfl, rfl⟩ := hlast
      exact ⟨(txCsumWord_eq_of_same hlen₀ hlen hcovered₀ hcovered hsame csum).symm,
        bytes₀, len₀, hlen₀, hcovered₀, rfl, rfl⟩
    · exact ⟨rfl, hown⟩

/-- The frames of a batch from one on. -/
def batchFrames (fill : UInt16 → TxFrame) (first : UInt16) (done n : ℕ) : List TxFrame :=
  (List.range' done n).map fun i ↦ fill (first + UInt16.ofNat i)

/-- **The loop of a run** posts its frames, each with its own checksum word. -/
theorem txRunLoop_eq {fill : UInt16 → TxFrame} {first : UInt16} {csum : UInt8} {n done : ℕ}
    {last : Option (UInt32 × TxShape)} {r : TxRing} (hlast : WordInHand csum last)
    (hfill : ∀ f ∈ batchFrames fill first done n, BatchFrame f) :
    txRunLoop fill first csum n done last r =
      ((batchFrames fill first done n).foldl (TxRing.post csum) r, done + n, false) := by
  induction n generalizing done last r with
  | zero => rfl
  | succ n ih =>
    have hsplit : batchFrames fill first done (n + 1) =
        fill (first + UInt16.ofNat done) :: batchFrames fill first (done + 1) n := rfl
    rw [hsplit] at hfill ⊢
    obtain ⟨f, hf⟩ : ∃ f, f = fill (first + UInt16.ofNat done) := ⟨_, rfl⟩
    rw [← hf] at hfill ⊢
    have hframe := hfill f List.mem_cons_self
    have hrest : ∀ f' ∈ batchFrames fill first (done + 1) n, BatchFrame f' :=
      fun f' hf' ↦ hfill f' (List.mem_cons_of_mem f hf')
    have hlong := hframe.long
    rw [txRunLoop, ← hf, if_neg (Nat.not_lt.mpr hlong), List.foldl_cons]
    have hcount : done + (n + 1) = done + 1 + n := by omega
    by_cases hcsum : csum = 0
    · rw [if_pos hcsum, ih hlast hrest, hcount, TxRing.post, if_pos hcsum]
    · obtain ⟨hword, hhand⟩ := txRunWord_eq hlast hlong
        (hframe.covered_over (r.buf r.slot))
      rw [if_neg hcsum]
      dsimp only
      rw [ih hhand hrest, hword, hcount, TxRing.post, if_neg hcsum]

end Batch

/-! ### The counts behind the counters -/

/-- The counters of the ring stand for counts: `q` frames the driver knows to be sent, `r` frames
the chip has sent, `k` frames handed to the chip and `p` frames posted. -/
structure TxCounted (q r k p : ℕ) (s : GenetTx) : Prop where
  cidx : s.txCidx = UInt16.ofNat q
  cons : s.consIndex = UInt16.ofNat r
  kicked : s.txKicked = UInt16.ofNat k
  prod : s.prodIndex = UInt16.ofNat k
  pidx : s.ring.txPidx = UInt16.ofNat p
  inuse : s.txbInuse = UInt16.ofNat (p - q)
  known : q ≤ r
  sent : r ≤ k
  posted : k ≤ p
  room : p ≤ q + geTxRing

section Counted

variable {q r k p : ℕ} {s : GenetTx}

theorem TxCounted.toNat_inuse (h : TxCounted q r k p s) : s.txbInuse.toNat = p - q := by
  have hroom := h.room
  rw [geTxRing] at hroom
  rw [h.inuse, UInt16.toNat_ofNat']
  omega

theorem TxCounted.full_iff (h : TxCounted q r k p s) : 64 ≤ s.txbInuse ↔ p = q + geTxRing := by
  have hroom := h.room
  have horder : q ≤ p := Nat.le_trans h.known (Nat.le_trans h.sent h.posted)
  rw [UInt16.le_iff_toNat_le, h.toNat_inuse, geTxRing] at *
  change 64 ≤ p - q ↔ _
  omega

theorem TxCounted.free_toNat (h : TxCounted q r k p s) :
    ((64 : UInt16) - s.txbInuse).toNat = q + geTxRing - p := by
  have hroom := h.room
  have horder : q ≤ p := Nat.le_trans h.known (Nat.le_trans h.sent h.posted)
  rw [geTxRing] at *
  rw [UInt16.toNat_sub, h.toNat_inuse]
  change (2 ^ 16 - (p - q) + 64) % 2 ^ 16 = _
  omega

theorem TxCounted.kick (h : TxCounted q r k p s) :
    ∃ k', TxCounted q r k' p (geTxKick s) := by
  rw [geTxKick]
  split_ifs
  · exact ⟨k, h⟩
  · exact ⟨p, h.cidx, h.cons, h.pidx, h.pidx, h.pidx, h.inuse, h.known,
      Nat.le_trans h.sent h.posted, Nat.le_refl p, h.room⟩

theorem geTxKick_ring (s : GenetTx) :
    (geTxKick s).ring = s.ring ∧ (geTxKick s).txbInuse = s.txbInuse ∧
      (geTxKick s).txCsum = s.txCsum ∧ (geTxKick s).running = s.running := by
  rw [geTxKick]
  split_ifs
  all_goals exact ⟨rfl, rfl, rfl, rfl⟩

/-- **What the chip has sent is known**, and nothing else changes. -/
theorem TxCounted.txintr (h : TxCounted q r k p s) :
    TxCounted r r k p (geTxintr s) ∧ (geTxintr s).ring = s.ring ∧
      (geTxintr s).txCsum = s.txCsum ∧ (geTxintr s).running = s.running := by
  have hroom := h.room
  have hknown := h.known
  have hrp : r ≤ p := Nat.le_trans h.sent h.posted
  rw [geTxRing] at hroom
  have hn : s.consIndex - s.txCidx = UInt16.ofNat (r - q) := by
    rw [h.cons, h.cidx, ← UInt16.ofNat_sub h.known]
  have hwaiting : s.ring.txPidx - s.txCidx = UInt16.ofNat (p - q) := by
    rw [h.pidx, h.cidx, ← UInt16.ofNat_sub (by omega)]
  -- the chip never runs ahead
  have hahead : ¬UInt16.ofNat (r - q) > UInt16.ofNat (p - q) := by
    rw [gt_iff_lt, UInt16.lt_iff_toNat_lt, UInt16.toNat_ofNat', UInt16.toNat_ofNat']
    omega
  simp only [geTxintr]
  rw [hn, hwaiting, if_neg hahead]
  by_cases hzero : UInt16.ofNat (r - q) = 0
  · have hsame : r = q := by
      have hnat := congrArg UInt16.toNat hzero
      rw [UInt16.toNat_ofNat'] at hnat
      change _ = 0 at hnat
      omega
    subst hsame
    rw [if_pos hzero]
    exact ⟨{ h with inuse := hwaiting }, rfl, rfl, rfl⟩
  · rw [if_neg hzero]
    refine ⟨⟨h.cons, h.cons, h.kicked, h.prod, h.pidx, ?_, Nat.le_refl r, h.sent, h.posted, ?_⟩,
      rfl, rfl, rfl⟩
    · change s.ring.txPidx - s.consIndex = _
      rw [h.pidx, h.cons, ← UInt16.ofNat_sub hrp]
    · rw [geTxRing]
      omega

/-- Frames in the ring move the producer index and the count in use. -/
theorem TxCounted.posts (h : TxCounted q r k p s) {ring : TxRing} {m : ℕ}
    (hpidx : ring.txPidx = UInt16.ofNat (p + m)) (hroom : p + m ≤ q + geTxRing) :
    TxCounted q r k (p + m) (s.withRing ring) := by
  have horder : q ≤ p := Nat.le_trans h.known (Nat.le_trans h.sent h.posted)
  refine ⟨h.cidx, h.cons, h.kicked, h.prod, hpidx, ?_, h.known, h.sent,
    Nat.le_trans h.posted (Nat.le_add_right p m), hroom⟩
  change ring.txPidx - s.txCidx = _
  rw [hpidx, h.cidx, ← UInt16.ofNat_sub (Nat.le_trans horder (Nat.le_add_right p m))]

theorem TxCounted.pidx_write (h : TxCounted q r k p s) (bytes : List UInt8) (len : ℕ)
    (info : UInt32) : (s.ring.write bytes len info).txPidx = UInt16.ofNat (p + 1) := by
  rw [ofNat_succ, ← h.pidx]
  rfl

theorem TxCounted.kickDue (h : TxCounted q r k p s) :
    (∃ k', TxCounted q r k' p s.kickDue) ∧ s.kickDue.ring = s.ring ∧ s.kickDue.txCsum = s.txCsum ∧
      s.kickDue.running = s.running := by
  rw [GenetTx.kickDue]
  split_ifs
  · obtain ⟨hring, -, hcsum, hrunning⟩ := geTxKick_ring s
    exact ⟨h.kick, hring, hcsum, hrunning⟩
  · exact ⟨⟨k, h⟩, rfl, rfl, rfl⟩

theorem genetTxPost_eq {f : TxFrame} (hf : BatchFrame f) :
    genetTxPost s f.bytes f.len = (s.withRing (s.ring.post s.txCsum f)).kickDue := by
  have hmax : max f.len netdevFrameMin = f.len := Nat.max_eq_left hf.long
  have htake : f.bytes.take f.len = f.bytes := List.take_of_length_le (Nat.le_of_eq hf.whole)
  rw [genetTxPost, hmax, htake]
  rfl

/-- **One frame posted**, where the ring has room. -/
theorem TxCounted.txPost (h : TxCounted q r k p s) (hroom : p < q + geTxRing) {f : TxFrame}
    (hf : BatchFrame f) :
    (∃ k', TxCounted q r k' (p + 1) (genetTxPost s f.bytes f.len)) ∧
      (genetTxPost s f.bytes f.len).ring = s.ring.post s.txCsum f ∧
      (genetTxPost s f.bytes f.len).txCsum = s.txCsum ∧
      (genetTxPost s f.bytes f.len).running = s.running := by
  have hposted : TxCounted q r k (p + 1) (s.withRing (s.ring.post s.txCsum f)) :=
    h.posts (h.pidx_write _ _ _) hroom
  rw [genetTxPost_eq hf]
  exact hposted.kickDue

/-- What the driver knows to be sent when it posts the next frame: it asks the chip when the ring is
full. -/
def knownSent (q r p : ℕ) : ℕ := if p = q + geTxRing then r else q

/-- **One frame.** -/
theorem TxCounted.tx (h : TxCounted q r k p s) (hrunning : s.running = true) {f : TxFrame}
    (hf : BatchFrame f) :
    (p < knownSent q r p + geTxRing →
      (genetTx s f.bytes f.len).2 = .posted ∧
      (∃ k', TxCounted (knownSent q r p) r k' (p + 1) (genetTx s f.bytes f.len).1) ∧
      (genetTx s f.bytes f.len).1.ring = s.ring.post s.txCsum f ∧
      (genetTx s f.bytes f.len).1.txCsum = s.txCsum ∧
      (genetTx s f.bytes f.len).1.running = true) ∧
    (¬p < knownSent q r p + geTxRing →
      (genetTx s f.bytes f.len).2 = .busy ∧
      TxCounted (knownSent q r p) r k p (genetTx s f.bytes f.len).1 ∧
      (genetTx s f.bytes f.len).1.ring = s.ring) := by
  -- the state behind the test for a full ring
  obtain ⟨t, ht⟩ : ∃ t, t = if 64 ≤ s.txbInuse then geTxintr s else s := ⟨_, rfl⟩
  have hcounted : TxCounted (knownSent q r p) r k p t ∧ t.ring = s.ring ∧ t.txCsum = s.txCsum ∧
      t.running = s.running := by
    rw [ht, knownSent]
    by_cases hfull : 64 ≤ s.txbInuse
    · rw [if_pos hfull, if_pos (h.full_iff.mp hfull)]
      exact h.txintr
    · rw [if_neg hfull, if_neg fun hp ↦ hfull (h.full_iff.mpr hp)]
      exact ⟨h, rfl, rfl, rfl⟩
  obtain ⟨hcounted, hring, hcsum, hrun⟩ := hcounted
  have hfull := hcounted.full_iff
  have hle := hcounted.room
  have htx : genetTx s f.bytes f.len =
      if 64 ≤ t.txbInuse then (t, .busy) else (genetTxPost t f.bytes f.len, .posted) := by
    rw [genetTx, if_pos hrunning, ht]
  rw [htx]
  refine ⟨fun hroom ↦ ?_, fun hroom ↦ ?_⟩
  · obtain ⟨hnext, hring', hcsum', hrun'⟩ := hcounted.txPost hroom hf
    rw [if_neg fun hf' ↦ by have := hfull.mp hf'; omega]
    rw [hring, hcsum] at hring'
    exact ⟨rfl, hnext, hring', hcsum'.trans hcsum, hrun'.trans (hrun.trans hrunning)⟩
  · rw [if_pos (hfull.mpr (by omega))]
    exact ⟨rfl, hcounted, hring⟩

/-- **Frames posted one at a time**: as many as the chip has room for, in their order. -/
theorem genetTxEach_eq {fs : List TxFrame} (h : TxCounted q r k p s) (hrunning : s.running = true)
    (hfs : ∀ f ∈ fs, BatchFrame f) :
    (genetTxEach s fs).2 = min fs.length (r + geTxRing - p) ∧
      (genetTxEach s fs).1.ring =
        (fs.take (min fs.length (r + geTxRing - p))).foldl (TxRing.post s.txCsum) s.ring ∧
      ∃ k', TxCounted (if fs.length ≤ q + geTxRing - p then q else r) r k'
        (p + min fs.length (r + geTxRing - p)) (genetTxEach s fs).1 := by
  induction fs generalizing s q k p with
  | nil =>
    rw [List.length_nil, Nat.zero_min, if_pos (Nat.zero_le _)]
    exact ⟨rfl, rfl, k, h⟩
  | cons f fs ih =>
    have hknown := h.known
    have hle := h.room
    obtain ⟨hposts, hbusy⟩ := h.tx hrunning (hfs f List.mem_cons_self)
    have hsent : q ≤ knownSent q r p ∧ knownSent q r p ≤ r := by
      rw [knownSent]
      split_ifs
      · exact ⟨hknown, Nat.le_refl r⟩
      · exact ⟨Nat.le_refl q, hknown⟩
    rw [genetTxEach]
    by_cases hroom : p < knownSent q r p + geTxRing
    · obtain ⟨hanswer, ⟨k', hnext⟩, hring, hcsum, hrun⟩ := hposts hroom
      obtain ⟨s', hs'⟩ : ∃ s', s' = (genetTx s f.bytes f.len).1 := ⟨_, rfl⟩
      have hpair : genetTx s f.bytes f.len = (s', .posted) := by
        rw [hs', ← hanswer]
      rw [← hs'] at hnext hring hcsum hrun
      obtain ⟨hcount, hfold, k'', hcounted⟩ :=
        ih hnext hrun fun f' hf' ↦ hfs f' (List.mem_cons_of_mem f hf')
      have hmin : min (fs.length + 1) (r + geTxRing - p) =
          min fs.length (r + geTxRing - (p + 1)) + 1 := by omega
      have hthen : (if fs.length ≤ knownSent q r p + geTxRing - (p + 1) then knownSent q r p
          else r) = if fs.length + 1 ≤ q + geTxRing - p then q else r := by
        rw [knownSent]
        split_ifs <;> omega
      rw [hpair]
      dsimp only
      rw [List.length_cons, hmin, hcount, List.take_succ_cons, List.foldl_cons, hfold, hring, hcsum]
      refine ⟨rfl, rfl, k'', ?_⟩
      rw [hthen, show p + 1 + min fs.length (r + geTxRing - (p + 1)) =
        p + (min fs.length (r + geTxRing - (p + 1)) + 1) by omega] at hcounted
      exact hcounted
    · obtain ⟨hanswer, hnext, hring⟩ := hbusy hroom
      have hpair : genetTx s f.bytes f.len =
          ((genetTx s f.bytes f.len).1, .busy) := by
        rw [← hanswer]
      have hfull : knownSent q r p = r ∧ r + geTxRing - p = 0 ∧ q + geTxRing - p = 0 := by
        rw [knownSent] at hroom ⊢
        split_ifs at hroom ⊢ <;> omega
      rw [hpair]
      dsimp only
      rw [hfull.1] at hnext
      rw [hfull.2.1, hfull.2.2, Nat.min_zero, List.length_cons, if_neg (Nat.not_succ_le_zero _)]
      exact ⟨rfl, hring, k, hnext⟩

/-- The chip is asked first where the run does not fit. -/
theorem TxCounted.reclaim (h : TxCounted q r k p s) (count : UInt16) :
    (∃ k', TxCounted (if count.toNat ≤ q + geTxRing - p then q else r) r k' p
      (txRunReclaim s count)) ∧
      (txRunReclaim s count).ring = s.ring ∧ (txRunReclaim s count).txCsum = s.txCsum := by
  have hreclaims : genetTxRunReclaims s.txbInuse 64 count = true ↔
      ¬count.toNat ≤ q + geTxRing - p := by
    rw [genetTxRunReclaims, decide_eq_true_eq, UInt16.lt_iff_toNat_lt, h.free_toNat, Nat.not_le]
  rw [txRunReclaim]
  by_cases hfits : count.toNat ≤ q + geTxRing - p
  · rw [if_neg fun hr ↦ hreclaims.mp hr hfits, if_pos hfits]
    exact ⟨⟨k, h⟩, rfl, rfl⟩
  · rw [if_pos (hreclaims.mpr hfits), if_neg hfits]
    dsimp only
    obtain ⟨hfirst, hring, hcsum, -⟩ := h.txintr
    split_ifs
    · obtain ⟨k', hkicked⟩ := hfirst.kick
      obtain ⟨hkring, -, hkcsum, -⟩ := geTxKick_ring (geTxintr s)
      obtain ⟨hsecond, hring', hcsum', -⟩ := hkicked.txintr
      exact ⟨⟨k', hsecond⟩, hring'.trans (hkring.trans hring), hcsum'.trans (hkcsum.trans hcsum)⟩
    · exact ⟨⟨k, hfirst⟩, hring, hcsum⟩

theorem foldl_post_txPidx (csum : UInt8) (fs : List TxFrame) (ring : TxRing) :
    (fs.foldl (TxRing.post csum) ring).txPidx = ring.txPidx + UInt16.ofNat fs.length := by
  induction fs generalizing ring with
  | nil => exact (UInt16.add_zero _).symm
  | cons f fs ih =>
    rw [List.foldl_cons, ih, List.length_cons, ofNat_succ]
    change ring.txPidx + 1 + _ = _
    rw [UInt16.add_assoc, UInt16.add_comm 1]

theorem length_batchFrames (fill : UInt16 → TxFrame) (first : UInt16) (done n : ℕ) :
    (batchFrames fill first done n).length = n := by
  rw [batchFrames, List.length_map, List.length_range']

theorem take_batchFrames {fill : UInt16 → TxFrame} {first : UInt16} {done n m : ℕ} (hm : m ≤ n) :
    (batchFrames fill first done n).take m = batchFrames fill first done m := by
  rw [batchFrames, batchFrames, ← List.map_take, List.take_range'_of_length_ge hm]

/-- A run, by what its loop leaves in the ring. -/
theorem genetTxRun_of_loop {first count : UInt16} {fill : UInt16 → TxFrame}
    (hrunning : s.running = true) {t : GenetTx} (ht : t = txRunReclaim s count) {n : ℕ}
    (hn : n = min count.toNat (64 - t.txbInuse).toNat) {result : TxRing × ℕ × Bool}
    (hresult : result = txRunLoop fill first t.txCsum n 0 none t.ring) :
    genetTxRun s first count fill =
      (if result.2.1 ≠ 0 then geTxKick (t.withRing result.1) else t.withRing result.1,
        result.2.1, result.2.2) := by
  have hcount : (if count > 64 - t.txbInuse then 64 - t.txbInuse else count).toNat = n := by
    rw [hn]
    split_ifs with hgt
    · have hlt := UInt16.lt_iff_toNat_lt.mp hgt
      omega
    · have hle := UInt16.le_iff_toNat_le.mp (UInt16.not_lt.mp hgt)
      omega
  rw [genetTxRun, if_pos hrunning, ← ht]
  dsimp only
  rw [hcount, ← hresult]

/-- **A run** posts as many of its frames as the chip has room for, in their order. -/
theorem genetTxRun_eq {first count : UInt16} {fill : UInt16 → TxFrame} (h : TxCounted q r k p s)
    (hrunning : s.running = true)
    (hfill : ∀ f ∈ batchFrames fill first 0 count.toNat, BatchFrame f) :
    (genetTxRun s first count fill).2.1 = min count.toNat (r + geTxRing - p) ∧
      (genetTxRun s first count fill).1.ring =
        ((batchFrames fill first 0 count.toNat).take (min count.toNat (r + geTxRing - p))).foldl
          (TxRing.post s.txCsum) s.ring ∧
      ∃ k', TxCounted (if count.toNat ≤ q + geTxRing - p then q else r) r k'
        (p + min count.toNat (r + geTxRing - p)) (genetTxRun s first count fill).1 := by
  obtain ⟨m, hm⟩ : ∃ m, m = min count.toNat (r + geTxRing - p) := ⟨_, rfl⟩
  obtain ⟨t, ht⟩ : ∃ t, t = txRunReclaim s count := ⟨_, rfl⟩
  obtain ⟨⟨k', hcounted⟩, hring, hcsum⟩ := h.reclaim count
  rw [← ht] at hcounted hring hcsum
  have hknown := h.known
  have hle := h.room
  -- the frames that fit are the same, whether the chip was asked or not
  have hn : m = min count.toNat (64 - t.txbInuse).toNat := by
    rw [hcounted.free_toNat, hm]
    split_ifs <;> omega
  have hroom : p + m ≤ (if count.toNat ≤ q + geTxRing - p then q else r) + geTxRing := by
    rw [hm]
    split_ifs <;> omega
  have htake : (batchFrames fill first 0 count.toNat).take m = batchFrames fill first 0 m :=
    take_batchFrames (by omega)
  have hframes : ∀ f ∈ batchFrames fill first 0 m, BatchFrame f := fun f hf ↦
    hfill f (List.mem_of_mem_take (htake ▸ hf))
  have hloop : txRunLoop fill first t.txCsum m 0 none t.ring =
      ((batchFrames fill first 0 m).foldl (TxRing.post t.txCsum) t.ring, 0 + m, false) :=
    txRunLoop_eq trivial hframes
  rw [genetTxRun_of_loop hrunning ht hn hloop.symm, ← hm, htake, ← hring, ← hcsum]
  have hpidx : ((batchFrames fill first 0 m).foldl (TxRing.post t.txCsum) t.ring).txPidx =
      UInt16.ofNat (p + m) := by
    rw [foldl_post_txPidx, length_batchFrames, hcounted.pidx, UInt16.ofNat_add]
  have hposts := hcounted.posts hpidx hroom
  dsimp only
  rw [Nat.zero_add]
  by_cases hzero : m ≠ 0
  · rw [if_pos hzero]
    exact ⟨rfl, (geTxKick_ring _).1, hposts.kick⟩
  · rw [if_neg hzero]
    exact ⟨rfl, rfl, k', hposts⟩

/-! ### What is not written -/

theorem TxRing.slot_ofNat {ring : TxRing} {n : ℕ} (h : ring.txPidx = UInt16.ofNat n) :
    ring.slot = n % geTxRing := by
  rw [TxRing.slot, h]
  exact toNat_ofNat_and n (by decide : 6 ≤ 16)

/-- Posting leaves the slots alone that it does not come to. -/
theorem foldl_post_keeps {csum : UInt8} {fs : List TxFrame} {ring : TxRing} {n x : ℕ}
    (hn : ring.txPidx = UInt16.ofNat n) (hx : ∀ i < fs.length, x ≠ (n + i) % geTxRing) :
    (fs.foldl (TxRing.post csum) ring).buf x = ring.buf x ∧
      (fs.foldl (TxRing.post csum) ring).csumInfo x = ring.csumInfo x ∧
      (fs.foldl (TxRing.post csum) ring).desc x = ring.desc x := by
  induction fs generalizing ring n with
  | nil => exact ⟨rfl, rfl, rfl⟩
  | cons f fs ih =>
    have hslot : x ≠ ring.slot := by
      rw [TxRing.slot_ofNat hn]
      exact hx 0 (Nat.succ_pos _)
    have hnext : (ring.post csum f).txPidx = UInt16.ofNat (n + 1) := by
      rw [ofNat_succ, ← hn]
      rfl
    have hrest : ∀ i < fs.length, x ≠ (n + 1 + i) % geTxRing := by
      intro i hi
      rw [Nat.add_assoc, Nat.add_comm 1]
      exact hx (i + 1) (Nat.succ_lt_succ hi)
    obtain ⟨hbuf, hinfo, hdesc⟩ := ih hnext hrest
    rw [List.foldl_cons, hbuf, hinfo, hdesc]
    exact ⟨Function.update_of_ne hslot _ _, Function.update_of_ne hslot _ _,
      Function.update_of_ne hslot _ _⟩

/-- A frame that the chip has not sent is not in a slot that is free. -/
theorem TxCounted.slot_ne (h : TxCounted q r k p s) {j : UInt16} {i : ℕ}
    (hj : (j - s.consIndex).toNat < (s.ring.txPidx - s.consIndex).toNat)
    (hi : p + i < r + geTxRing) :
    (genetRingSlot j 64).toNat ≠ (p + i) % geTxRing := by
  have hrp : r ≤ p := Nat.le_trans h.sent h.posted
  have hslot : (genetRingSlot j 64).toNat = j.toNat % 64 := by
    have hand := toNat_ofNat_and j.toNat (by decide : 6 ≤ 16)
    rw [UInt16.ofNat_toNat] at hand
    exact hand
  rw [geTxRing] at hi ⊢
  rw [h.cons, h.pidx, toNat_ofNat_sub hrp (by omega), UInt16.toNat_sub, UInt16.toNat_ofNat'] at hj
  rw [hslot]
  have hlt := j.toNat_lt
  omega

end Counted

/-! ### A batch and its frames -/

/-- The counters of the ring are in order. -/
def GenetTx.InOrder (s : GenetTx) : Prop := ∃ q r k p, TxCounted q r k p s

/-- Posting on a chip that is offline. -/
theorem genetTxEach_offline {s : GenetTx} (hrunning : s.running = false) (fs : List TxFrame) :
    genetTxEach s fs = (s, 0) := by
  cases fs with
  | nil => rfl
  | cons f fs =>
    have hoff : genetTx s f.bytes f.len = (s, .offline) := by
      rw [genetTx, hrunning]
      rfl
    rw [genetTxEach, hoff]

/-- **A batch is posted as its frames are one at a time.** From every ring whose counters are in
order, for every batch of frames as the opener fills them: the buffers, the checksum words, the
descriptors and the producer index are left as posting the frames one at a time leaves them, and so
are the count in use and the number of frames posted. Those are the first of the batch, no more than
the slots that are free, and the slot of a frame that the chip has not sent is not written. -/
theorem genetTxRun_eq_each {s : GenetTx} (hs : s.InOrder) (first count : UInt16)
    {fill : UInt16 → TxFrame}
    (hfill : ∀ f ∈ batchFrames fill first 0 count.toNat, BatchFrame f) :
    ((genetTxRun s first count fill).1.ring =
        (genetTxEach s (batchFrames fill first 0 count.toNat)).1.ring ∧
      (genetTxRun s first count fill).1.txbInuse =
        (genetTxEach s (batchFrames fill first 0 count.toNat)).1.txbInuse ∧
      (genetTxRun s first count fill).2.1 =
        (genetTxEach s (batchFrames fill first 0 count.toNat)).2) ∧
    ((genetTxRun s first count fill).1.ring = ((batchFrames fill first 0 count.toNat).take
        (genetTxRun s first count fill).2.1).foldl (TxRing.post s.txCsum) s.ring ∧
      (genetTxRun s first count fill).2.1 ≤
        geTxRing - (s.ring.txPidx - s.consIndex).toNat) ∧
    ∀ j : UInt16, (j - s.consIndex).toNat < (s.ring.txPidx - s.consIndex).toNat →
      let slot := (genetRingSlot j 64).toNat
      (genetTxRun s first count fill).1.ring.buf slot = s.ring.buf slot ∧
        (genetTxRun s first count fill).1.ring.csumInfo slot = s.ring.csumInfo slot ∧
        (genetTxRun s first count fill).1.ring.desc slot = s.ring.desc slot := by
  obtain ⟨q, r, k, p, h⟩ := hs
  have hrp : r ≤ p := Nat.le_trans h.sent h.posted
  have hroom := h.room
  have hknown := h.known
  by_cases hrunning : s.running = true
  swap
  · have hoff : s.running = false := by simpa using hrunning
    have hrun : genetTxRun s first count fill = (s, 0, true) := by
      rw [genetTxRun, if_neg hrunning]
    rw [hrun, genetTxEach_offline hoff]
    exact ⟨⟨rfl, rfl, rfl⟩, ⟨rfl, Nat.zero_le _⟩, fun j _ ↦ ⟨rfl, rfl, rfl⟩⟩
  obtain ⟨hcount, hring, k₁, hcounted⟩ := genetTxRun_eq h hrunning hfill
  obtain ⟨hcount', hring', k₂, hcounted'⟩ := genetTxEach_eq h hrunning hfill
  rw [length_batchFrames] at hcount' hring' hcounted'
  refine ⟨⟨hring.trans hring'.symm, ?_, hcount.trans hcount'.symm⟩, ⟨?_, ?_⟩, fun j hj ↦ ?_⟩
  · rw [hcounted.inuse, hcounted'.inuse]
  · rw [hcount]
    exact hring
  · rw [hcount, h.pidx, h.cons, toNat_ofNat_sub hrp (by rw [geTxRing] at hroom; omega)]
    omega
  · rw [hring]
    refine foldl_post_keeps h.pidx fun i hi ↦ ?_
    rw [List.length_take, length_batchFrames] at hi
    exact h.slot_ne hj (by omega)

/-- The shortest frame of TCP over IPv4. -/
def tcpFrame : TxFrame where
  bytes := List.replicate 12 0 ++
    [0x08, 0x00, 0x45, 0x00, 0x00, 0x2E, 0x00, 0x00, 0x00, 0x00, 0x40, 6] ++
    List.replicate 22 0 ++ [0x50] ++ List.replicate 13 0
  len := 60

theorem batchFrame_tcpFrame : BatchFrame tcpFrame :=
  ⟨rfl, Nat.le_refl 60, fun _ _ _ _ ↦ by decide⟩

/-- One slot of the ring is free, and the chip has sent three frames more. -/
def nearlyFull : GenetTx where
  ring := ⟨fun _ ↦ [], fun _ ↦ (0, 0), fun _ ↦ ⟨0, 0, 0⟩, 63⟩
  txCidx := 0
  txKicked := 63
  txbInuse := 63
  running := true
  txCsum := 1
  txMore := false
  txPackets := 0
  txCompleted := 0
  prodIndex := 63
  consIndex := 3

theorem inOrder_nearlyFull : nearlyFull.InOrder :=
  ⟨0, 3, 63, 63, rfl, rfl, rfl, rfl, rfl, rfl, by decide, by decide, by decide, by decide⟩

/-- Of five frames four are posted, as they are one at a time. -/
theorem genetTxRun_eq_each_nearlyFull :
    (genetTxRun nearlyFull 0 5 fun _ ↦ tcpFrame).2.1 = 4 ∧
      (genetTxRun nearlyFull 0 5 fun _ ↦ tcpFrame).1.ring =
        (genetTxEach nearlyFull (batchFrames (fun _ ↦ tcpFrame) 0 0 5)).1.ring := by
  have hfill : ∀ f ∈ batchFrames (fun _ ↦ tcpFrame) 0 0 (5 : UInt16).toNat, BatchFrame f := by
    intro f hf
    obtain ⟨i, -, rfl⟩ := List.mem_map.mp hf
    exact batchFrame_tcpFrame
  exact ⟨by decide +kernel, (genetTxRun_eq_each inOrder_nearlyFull 0 5 hfill).1.1⟩

/-! ### Every run of the ring -/

/-- What happens to the ring: the chip sends a frame it was handed, the shell writes a frame or a
batch, sets the flags of the next write or ends a run, and a blank or an interrupt reclaims. -/
inductive TxEvent
  | send
  | tx (frame : List UInt8) (len : ℕ)
  | txRun (first count : UInt16) (fill : UInt16 → TxFrame)
  | flags (csum : UInt8) (more : Bool)
  | flush
  | reclaim

/-- One event. -/
def txStep (s : GenetTx) : TxEvent → Option GenetTx
  | .send =>
    if s.consIndex = s.prodIndex then none else some { s with consIndex := s.consIndex + 1 }
  | .tx frame len => some (genetTx s frame len).1
  | .txRun first count fill => some (genetTxRun s first count fill).1
  | .flags csum more => some { s with txCsum := csum, txMore := more }
  | .flush => some (geTxKick s)
  | .reclaim => some (geTxintr s)

/-- `ge_init_rings`, whatever the buffers hold. -/
def GenetTx.Initial (s : GenetTx) : Prop :=
  s.ring.txPidx = 0 ∧ s.txCidx = 0 ∧ s.txKicked = 0 ∧ s.txbInuse = 0 ∧ s.prodIndex = 0 ∧
    s.consIndex = 0

section Runs

variable {q r k p : ℕ} {s : GenetTx}

theorem TxCounted.inOrder_post (h : TxCounted q r k p s) (hroom : p < q + geTxRing)
    (frame : List UInt8) (len : ℕ) : (genetTxPost s frame len).InOrder := by
  rw [genetTxPost]
  obtain ⟨k', hnext⟩ := (h.posts (h.pidx_write _ _ _) hroom).kickDue.1
  exact ⟨q, r, k', p + 1, hnext⟩

/-- The loop of a run moves the producer index by the frames it posts, also where one is refused. -/
theorem txRunLoop_txPidx (fill : UInt16 → TxFrame) (first : UInt16) (csum : UInt8) (n done : ℕ)
    (last : Option (UInt32 × TxShape)) (ring : TxRing) :
    ∃ m ≤ n, (txRunLoop fill first csum n done last ring).2.1 = done + m ∧
      (txRunLoop fill first csum n done last ring).1.txPidx = ring.txPidx + UInt16.ofNat m := by
  induction n generalizing done last ring with
  | zero => exact ⟨0, Nat.le_refl 0, rfl, (UInt16.add_zero _).symm⟩
  | succ n ih =>
    have hnext {m : ℕ} {bytes : List UInt8} {len : ℕ} {info : UInt32} :
        (ring.write bytes len info).txPidx + UInt16.ofNat m =
          ring.txPidx + UInt16.ofNat (m + 1) := by
      change ring.txPidx + 1 + _ = _
      rw [ofNat_succ, UInt16.add_assoc, UInt16.add_comm 1]
    rw [txRunLoop]
    dsimp only
    split_ifs
    · exact ⟨0, Nat.zero_le _, rfl, (UInt16.add_zero _).symm⟩
    · obtain ⟨m, hm, hdone, hpidx⟩ := ih (done + 1) last _
      exact ⟨m + 1, Nat.succ_le_succ hm, by rw [hdone]; omega, hpidx.trans hnext⟩
    · obtain ⟨m, hm, hdone, hpidx⟩ := ih (done + 1) _ _
      exact ⟨m + 1, Nat.succ_le_succ hm, by rw [hdone]; omega, hpidx.trans hnext⟩

theorem TxCounted.inOrder_run (h : TxCounted q r k p s) (first count : UInt16)
    (fill : UInt16 → TxFrame) : (genetTxRun s first count fill).1.InOrder := by
  by_cases hrunning : s.running = true
  swap
  · rw [genetTxRun, if_neg hrunning]
    exact ⟨q, r, k, p, h⟩
  obtain ⟨⟨k', hcounted⟩, -⟩ := h.reclaim count
  obtain ⟨q', hq'⟩ : ∃ q', q' = if count.toNat ≤ q + geTxRing - p then q else r := ⟨_, rfl⟩
  obtain ⟨t, ht⟩ : ∃ t, t = txRunReclaim s count := ⟨_, rfl⟩
  rw [← hq', ← ht] at hcounted
  obtain ⟨m, hm, -, hpidx⟩ := txRunLoop_txPidx fill first t.txCsum
    (min count.toNat (64 - t.txbInuse).toNat) 0 none t.ring
  rw [hcounted.pidx, ← UInt16.ofNat_add] at hpidx
  have hfree := hcounted.free_toNat
  have hroom := hcounted.room
  have hposts := hcounted.posts hpidx (by omega)
  rw [genetTxRun_of_loop hrunning ht rfl rfl]
  dsimp only
  split_ifs
  · obtain ⟨k'', hkicked⟩ := hposts.kick
    exact ⟨q', r, k'', p + m, hkicked⟩
  · exact ⟨q', r, k', p + m, hposts⟩

theorem TxCounted.step (h : TxCounted q r k p s) {e : TxEvent} {s' : GenetTx}
    (hstep : txStep s e = some s') : s'.InOrder := by
  cases e with
  | send =>
    rw [txStep] at hstep
    split_ifs at hstep with hnone
    obtain rfl := Option.some.inj hstep
    -- the chip has not sent all it was handed
    have hlt : r < k := by
      rcases Nat.lt_or_eq_of_le h.sent with hlt | heq
      · exact hlt
      · exact absurd (h.cons.trans (heq ▸ h.prod.symm)) hnone
    refine ⟨q, r + 1, k, p, h.cidx, ?_, h.kicked, h.prod, h.pidx, h.inuse,
      Nat.le_succ_of_le h.known, hlt, h.posted, h.room⟩
    change s.consIndex + 1 = _
    rw [ofNat_succ, h.cons]
  | tx frame len =>
    obtain rfl := Option.some.inj hstep
    rw [genetTx]
    by_cases hrunning : s.running = true
    swap
    · rw [if_neg hrunning]
      exact ⟨q, r, k, p, h⟩
    rw [if_pos hrunning]
    obtain ⟨t, ht⟩ : ∃ t, t = if 64 ≤ s.txbInuse then geTxintr s else s := ⟨_, rfl⟩
    obtain ⟨q', hcounted⟩ : ∃ q', TxCounted q' r k p t := by
      rw [ht]
      split_ifs
      · exact ⟨r, h.txintr.1⟩
      · exact ⟨q, h⟩
    rw [← ht]
    dsimp only
    split_ifs with hfull
    · exact ⟨q', r, k, p, hcounted⟩
    · have hle := hcounted.room
      have hne : p ≠ q' + geTxRing := fun hp ↦ hfull (hcounted.full_iff.mpr hp)
      exact hcounted.inOrder_post (by omega) frame len
  | txRun first count fill =>
    obtain rfl := Option.some.inj hstep
    exact h.inOrder_run first count fill
  | flags csum more =>
    obtain rfl := Option.some.inj hstep
    exact ⟨q, r, k, p, { h with }⟩
  | flush =>
    obtain rfl := Option.some.inj hstep
    obtain ⟨k', hkicked⟩ := h.kick
    exact ⟨q, r, k', p, hkicked⟩
  | reclaim =>
    obtain rfl := Option.some.inj hstep
    exact ⟨r, r, k, p, h.txintr.1⟩

end Runs

/-- **The counters are in order in every run**, whatever is written and whenever the chip sends. -/
theorem inOrder_of_reachable {s : GenetTx} (h : Reachable txStep GenetTx.Initial s) :
    s.InOrder := by
  refine h.invariant (fun s₀ h₀ ↦ ?_) fun _ _ _ ⟨q, r, k, p, hs⟩ hstep ↦ hs.step hstep
  obtain ⟨hpidx, hcidx, hkicked, hinuse, hprod, hcons⟩ := h₀
  exact ⟨0, 0, 0, 0, hcidx, hcons, hkicked, hprod, hpidx, hinuse, Nat.le_refl 0, Nat.le_refl 0,
    Nat.le_refl 0, Nat.zero_le _⟩

/-- The ring as `ge_init_rings` leaves it. -/
def newRing : GenetTx :=
  { nearlyFull with
    ring := { nearlyFull.ring with txPidx := 0 }
    txKicked := 0
    txbInuse := 0
    prodIndex := 0
    consIndex := 0 }

/-- Two frames are written with the second still to be kicked, and the chip sends the first. -/
theorem inOrder_of_reachable_send :
    ∃ s, Reachable txStep GenetTx.Initial s ∧ s.consIndex = 1 ∧ s.ring.txPidx = 2 ∧ s.InOrder := by
  have hrun : ((run txStep newRing [.tx tcpFrame.bytes 60, .flags 1 true, .tx tcpFrame.bytes 60,
      .send]).any fun s ↦ decide (s.consIndex = 1 ∧ s.ring.txPidx = 2)) = true := by
    decide +kernel
  obtain ⟨s, hs, hsent⟩ := (Option.any_eq_true _ _).mp hrun
  obtain ⟨hcons, hpidx⟩ := of_decide_eq_true hsent
  have hreach : Reachable txStep GenetTx.Initial s :=
    ⟨newRing, _, ⟨rfl, rfl, rfl, rfl, rfl, rfl⟩, hs⟩
  exact ⟨s, hreach, hcons, hpidx, inOrder_of_reachable hreach⟩

end AmiNetXDuo.Netdev
