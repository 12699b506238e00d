import AmiNetXDuo.Basic
import AmiNetXDuo.Lib.OnesComplement

/-!
# The internet checksum of `n68k_checksum.c`

The sum of the longwords of a region, and `n68k_ip_checksum_compute` on a packet of one buffer.
Memory is a function from offsets to bytes; what lies behind a packet is whatever it is.

## Main definitions

* `Mem`, `rd16`, `rd32` : memory and its big-endian reads.
* `n68kSumLongwords` : the sum with end-around carry.
* `n68kIpChecksumCompute` : the checksum of the stack.

## Main results

* `n68kSumLongwords_modEq` : the sum counts its longwords modulo `65535`.
* `n68kIpChecksumCompute_eq_ffff_iff` : when the checksum of an aligned region is `0xFFFF`.
-/

namespace AmiNetXDuo.Net68k

open OnesComplement

/-- Memory, by offset from a pointer. -/
abbrev Mem := Nat → UByte

/-- `N68K_RD16(&p[i])`. -/
def rd16 (p : Mem) (i : Nat) : ULong :=
  (p i).setWidth 32 <<< 8 ||| (p (i + 1)).setWidth 32

/-- `N68K_RD32(&p[i])`. -/
def rd32 (p : Mem) (i : Nat) : ULong :=
  (p i).setWidth 32 <<< 24 ||| (p (i + 1)).setWidth 32 <<< 16 |||
    (p (i + 2)).setWidth 32 <<< 8 ||| (p (i + 3)).setWidth 32

/-- Bytes shifted in one by one: the low bits are free for the next one. -/
private theorem shiftLeft_or_toNat {a b : Nat} (hb : b < 256) : a <<< 8 ||| b = a * 256 + b := by
  rw [← Nat.shiftLeft_add_eq_or_of_lt (show b < 2 ^ 8 from hb), Nat.shiftLeft_eq]

theorem toNat_rd16 (p : Mem) (i : Nat) :
    (rd16 p i).toNat = (p i).toNat * 256 + (p (i + 1)).toNat := by
  have h₀ := (p i).isLt
  have h₁ := (p (i + 1)).isLt
  have hshift : (p i).toNat <<< 8 % 2 ^ 32 = (p i).toNat <<< 8 := by
    rw [Nat.shiftLeft_eq]
    omega
  simp only [rd16, BitVec.toNat_or, BitVec.toNat_shiftLeft, BitVec.toNat_setWidth,
    Nat.mod_eq_of_lt (show (p i).toNat < 2 ^ 32 by omega),
    Nat.mod_eq_of_lt (show (p (i + 1)).toNat < 2 ^ 32 by omega), hshift]
  exact shiftLeft_or_toNat h₁

/-- A longword is its two halves. -/
theorem rd32_eq (p : Mem) (i : Nat) : rd32 p i = rd16 p i <<< 16 ||| rd16 p (i + 2) := by
  rw [rd32, rd16, rd16, BitVec.shiftLeft_or_distrib, ← BitVec.shiftLeft_add]
  simp only [BitVec.or_assoc]

theorem toNat_rd16_lt (p : Mem) (i : Nat) : (rd16 p i).toNat < 65536 := by
  have h₀ := (p i).isLt
  have h₁ := (p (i + 1)).isLt
  rw [toNat_rd16]
  omega

theorem toNat_rd32 (p : Mem) (i : Nat) :
    (rd32 p i).toNat = (rd16 p i).toNat * 65536 + (rd16 p (i + 2)).toNat := by
  have h₀ := toNat_rd16_lt p i
  have h₁ := toNat_rd16_lt p (i + 2)
  have hshift : (rd16 p i).toNat <<< 16 % 2 ^ 32 = (rd16 p i).toNat <<< 16 := by
    rw [Nat.shiftLeft_eq]
    omega
  rw [rd32_eq, BitVec.toNat_or, BitVec.toNat_shiftLeft, hshift,
    ← Nat.shiftLeft_add_eq_or_of_lt h₁, Nat.shiftLeft_eq]

/-! ### The sum of a region -/

/-- The loop of `n68k_sum_longwords`: `count` longwords from offset `i` on. -/
def sumLongwordsLoop (p : Mem) (acc : ULong) (i : Nat) : Nat → ULong
  | 0 => acc
  | count + 1 => sumLongwordsLoop p (eac acc (rd32 p i)) (i + 4) count

/-- `n68k_sum_longwords`. -/
def n68kSumLongwords (p : Mem) (i count : Nat) : ULong := sumLongwordsLoop p 0 i count

/-- The longwords of a region, added up. -/
def longSum (p : Mem) (i : Nat) : Nat → Nat
  | 0 => 0
  | count + 1 => (rd32 p i).toNat + longSum p (i + 4) count

theorem longSum_add (p : Mem) (i m n : Nat) :
    longSum p i (m + n) = longSum p i m + longSum p (i + 4 * m) n := by
  induction m generalizing i with
  | zero => simp [longSum]
  | succ m ih =>
      rw [Nat.succ_add, longSum, longSum, ih, show i + 4 + 4 * m = i + 4 * (m + 1) by omega]
      omega

theorem longSum_congr {p q : Mem} {i n : Nat} (h : ∀ j, i ≤ j → j < i + 4 * n → p j = q j) :
    longSum p i n = longSum q i n := by
  induction n generalizing i with
  | zero => rfl
  | succ n ih =>
      have hword : rd32 p i = rd32 q i := by
        rw [rd32, rd32, h i (by omega) (by omega), h (i + 1) (by omega) (by omega),
          h (i + 2) (by omega) (by omega), h (i + 3) (by omega) (by omega)]
      rw [longSum, longSum, hword, ih fun j hj hj' ↦ h j (by omega) (by omega)]

theorem sumLongwordsLoop_modEq (p : Mem) (acc : ULong) (i n : Nat) :
    (sumLongwordsLoop p acc i n).toNat ≡ acc.toNat + longSum p i n [MOD 65535] := by
  induction n generalizing acc i with
  | zero => rfl
  | succ n ih =>
      have hstep := modEq_of_modEq_pow_sub_one (eac_modEq acc (rd32 p i))
      calc (sumLongwordsLoop p (eac acc (rd32 p i)) (i + 4) n).toNat
          ≡ (eac acc (rd32 p i)).toNat + longSum p (i + 4) n [MOD 65535] := ih _ _
        _ ≡ acc.toNat + (rd32 p i).toNat + longSum p (i + 4) n [MOD 65535] := hstep.add_right _
        _ = acc.toNat + longSum p i (n + 1) := by rw [longSum, Nat.add_assoc]

/-- **The sum of a region counts its longwords modulo `65535`.** -/
theorem n68kSumLongwords_modEq (p : Mem) (i n : Nat) :
    (n68kSumLongwords p i n).toNat ≡ longSum p i n [MOD 65535] := by
  simpa [n68kSumLongwords] using sumLongwordsLoop_modEq p 0 i n

/-- A sum is spelled `0` only when every longword is zero. -/
theorem sumLongwordsLoop_eq_zero {p : Mem} {acc : ULong} {i n : Nat}
    (h : sumLongwordsLoop p acc i n = 0) : acc = 0 ∧ longSum p i n = 0 := by
  induction n generalizing acc i with
  | zero => exact ⟨h, rfl⟩
  | succ n ih =>
      obtain ⟨hacc, hrest⟩ := ih h
      obtain ⟨hacc, hword⟩ := (eac_eq_zero_iff _ _).mp hacc
      exact ⟨hacc, by rw [longSum, hword, hrest]; rfl⟩

theorem n68kSumLongwords_eq_zero {p : Mem} {i n : Nat} (h : n68kSumLongwords p i n = 0) :
    longSum p i n = 0 :=
  (sumLongwordsLoop_eq_zero h).2

/-! ### The checksum of a packet -/

/-- `NX_PROTOCOL_ICMP`, `NX_PROTOCOL_IGMP`, `NX_PROTOCOL_TCP`, `NX_PROTOCOL_UDP`,
`NX_PROTOCOL_ICMPV6`. -/
def protocolIcmp : Nat := 1
def protocolIgmp : Nat := 2
def protocolTcp : Nat := 6
def protocolUdp : Nat := 17
def protocolIcmpv6 : Nat := 58

/-- `NX_IP_VERSION_V4`, `NX_IP_VERSION_V6`. -/
def ipVersionV4 : Nat := 4
def ipVersionV6 : Nat := 6

/-- `n68k_fold`. -/
def n68kFold (sum : ULong) : ULong :=
  let sum := (sum >>> 16) + (sum &&& 0xFFFF#32)
  (sum >>> 16) + (sum &&& 0xFFFF#32)

@[simp] theorem n68kFold_eq (sum : ULong) : n68kFold sum = fold sum := by
  simp only [n68kFold, fold, foldStep, BitVec.add_comm]

/-- The `i`-th half of an address, as the `USHORT` pointer reads it. -/
def half (addr : List ULong) (i : Nat) : ULong :=
  if i % 2 = 0 then addr.getD (i / 2) 0 >>> 16 else addr.getD (i / 2) 0 &&& 0xFFFF#32

theorem toNat_half_le (addr : List ULong) (i : Nat) : (half addr i).toNat ≤ 65535 := by
  unfold half
  have := (addr.getD (i / 2) 0).isLt
  split_ifs
  · rw [toNat_high]
    omega
  · rw [toNat_low]
    omega

/-- The pseudo header: the protocol, the halves of the addresses and the length. -/
def pseudoHeader (ipVersion protocol dataLength : Nat) (src dst : List ULong) : ULong :=
  let checksum : ULong := BitVec.ofNat 32 protocol
  let checksum := checksum + half src 0 + half src 1 + half dst 0 + half dst 1
  let checksum :=
    if ipVersion = ipVersionV6 then
      (List.range' 2 6).foldl (fun sum i ↦ sum + half dst i + half src i) checksum
    else checksum
  checksum + BitVec.ofNat 32 dataLength

/-- The sum of the pseudo header: the protocol, the words of the addresses and the length. -/
def pseudoHeaderSum (ipVersion protocol dataLength : Nat) (src dst : List ULong) : Nat :=
  let halves := if ipVersion = ipVersionV6 then 8 else 2
  protocol + ((List.range halves).map fun i ↦ (half src i).toNat + (half dst i).toNat).sum +
    dataLength

/-- The pseudo header, in 32 bits. -/
theorem toNat_pseudoHeader (ipVersion protocol dataLength : Nat) (src dst : List ULong) :
    (pseudoHeader ipVersion protocol dataLength src dst).toNat =
      pseudoHeaderSum ipVersion protocol dataLength src dst % 2 ^ 32 := by
  unfold pseudoHeader pseudoHeaderSum
  split_ifs
  · simp only [List.range', List.range, List.range.loop, List.foldl, List.map, List.sum_cons,
      List.sum_nil, Nat.reduceAdd, BitVec.toNat_add, BitVec.toNat_ofNat, Nat.mod_add_mod,
      Nat.add_mod_mod]
    congr 1
    omega
  · simp only [List.range, List.range.loop, List.map, List.sum_cons, List.sum_nil,
      BitVec.toNat_add, BitVec.toNat_ofNat, Nat.mod_add_mod, Nat.add_mod_mod]
    congr 1
    omega

/-- The halves of the addresses count at most `65535` each. -/
theorem pseudoHeaderSum_le (ipVersion protocol dataLength : Nat) (src dst : List ULong) :
    pseudoHeaderSum ipVersion protocol dataLength src dst ≤
      protocol + 16 * 65535 + dataLength := by
  have hsrc := toNat_half_le src
  have hdst := toNat_half_le dst
  have hs₄ := And.intro (And.intro (hsrc 0) (hsrc 1)) (And.intro (hsrc 2) (hsrc 3))
  have hs₈ := And.intro (And.intro (hsrc 4) (hsrc 5)) (And.intro (hsrc 6) (hsrc 7))
  have hd₄ := And.intro (And.intro (hdst 0) (hdst 1)) (And.intro (hdst 2) (hdst 3))
  have hd₈ := And.intro (And.intro (hdst 4) (hdst 5)) (And.intro (hdst 6) (hdst 7))
  unfold pseudoHeaderSum
  split_ifs
  all_goals
    simp only [List.range, List.range.loop, List.map, List.sum_cons, List.sum_nil]
    omega

/-- The last one, two or three bytes; the odd byte is zero padded. -/
def tailSum (p : Mem) (i : Nat) : Nat → ULong
  | 0 => 0
  | 1 => (p i).setWidth 32 <<< 8
  | 3 => rd16 p i + (p (i + 2)).setWidth 32 <<< 8
  | _ => rd16 p i

/-- `n68k_ip_checksum_compute` on a packet of one buffer: `p` is the memory behind the prepend
pointer, whose address is `prepend`; `append` is the address of the buffer's end. -/
def n68kIpChecksumCompute (p : Mem) (prepend append ipVersion protocol dataLength : Nat)
    (src dst : List ULong) : ULong :=
  let checksum : ULong :=
    if protocol = protocolUdp ∨ protocol = protocolIcmpv6 ∨ protocol = protocolTcp then
      n68kFold (pseudoHeader ipVersion protocol dataLength src dst)
    else 0
  let packetSize := append - prepend
  let endPtr :=
    if packetSize < dataLength then append - append % 4 else prepend + dataLength - 3
  let checksum :=
    if prepend < endPtr then
      let consumed := endPtr + 3 - (endPtr + 3) % 4 - prepend
      let words := (endPtr - prepend + 3) / 4
      checksum + n68kFold (n68kSumLongwords p 0 words)
        + tailSum p (4 * words) (dataLength - consumed)
    else checksum + tailSum p 0 dataLength
  n68kFold checksum

/-! ### The value of the checksum -/

/-- Memory that reads as zero from offset `len` on. -/
def Mem.clip (p : Mem) (len : Nat) : Mem := fun i ↦ if i < len then p i else 0

theorem Mem.clip_of_lt (p : Mem) {len i : Nat} (h : i < len) : p.clip len i = p i := if_pos h

theorem Mem.clip_of_le (p : Mem) {len i : Nat} (h : len ≤ i) : p.clip len i = 0 :=
  if_neg (by omega)

/-- A region of `len` bytes at offset `i`, its last longword zero padded, added up. -/
def regionSum (p : Mem) (i len : Nat) : Nat := longSum (p.clip (i + len)) i ((len + 3) / 4)

/-- The whole longwords of a region and its padded rest. -/
theorem regionSum_eq (p : Mem) (i len : Nat) :
    regionSum p i len = longSum p i (len / 4) +
      if len % 4 = 0 then 0 else (rd32 (p.clip (i + len)) (i + 4 * (len / 4))).toNat := by
  have hwhole : longSum (p.clip (i + len)) i (len / 4) = longSum p i (len / 4) :=
    longSum_congr fun j _ hj ↦ p.clip_of_lt (by omega)
  unfold regionSum
  split_ifs with hrest
  · rw [show (len + 3) / 4 = len / 4 by omega, hwhole, Nat.add_zero]
  · rw [show (len + 3) / 4 = len / 4 + 1 by omega, longSum_add, hwhole]
    simp [longSum]

/-- A byte in the high half of a word. -/
private theorem toNat_highByte (b : UByte) :
    (b.setWidth 32 <<< 8 : ULong).toNat = b.toNat * 256 := by
  have hb := b.isLt
  rw [BitVec.toNat_shiftLeft, BitVec.toNat_setWidth, Nat.shiftLeft_eq]
  omega

theorem toNat_tailSum (p : Mem) (i : Nat) {len : Nat} (hlen : len < 4) :
    (tailSum p i len).toNat =
      if len = 0 then 0
      else (rd16 (p.clip (i + len)) i).toNat + (rd16 (p.clip (i + len)) (i + 2)).toNat := by
  have hin {j : Nat} (hj : j < i + len) := p.clip_of_lt hj
  have hout {j : Nat} (hj : i + len ≤ j) := p.clip_of_le hj
  have hzero : (0 : UByte).toNat = 0 := rfl
  obtain rfl | rfl | rfl | rfl : len = 0 ∨ len = 1 ∨ len = 2 ∨ len = 3 := by omega
  · rfl
  · rw [if_neg (by decide), toNat_rd16, toNat_rd16, hin (by omega), hout (by omega),
      hout (by omega), hout (by omega), tailSum, toNat_highByte, hzero]
    omega
  · rw [if_neg (by decide), toNat_rd16, toNat_rd16, hin (by omega), hin (by omega),
      hout (by omega), hout (by omega), tailSum, toNat_rd16, hzero]
    · omega
    all_goals decide
  · have h₀ := toNat_rd16_lt p i
    have h₂ := (p (i + 2)).isLt
    rw [if_neg (by decide), toNat_rd16, toNat_rd16, hin (by omega), hin (by omega),
      hin (by omega), hout (by omega), tailSum, BitVec.toNat_add, toNat_highByte, hzero,
      ← toNat_rd16, Nat.mod_eq_of_lt (by omega)]
    omega

theorem tailSum_modEq (p : Mem) (i : Nat) {len : Nat} (hlen : len < 4) :
    (tailSum p i len).toNat ≡
      if len = 0 then 0 else (rd32 (p.clip (i + len)) i).toNat [MOD 65535] := by
  rw [toNat_tailSum p i hlen]
  split_ifs
  · rfl
  · rw [toNat_rd32]
    unfold Nat.ModEq
    omega

/-- The checksum of an aligned region inside one buffer: its pseudo header, its longwords and its
rest. -/
theorem n68kIpChecksumCompute_eq {p : Mem} {prepend append ipVersion protocol dataLength : Nat}
    {src dst : List ULong} (haligned : prepend % 4 = 0) (hnonnull : 0 < prepend)
    (hfits : prepend + dataLength ≤ append) :
    n68kIpChecksumCompute p prepend append ipVersion protocol dataLength src dst =
      fold ((if protocol = protocolUdp ∨ protocol = protocolIcmpv6 ∨ protocol = protocolTcp then
          fold (pseudoHeader ipVersion protocol dataLength src dst) else 0) +
        fold (n68kSumLongwords p 0 (dataLength / 4)) +
        tailSum p (4 * (dataLength / 4)) (dataLength % 4)) := by
  unfold n68kIpChecksumCompute
  simp only [n68kFold_eq, if_neg (show ¬append - prepend < dataLength by omega)]
  by_cases hlong : prepend < prepend + dataLength - 3
  · have hwords : (prepend + dataLength - 3 - prepend + 3) / 4 = dataLength / 4 := by omega
    have hrest : dataLength - (prepend + dataLength - 3 + 3 -
        (prepend + dataLength - 3 + 3) % 4 - prepend) = dataLength % 4 := by omega
    rw [if_pos hlong, hwords, hrest]
  · have hzero : fold (n68kSumLongwords p 0 0) = 0#32 := by
      rw [n68kSumLongwords, sumLongwordsLoop]
      decide
    rw [if_neg hlong, show dataLength / 4 = 0 by omega, show dataLength % 4 = dataLength by omega,
      hzero, BitVec.add_zero]

/-- **When the checksum of an aligned region is `0xFFFF`.**  The pseudo header and the region add
up to a multiple of `65535`, and not everything is zero. -/
theorem n68kIpChecksumCompute_eq_ffff_iff {p : Mem}
    {prepend append ipVersion protocol dataLength : Nat} {src dst : List ULong} (pseudo : Nat)
    (haligned : prepend % 4 = 0) (hnonnull : 0 < prepend)
    (hfits : prepend + dataLength ≤ append)
    (hpseudo : (if protocol = protocolUdp ∨ protocol = protocolIcmpv6 ∨ protocol = protocolTcp then
      (pseudoHeader ipVersion protocol dataLength src dst).toNat else 0) = pseudo)
    (hpos : pseudo ≠ 0 ∨ longSum p 0 (dataLength / 4) ≠ 0) :
    n68kIpChecksumCompute p prepend append ipVersion protocol dataLength src dst = 0xFFFF#32 ↔
      pseudo + regionSum p 0 dataLength ≡ 0 [MOD 65535] := by
  rw [n68kIpChecksumCompute_eq haligned hnonnull hfits, fold_eq_ffff_iff]
  have hpre : ∃ s : ULong, s.toNat = pseudo ∧
      (if protocol = protocolUdp ∨ protocol = protocolIcmpv6 ∨ protocol = protocolTcp then
        fold (pseudoHeader ipVersion protocol dataLength src dst) else 0) = fold s := by
    split_ifs at hpseudo ⊢
    · exact ⟨_, hpseudo, rfl⟩
    · exact ⟨0, hpseudo, by decide⟩
  obtain ⟨s, rfl, hs⟩ := hpre
  rw [hs]
  have hsum := toNat_fold_le s
  have hlongs := toNat_fold_le (n68kSumLongwords p 0 (dataLength / 4))
  have htail : (tailSum p (4 * (dataLength / 4)) (dataLength % 4)).toNat ≤ 2 * 65535 := by
    have h₀ := toNat_rd16_lt (p.clip (4 * (dataLength / 4) + dataLength % 4)) (4 * (dataLength / 4))
    have h₂ := toNat_rd16_lt (p.clip (4 * (dataLength / 4) + dataLength % 4))
      (4 * (dataLength / 4) + 2)
    rw [toNat_tailSum p _ (by omega)]
    split_ifs <;> omega
  have htoNat : (fold s + fold (n68kSumLongwords p 0 (dataLength / 4)) +
      tailSum p (4 * (dataLength / 4)) (dataLength % 4)).toNat =
      (fold s).toNat + (fold (n68kSumLongwords p 0 (dataLength / 4))).toNat +
        (tailSum p (4 * (dataLength / 4)) (dataLength % 4)).toNat := by
    rw [BitVec.toNat_add, BitVec.toNat_add, Nat.mod_add_mod, Nat.mod_eq_of_lt (by omega)]
  have hmod : (fold s).toNat + (fold (n68kSumLongwords p 0 (dataLength / 4))).toNat +
      (tailSum p (4 * (dataLength / 4)) (dataLength % 4)).toNat ≡
      s.toNat + regionSum p 0 dataLength [MOD 65535] := by
    rw [regionSum_eq, ← Nat.add_assoc]
    refine Nat.ModEq.add (Nat.ModEq.add (fold_modEq s)
      ((fold_modEq _).trans (n68kSumLongwords_modEq ..))) ?_
    have := tailSum_modEq p (4 * (dataLength / 4)) (Nat.mod_lt dataLength (by decide : 4 > 0))
    rw [Nat.div_add_mod] at this
    simpa only [Nat.zero_add] using this
  -- the sum is not the spelling `0` of zero
  have hne : (fold s).toNat + (fold (n68kSumLongwords p 0 (dataLength / 4))).toNat +
      (tailSum p (4 * (dataLength / 4)) (dataLength % 4)).toNat ≠ 0 := by
    intro hzero
    rcases hpos with hpos | hpos
    · exact hpos ((toNat_fold_eq_zero_iff s).mp (by omega))
    · have hlong := (toNat_fold_eq_zero_iff (n68kSumLongwords p 0 (dataLength / 4))).mp (by omega)
      exact hpos (n68kSumLongwords_eq_zero (BitVec.eq_of_toNat_eq hlong))
  rw [htoNat]
  exact ⟨fun h ↦ hmod.symm.trans h.2, fun h ↦ ⟨hne, hmod.trans h⟩⟩

theorem longSum_shift (p : Mem) (off i n : Nat) :
    longSum (fun j ↦ p (off + j)) i n = longSum p (off + i) n := by
  induction n generalizing i with
  | zero => rfl
  | succ n ih =>
      rw [longSum, longSum, ih]
      rfl

/-- A region seen from a pointer into memory. -/
theorem regionSum_shift (p : Mem) (off len : Nat) :
    regionSum (fun j ↦ p (off + j)) 0 len = regionSum p off len := by
  have hclip : Mem.clip (fun j ↦ p (off + j)) (0 + len) =
      fun j ↦ p.clip (off + len) (off + j) := by
    funext j
    simp only [Mem.clip, Nat.zero_add, Nat.add_lt_add_iff_left]
  rw [regionSum, hclip, longSum_shift]
  rfl

/-- A region cut at a longword. -/
theorem regionSum_split (p : Mem) (i m len : Nat) :
    regionSum p i (4 * m + len) = longSum p i m + regionSum p (i + 4 * m) len := by
  rw [regionSum_eq, regionSum_eq, show (4 * m + len) / 4 = m + len / 4 by omega, longSum_add,
    show (4 * m + len) % 4 = len % 4 by omega, Nat.add_assoc,
    show i + (4 * m + len) = i + 4 * m + len by omega,
    show i + 4 * (m + len / 4) = i + 4 * m + 4 * (len / 4) by omega]

end AmiNetXDuo.Net68k
