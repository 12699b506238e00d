import AmiNetXDuo.Net68k.RxVerify

/-!
# The two receive verifiers agree

`n68k_rx_verify_sum` reaches its verdict from the sum of the whole frame that the copy has carried,
and `n68k_rx_verify` from a walk over the transport.  Modulo `65535` the carried sum is the sum of
the header and of the transport, a valid IPv4 header counts as zero, and a word counts as the sum
of its halves, so that the two agree wherever the sum does not overflow.  The IPv4 path adds the
protocol and the length without a carry around; a sum that overflows there belongs to a frame that
both refuse.

## Main definitions

* `carriedSum` : the sum of the first bytes of a frame.

## Main results

* `n68kRxVerifySum_eq_n68kRxVerify` : the two verifiers agree.
-/

namespace AmiNetXDuo.Net68k

open OnesComplement

/-- The sum that the copy of `copied` bytes carries: longwords with end-around carry, the last one
zero padded. -/
def carriedSum (p : Mem) (copied : Nat) : ULong :=
  n68kSumLongwords (p.clip copied) 0 ((copied + 3) / 4)

theorem carriedSum_modEq (p : Mem) (copied : Nat) :
    (carriedSum p copied).toNat ≡ regionSum p 0 copied [MOD 65535] := by
  simpa only [regionSum, carriedSum, Nat.zero_add] using
    n68kSumLongwords_modEq (p.clip copied) 0 ((copied + 3) / 4)

/-! ### Sums that pass -/

theorem n68kRxSumOk_eq_true_iff (packet : RxPacket) (ipVersion off protocol length : Nat)
    (src dst : List ULong) :
    n68kRxSumOk packet ipVersion off protocol length src dst = true ↔
      n68kIpChecksumCompute (fun j ↦ packet.mem (off + j)) (packet.prepend + off)
        (packet.prepend + packet.length) ipVersion protocol length src dst = 0xFFFF#32 := by
  have hfold : ∃ s, n68kIpChecksumCompute (fun j ↦ packet.mem (off + j)) (packet.prepend + off)
      (packet.prepend + packet.length) ipVersion protocol length src dst = fold s :=
    ⟨_, n68kFold_eq _⟩
  obtain ⟨s, hs⟩ := hfold
  have hle := toNat_fold_le s
  rw [n68kRxSumOk, hs, decide_eq_true_eq, ← BitVec.toNat_inj, ← BitVec.toNat_inj (x := fold s),
    BitVec.toNat_and, BitVec.toNat_not]
  have hmask : (2 ^ 32 - 1 - (fold s).toNat) &&& (0xFFFF#32).toNat =
      (2 ^ 32 - 1 - (fold s).toNat) % 65536 := Nat.and_two_pow_sub_one_eq_mod _ 16
  rw [hmask]
  change _ = 0 ↔ _ = 65535
  omega

/-! ### The pseudo header -/

theorem half_even (addr : List ULong) (k : Nat) :
    (half addr (2 * k)).toNat = (addr.getD k 0).toNat / 65536 := by
  rw [half, if_pos (by omega), show 2 * k / 2 = k by omega, toNat_high]

theorem half_odd (addr : List ULong) (k : Nat) :
    (half addr (2 * k + 1)).toNat = (addr.getD k 0).toNat % 65536 := by
  rw [half, if_neg (by omega), show (2 * k + 1) / 2 = k by omega, toNat_low]

/-- The halves of a longword of an address count as the longword. -/
theorem half_add_half_modEq (addr : List ULong) (k : Nat) :
    (half addr (2 * k)).toNat + (half addr (2 * k + 1)).toNat ≡
      (addr.getD k 0).toNat [MOD 65535] := by
  rw [half_even, half_odd, Nat.add_comm]
  exact low_add_high_modEq _

/-- A short packet's pseudo header does not overflow. -/
theorem toNat_pseudoHeader_of_lt (ipVersion : Nat) {protocol dataLength : Nat}
    (src dst : List ULong) (hprotocol : protocol < 256) (hlength : dataLength < 65536) :
    (pseudoHeader ipVersion protocol dataLength src dst).toNat =
      pseudoHeaderSum ipVersion protocol dataLength src dst := by
  have hle := pseudoHeaderSum_le ipVersion protocol dataLength src dst
  rw [toNat_pseudoHeader, Nat.mod_eq_of_lt (by omega)]

/-- The pseudo header of IPv4 counts its four fields. -/
theorem pseudoHeader_modEq_v4 {ipVersion protocol dataLength : Nat} (src dst : ULong)
    (hversion : ipVersion ≠ ipVersionV6) (hprotocol : protocol < 256)
    (hlength : dataLength < 65536) :
    (pseudoHeader ipVersion protocol dataLength [src] [dst]).toNat ≡
        protocol + dataLength + src.toNat + dst.toNat [MOD 65535] ∧
      protocol ≤ (pseudoHeader ipVersion protocol dataLength [src] [dst]).toNat := by
  rw [toNat_pseudoHeader_of_lt _ _ _ hprotocol hlength, pseudoHeaderSum, if_neg hversion]
  have hsum := ((half_add_half_modEq [src] 0).add_left (protocol + dataLength)).add
    (half_add_half_modEq [dst] 0)
  simp only [List.range, List.range.loop, List.map, List.sum_cons, List.sum_nil]
  refine ⟨Eq.trans (congrArg (· % 65535) ?_) hsum, by omega⟩
  simp only [Nat.mul_zero, Nat.zero_add]
  omega

/-- The pseudo header of IPv6 counts its addresses, which are eight longwords of the header. -/
theorem pseudoHeader_modEq_v6 {protocol dataLength : Nat} (s₀ s₁ s₂ s₃ d₀ d₁ d₂ d₃ : ULong)
    (hprotocol : protocol < 256) (hlength : dataLength < 65536) :
    (pseudoHeader ipVersionV6 protocol dataLength [s₀, s₁, s₂, s₃] [d₀, d₁, d₂, d₃]).toNat ≡
        protocol + dataLength + (s₀.toNat + s₁.toNat + s₂.toNat + s₃.toNat) +
          (d₀.toNat + d₁.toNat + d₂.toNat + d₃.toNat) [MOD 65535] ∧
      protocol ≤
        (pseudoHeader ipVersionV6 protocol dataLength [s₀, s₁, s₂, s₃] [d₀, d₁, d₂, d₃]).toNat := by
  rw [toNat_pseudoHeader_of_lt _ _ _ hprotocol hlength, pseudoHeaderSum, if_pos rfl]
  have haddr (addr : List ULong) := (((half_add_half_modEq addr 0).add
    (half_add_half_modEq addr 1)).add (half_add_half_modEq addr 2)).add (half_add_half_modEq addr 3)
  have hsum := ((haddr [s₀, s₁, s₂, s₃]).add_left (protocol + dataLength)).add
    (haddr [d₀, d₁, d₂, d₃])
  simp only [List.range, List.range.loop, List.map, List.sum_cons, List.sum_nil]
  refine ⟨Eq.trans (congrArg (· % 65535) ?_) hsum, by omega⟩
  simp only [Nat.reduceMul, Nat.reduceAdd]
  omega

/-! ### IPv4 -/

theorem zero_eac (w : ULong) : eac 0 w = w := by
  apply BitVec.eq_of_toNat_eq
  have hw := w.isLt
  rw [toNat_eac, show (0 : ULong).toNat = 0 from rfl, Nat.zero_add, if_pos hw]

/-- The header sum that is written out is the sum of five longwords. -/
theorem headSum_eq (ip : Mem) (ihl : Nat) : headSum ip ihl = n68kSumLongwords ip 0 (ihl / 4) := by
  unfold headSum
  split_ifs with hihl
  · rw [hihl]
    simp only [n68kSumLongwords, sumLongwordsLoop, Nat.reduceDiv, zero_eac]
  · rfl

/-- The first longword of an IPv4 header is not zero. -/
theorem longSum_ne_zero_of_version {ip : Mem} {n : Nat} (hversion : ip 0 >>> 4 = 4#8)
    (hn : 0 < n) : longSum ip 0 n ≠ 0 := by
  obtain ⟨n, rfl⟩ : ∃ m, n = m + 1 := ⟨n - 1, by omega⟩
  have hbyte : (ip 0).toNat ≠ 0 := by
    intro hzero
    rw [BitVec.eq_of_toNat_eq (x := ip 0) (y := 0) hzero] at hversion
    exact absurd hversion (by decide)
  rw [longSum, toNat_rd32, toNat_rd16]
  omega

/-- Both verifiers say the same about an IPv4 header. -/
theorem fold_headSum_eq_ffff_iff {packet : RxPacket} {ihl : Nat}
    (haligned : packet.prepend % 4 = 0) (hversion : packet.mem 0 >>> 4 = 4#8)
    (hihl : 20 ≤ ihl) (hwords : ihl % 4 = 0) (hle : ihl ≤ packet.length) :
    (n68kRxvFold (headSum packet.mem ihl) = 0xFFFF#32 ↔
      longSum packet.mem 0 (ihl / 4) ≡ 0 [MOD 65535]) ∧
    (n68kRxSumOk packet packet.ipVersion 0 ipVersionV4 ihl [] [] = true ↔
      longSum packet.mem 0 (ihl / 4) ≡ 0 [MOD 65535]) := by
  have hne := longSum_ne_zero_of_version hversion (n := ihl / 4) (by omega)
  constructor
  · rw [n68kRxvFold, headSum_eq, fold_eq_ffff_iff]
    have hmod := n68kSumLongwords_modEq packet.mem 0 (ihl / 4)
    refine ⟨fun h ↦ hmod.symm.trans h.2, fun h ↦ ⟨fun hzero ↦ hne ?_, hmod.trans h⟩⟩
    exact n68kSumLongwords_eq_zero (BitVec.eq_of_toNat_eq hzero)
  · have hregion : regionSum packet.mem 0 ihl = longSum packet.mem 0 (ihl / 4) := by
      rw [regionSum_eq, if_pos hwords, Nat.add_zero]
    rw [n68kRxSumOk_eq_true_iff, n68kIpChecksumCompute_eq_ffff_iff 0 (by simpa)
      (by have := packet.nonnull; omega) (by omega) (if_neg (by decide)) (.inr ?_)]
    · rw [regionSum_shift, hregion, Nat.zero_add]
    · rwa [longSum_shift]

/-- The two addresses go into the sum whole. -/
theorem eac_eac_modEq (carried src dst : ULong) :
    (eac (eac carried src) dst).toNat ≡ carried.toNat + src.toNat + dst.toNat [MOD 65535] :=
  (modEq_of_modEq_pow_sub_one (eac_modEq _ _)).trans
    ((modEq_of_modEq_pow_sub_one (eac_modEq _ _)).add_right _)

/-- The transport verdict on the carried sum of an IPv4 frame whose header is right. -/
theorem fold_carried_eq_ffff_iff {ip : Mem} {ihl protocol payload : Nat} {src dst : ULong}
    (hwords : ihl % 4 = 0) (hprotocol : 0 < protocol) (hsmall : protocol + payload < 65535)
    (hhead : longSum ip 0 (ihl / 4) ≡ 0 [MOD 65535]) :
    n68kRxvFold (eac (eac (carriedSum ip (ihl + payload)) src) dst + BitVec.ofNat 32 protocol +
        BitVec.ofNat 32 payload) = 0xFFFF#32 ↔
      protocol + payload + src.toNat + dst.toNat + regionSum ip ihl payload ≡ 0 [MOD 65535] := by
  have hsplit : regionSum ip 0 (ihl + payload) =
      longSum ip 0 (ihl / 4) + regionSum ip ihl payload := by
    have := regionSum_split ip 0 (ihl / 4) payload
    rwa [show 4 * (ihl / 4) = ihl by omega, Nat.zero_add] at this
  have hcarried : (carriedSum ip (ihl + payload)).toNat ≡ regionSum ip ihl payload [MOD 65535] := by
    refine (carriedSum_modEq ip _).trans ?_
    rw [hsplit]
    simpa only [Nat.zero_add] using hhead.add_right (regionSum ip ihl payload)
  have hsum : (eac (eac (carriedSum ip (ihl + payload)) src) dst).toNat + (protocol + payload) ≡
      protocol + payload + src.toNat + dst.toNat + regionSum ip ihl payload [MOD 65535] := by
    have := ((eac_eac_modEq (carriedSum ip (ihl + payload)) src dst).trans
      ((hcarried.add_right _).add_right _)).add_right (protocol + payload)
    convert this using 1
    omega
  rw [BitVec.add_assoc, ← BitVec.ofNat_add, n68kRxvFold,
    fold_add_eq_ffff_iff _ (by omega) hsmall]
  exact ⟨hsum.symm.trans, hsum.trans⟩

/-- The transport verdict of the walk over an IPv4 frame. -/
theorem n68kRxSumOk_v4_iff {packet : RxPacket} {ihl protocol payload : Nat} {src dst : ULong}
    (haligned : packet.prepend % 4 = 0) (hwords : ihl % 4 = 0)
    (hfits : ihl + payload ≤ packet.length)
    (hprotocol : protocol = protocolTcp ∨ protocol = protocolUdp) (hpayload : payload < 65536) :
    n68kRxSumOk packet packet.ipVersion ihl protocol payload [src] [dst] = true ↔
      protocol + payload + src.toNat + dst.toNat + regionSum packet.mem ihl payload ≡
        0 [MOD 65535] := by
  have hnonnull := packet.nonnull
  have hpos : 0 < protocol ∧ protocol < 256 := by
    rcases hprotocol with rfl | rfl <;> decide
  obtain ⟨hpseudo, hle⟩ := pseudoHeader_modEq_v4 src dst packet.fresh hpos.2 hpayload
  rw [n68kRxSumOk_eq_true_iff, n68kIpChecksumCompute_eq_ffff_iff _ (by omega) (by omega) (by omega)
    (if_pos (by tauto)) (.inl (by omega)), regionSum_shift]
  have hall := hpseudo.add_right (regionSum packet.mem ihl payload)
  exact ⟨hall.symm.trans, hall.trans⟩

/-- A check decides the same on both sides when it says the same. -/
theorem ite_check_congr {A : Prop} [Decidable A] {a : Bool} {α : Type} {bad good good' : α}
    (hA : A ↔ a = true) (hgood : A → good = good') :
    (if ¬A then bad else good) = if !a then bad else good' := by
  by_cases h : A
  · rw [hA.mp h, if_neg (not_not.mpr h), hgood h]
    rfl
  · rw [Bool.eq_false_of_not_eq_true (mt hA.mpr h), if_pos h]
    rfl

/-- What the walk does with a TCP or UDP frame over IPv4 that passes the tests of its shape. -/
theorem n68kRxVerify_of_v4 {packet : RxPacket} {ihl payload : Nat}
    (hlength : ¬packet.length < 20) (hversion : packet.mem 0 >>> 4 = 4#8)
    (hihl : (packet.mem 0 &&& 0x0f#8).toNat * 4 = ihl) (hmin : 20 ≤ ihl)
    (htotal : (rd16 packet.mem 2).toNat = ihl + payload) (hfits : ihl + payload ≤ packet.length)
    (hfrag : ¬rd16 packet.mem 6 &&& 0x3FFF#32 ≠ 0)
    (hprotocol : (packet.mem 9).toNat = protocolTcp ∨ (packet.mem 9).toNat = protocolUdp)
    (hudp : ¬((packet.mem 9).toNat = protocolUdp ∧
      (payload < 8 ∨ (rd16 packet.mem (ihl + 4)).toNat ≠ payload)))
    (hsum : ¬((packet.mem 9).toNat = protocolUdp ∧ payload ≥ 8 ∧ rd16 packet.mem (ihl + 6) = 0)) :
    n68kRxVerify packet =
      if !n68kRxSumOk packet packet.ipVersion 0 ipVersionV4 ihl [] [] then ⟨[], true⟩
      else if !n68kRxSumOk packet packet.ipVersion ihl (packet.mem 9).toNat payload
          [rd32 packet.mem 12] [rd32 packet.mem 16] then ⟨[], true⟩
      else ⟨[.ipv4RxChecksum, transportBit (packet.mem 9).toNat], false⟩ := by
  have hpseudo : ¬((packet.mem 9).toNat = protocolIcmp ∨ (packet.mem 9).toNat = protocolIgmp) := by
    rcases hprotocol with h | h <;> rw [h] <;> decide
  have hknown : (packet.mem 9).toNat = protocolTcp ∨ (packet.mem 9).toNat = protocolUdp ∨
      (packet.mem 9).toNat = protocolIcmp ∨ (packet.mem 9).toNat = protocolIgmp := by tauto
  have hnot6 : ¬packet.mem 0 >>> 4 = 6#8 := by
    rw [hversion]
    decide
  simp only [n68kRxVerify, verifyTransport, hihl, htotal, if_neg hlength, if_neg hnot6,
    if_neg (not_not.mpr hversion), if_neg (show ¬(ihl < 20 ∨ ihl > packet.length) by omega),
    if_neg (show ¬(ihl + payload < ihl ∨ ihl + payload > packet.length) by omega), if_neg hfrag,
    Nat.add_sub_cancel_left, if_neg (not_not.mpr hknown), if_neg hudp, if_neg hsum, if_neg hpseudo]
  rfl

/-- **The two verifiers agree on an IPv4 frame.** -/
theorem n68kRxVerifySum_eq_of_v4 {packet : RxPacket} {copied : Nat}
    (haligned : packet.prepend % 4 = 0) (hlength : ¬packet.length < 20)
    (hversion : packet.mem 0 >>> 4 = 4#8) :
    n68kRxVerifySum packet (carriedSum packet.mem copied) copied = n68kRxVerify packet := by
  have hnot6 : ¬packet.mem 0 >>> 4 = 6#8 := by
    rw [hversion]
    decide
  have heven : ¬(!n68kRxvEven packet.prepend) = true := by
    simp [n68kRxvEven, haligned]
  generalize hihl : (packet.mem 0 &&& 0x0f#8).toNat * 4 = ihl
  simp only [n68kRxVerifySum, hihl, if_neg hlength, if_neg hnot6, if_neg (not_not.mpr hversion),
    if_neg heven]
  by_cases hshape : ihl < 20 ∨ (rd16 packet.mem 2).toNat < ihl ∨
      (rd16 packet.mem 2).toNat > packet.length ∨ copied ≠ (rd16 packet.mem 2).toNat
  · rw [if_pos hshape]
  rw [if_neg hshape]
  obtain ⟨payload, htotal⟩ : ∃ payload, (rd16 packet.mem 2).toNat = ihl + payload :=
    ⟨(rd16 packet.mem 2).toNat - ihl, by omega⟩
  obtain rfl : copied = ihl + payload := by omega
  have hrd := toNat_rd16_lt packet.mem 2
  simp only [htotal, Nat.add_sub_cancel_left]
  by_cases hkind : ((packet.mem 9).toNat ≠ protocolTcp ∧ (packet.mem 9).toNat ≠ protocolUdp) ∨
      rd16 packet.mem 6 &&& 0x3FFF#32 ≠ 0
  · rw [if_pos hkind]
  rw [if_neg hkind]
  simp only [not_or] at hkind
  have hprotocol : (packet.mem 9).toNat = protocolTcp ∨ (packet.mem 9).toNat = protocolUdp := by
    tauto
  by_cases hudp : (packet.mem 9).toNat = protocolUdp ∧
      (payload < 8 ∨ (rd16 packet.mem (ihl + 4)).toNat ≠ payload)
  · rw [if_pos hudp]
  by_cases hnosum : (packet.mem 9).toNat = protocolUdp ∧ payload ≥ 8 ∧
      rd16 packet.mem (ihl + 6) = 0
  · rw [if_neg hudp, if_pos hnosum]
  rw [if_neg hudp, if_neg hnosum, n68kRxVerify_of_v4 hlength hversion hihl (by omega) htotal
    (by omega) hkind.2 hprotocol hudp hnosum]
  have hbit : (if (packet.mem 9).toNat = protocolTcp then Capability.tcpRxChecksum
      else .udpRxChecksum) = transportBit (packet.mem 9).toNat := by
    rcases hprotocol with h | h <;> rw [h] <;> decide
  have hpos : 0 < (packet.mem 9).toNat ∧ (packet.mem 9).toNat ≤ 17 := by
    rcases hprotocol with h | h <;> rw [h] <;> decide
  obtain ⟨hfast, hwalk⟩ := fold_headSum_eq_ffff_iff haligned hversion (by omega)
    (show ihl % 4 = 0 by omega) (by omega)
  rw [hbit]
  refine ite_check_congr (hfast.trans hwalk.symm) fun hhead ↦ ite_check_congr ?_ fun _ ↦ rfl
  exact (fold_carried_eq_ffff_iff (by omega) hpos.1 (by omega) (hfast.mp hhead)).trans
    (n68kRxSumOk_v4_iff haligned (by omega) (by omega) hprotocol (by omega)).symm

/-! ### IPv6 -/

/-- The walk over the extension headers only moves forward, and ends at a transport. -/
theorem chainLoop_eq_some {ip : Mem} {end' next at' room protocol offset : Nat}
    (h : chainLoop ip end' next at' room = some (protocol, offset)) :
    at' ≤ offset ∧
      (protocol = protocolTcp ∨ protocol = protocolUdp ∨ protocol = protocolIcmpv6) := by
  induction room generalizing next at' with
  | zero =>
      rw [chainLoop] at h
      split_ifs at h with hnext
      cases h
      exact ⟨Nat.le_refl _, hnext⟩
  | succ room ih =>
      rw [chainLoop] at h
      split_ifs at h with hnext
      · cases h
        exact ⟨Nat.le_refl _, hnext⟩
      · split at h
        · cases h
        · split_ifs at h
          obtain ⟨hle, hprotocol⟩ := ih h
          exact ⟨by omega, hprotocol⟩

theorem n68kRxv6Shape_eq_some {ip : Mem} {length : Nat} {shape : V6Shape}
    (h : n68kRxv6Shape ip length = some shape) :
    40 ≤ shape.offset ∧ shape.offset + shape.payload ≤ length ∧ shape.payload < 65536 ∧
      (shape.protocol = protocolTcp ∨ shape.protocol = protocolUdp ∨
        shape.protocol = protocolIcmpv6) := by
  have hrd := toNat_rd16_lt ip 4
  unfold n68kRxv6Shape at h
  split_ifs at h
  simp only at h
  split_ifs at h with hplen
  split at h
  · cases h
  · rename_i next at' hchain
    obtain ⟨hle, hprotocol⟩ := chainLoop_eq_some hchain
    split_ifs at h with htcp hroom
    all_goals
      cases h
      dsimp only
      exact ⟨hle, by omega, by omega, hprotocol⟩

/-- What comes out of the carried sum: the first two longwords and the extension headers. -/
theorem head_modEq (ip : Mem) {offset : Nat} (hoffset : 40 ≤ offset) :
    (if offset > 40 then eac (n68kRxvSumBe ip 0 2) (n68kRxvSumBe ip 40 ((offset - 40) / 4))
      else n68kRxvSumBe ip 0 2).toNat ≡
        longSum ip 0 2 + longSum ip 40 ((offset - 40) / 4) [MOD 65535] := by
  split_ifs with hext
  · exact (modEq_of_modEq_pow_sub_one (eac_modEq _ _)).trans
      ((n68kSumLongwords_modEq ip 0 2).add (n68kSumLongwords_modEq ip 40 _))
  · rw [show (offset - 40) / 4 = 0 by omega]
    exact n68kSumLongwords_modEq ip 0 2

/-- The transport verdict on the carried sum of an IPv6 frame. -/
theorem fold_carried6_eq_ffff_iff {ip : Mem} {offset protocol payload : Nat} {head : ULong}
    (hoffset : 40 ≤ offset) (hwords : offset % 4 = 0) (hprotocol : 0 < protocol)
    (hprotocol' : protocol < 256) (hpayload : payload < 65536)
    (hhead : head.toNat ≡ longSum ip 0 2 + longSum ip 40 ((offset - 40) / 4) [MOD 65535]) :
    n68kRxvFold (n68kRxvFold (eac (~~~head) (carriedSum ip (offset + payload))) +
        BitVec.ofNat 32 protocol + BitVec.ofNat 32 payload) = 0xFFFF#32 ↔
      protocol + payload + longSum ip 8 8 + regionSum ip offset payload ≡ 0 [MOD 65535] := by
  have hsplit : regionSum ip 0 (offset + payload) = longSum ip 0 2 +
      (longSum ip 8 8 + longSum ip 40 ((offset - 40) / 4)) + regionSum ip offset payload := by
    have hregion := regionSum_split ip 0 (offset / 4) payload
    have hhead := longSum_add ip 0 2 (8 + (offset - 40) / 4)
    have haddr := longSum_add ip (0 + 4 * 2) 8 ((offset - 40) / 4)
    rw [show 4 * (offset / 4) = offset by omega, Nat.zero_add] at hregion
    rw [hregion, show offset / 4 = 2 + (8 + (offset - 40) / 4) by omega, hhead, haddr]
  let sum := eac (~~~head) (carriedSum ip (offset + payload))
  have hsum : sum.toNat + head.toNat ≡ (carriedSum ip (offset + payload)).toNat [MOD 65535] := by
    have hadd := (modEq_of_modEq_pow_sub_one
      (eac_modEq (~~~head) (carriedSum ip (offset + payload)))).add_right head.toNat
    have hcancel := (toNat_not_add_modEq head).add_right (carriedSum ip (offset + payload)).toNat
    refine hadd.trans ?_
    rw [Nat.add_right_comm]
    simpa only [Nat.zero_add] using hcancel
  have hle := toNat_fold_le sum
  have htoNat : (fold sum + BitVec.ofNat 32 protocol + BitVec.ofNat 32 payload).toNat =
      (fold sum).toNat + protocol + payload := by
    simp only [BitVec.toNat_add, BitVec.toNat_ofNat]
    omega
  -- the head cancels, so that the sum is what the walk adds up
  have hfold : (fold sum).toNat + protocol + payload ≡
      protocol + payload + longSum ip 8 8 + regionSum ip offset payload [MOD 65535] := by
    have hcarried := carriedSum_modEq ip (offset + payload)
    have hmod := fold_modEq sum
    rw [hsplit] at hcarried
    refine Nat.ModEq.add_right_cancel' head.toNat ?_
    have hleft := ((hmod.add_right head.toNat).trans (hsum.trans hcarried)).add_right
      (protocol + payload)
    have hright := hhead.add_left
      (protocol + payload + longSum ip 8 8 + regionSum ip offset payload)
    refine Nat.ModEq.trans ?_ (hleft.trans (Nat.ModEq.trans ?_ hright.symm))
    · rw [show (fold sum).toNat + protocol + payload + head.toNat =
        (fold sum).toNat + head.toNat + (protocol + payload) by omega]
    · rw [show longSum ip 0 2 + (longSum ip 8 8 + longSum ip 40 ((offset - 40) / 4)) +
        regionSum ip offset payload + (protocol + payload) =
        protocol + payload + longSum ip 8 8 + regionSum ip offset payload +
          (longSum ip 0 2 + longSum ip 40 ((offset - 40) / 4)) by omega]
  rw [n68kRxvFold, n68kRxvFold, fold_eq_ffff_iff, htoNat]
  exact ⟨fun h ↦ hfold.symm.trans h.2, fun h ↦ ⟨by omega, hfold.trans h⟩⟩

/-- The transport verdict of the walk over an IPv6 frame. -/
theorem n68kRxSumOk_v6_iff {packet : RxPacket} {offset protocol payload : Nat}
    (haligned : packet.prepend % 4 = 0) (hwords : offset % 4 = 0)
    (hfits : offset + payload ≤ packet.length) (hpayload : payload < 65536)
    (hprotocol : protocol = protocolTcp ∨ protocol = protocolUdp ∨ protocol = protocolIcmpv6) :
    n68kRxSumOk packet ipVersionV6 offset protocol payload
        [rd32 packet.mem 8, rd32 packet.mem 12, rd32 packet.mem 16, rd32 packet.mem 20]
        [rd32 packet.mem 24, rd32 packet.mem 28, rd32 packet.mem 32, rd32 packet.mem 36] = true ↔
      protocol + payload + longSum packet.mem 8 8 + regionSum packet.mem offset payload ≡
        0 [MOD 65535] := by
  have hnonnull := packet.nonnull
  have hpos : 0 < protocol ∧ protocol < 256 := by
    rcases hprotocol with rfl | rfl | rfl <;> decide
  obtain ⟨hpseudo, hle⟩ := pseudoHeader_modEq_v6 (rd32 packet.mem 8) (rd32 packet.mem 12)
    (rd32 packet.mem 16) (rd32 packet.mem 20) (rd32 packet.mem 24) (rd32 packet.mem 28)
    (rd32 packet.mem 32) (rd32 packet.mem 36) hpos.2 hpayload
  have haddr : longSum packet.mem 8 8 = (rd32 packet.mem 8).toNat + (rd32 packet.mem 12).toNat +
      (rd32 packet.mem 16).toNat + (rd32 packet.mem 20).toNat + ((rd32 packet.mem 24).toNat +
        (rd32 packet.mem 28).toNat + (rd32 packet.mem 32).toNat + (rd32 packet.mem 36).toNat) := by
    simp only [longSum, Nat.reduceAdd]
    omega
  rw [n68kRxSumOk_eq_true_iff, n68kIpChecksumCompute_eq_ffff_iff _ (by omega) (by omega) (by omega)
    (if_pos (by tauto)) (.inl (by omega)), regionSum_shift, haddr, ← Nat.add_assoc]
  have hall := hpseudo.add_right (regionSum packet.mem offset payload)
  exact ⟨hall.symm.trans, hall.trans⟩

/-- **The two verifiers agree on an IPv6 frame.** -/
theorem verifySum6_eq {packet : RxPacket} {copied : Nat} (haligned : packet.prepend % 4 = 0) :
    verifySum6 packet (carriedSum packet.mem copied) copied = n68kRxv6Verify packet := by
  cases hshape : n68kRxv6Shape packet.mem packet.length with
  | none => simp only [verifySum6, n68kRxv6Verify, hshape]
  | some shape =>
      obtain ⟨hoffset, hfits, hpayload, hprotocol⟩ := n68kRxv6Shape_eq_some hshape
      have hpos : 0 < shape.protocol ∧ shape.protocol < 256 := by
        rcases hprotocol with h | h | h <;> rw [h] <;> decide
      simp only [verifySum6, n68kRxv6Verify, hshape]
      by_cases hsum : copied ≠ shape.offset + shape.payload ∨ (shape.offset - 40) % 4 ≠ 0
      · rw [if_pos hsum]
      · obtain rfl : copied = shape.offset + shape.payload := by omega
        have hfast := fold_carried6_eq_ffff_iff hoffset (by omega) hpos.1 hpos.2 hpayload
          (head_modEq packet.mem hoffset)
        have hwalk := n68kRxSumOk_v6_iff haligned (show shape.offset % 4 = 0 by omega) hfits
          hpayload hprotocol
        rw [if_neg hsum]
        exact ite_check_congr (hfast.trans hwalk.symm) fun _ ↦ rfl

theorem n68kRxVerifySum_carriedSum {packet : RxPacket} (haligned : packet.prepend % 4 = 0)
    (copied : Nat) :
    n68kRxVerifySum packet (carriedSum packet.mem copied) copied = n68kRxVerify packet := by
  by_cases hlength : packet.length < 20
  · rw [n68kRxVerifySum, n68kRxVerify, if_pos hlength, if_pos hlength]
  by_cases hv6 : packet.mem 0 >>> 4 = 6#8
  · rw [n68kRxVerifySum, n68kRxVerify, if_neg hlength, if_neg hlength, if_pos hv6, if_pos hv6]
    exact verifySum6_eq haligned
  by_cases hv4 : packet.mem 0 >>> 4 = 4#8
  · exact n68kRxVerifySum_eq_of_v4 haligned hlength hv4
  · rw [n68kRxVerifySum, n68kRxVerify, if_neg hlength, if_neg hlength, if_neg hv6, if_neg hv6,
      if_pos hv4, if_pos hv4]

/-- **The two verifiers agree.**  For every frame whose IP header is longword aligned, the verifier
that starts from the sum of the first `copied` bytes publishes the same bits as the walking one,
and drops the same frames. -/
theorem n68kRxVerifySum_eq_n68kRxVerify (packet : RxPacket) (carried : ULong) (copied : Nat)
    (haligned : packet.prepend % 4 = 0) (hcarried : carried = carriedSum packet.mem copied) :
    n68kRxVerifySum packet carried copied = n68kRxVerify packet := by
  rw [hcarried]
  exact n68kRxVerifySum_carriedSum haligned copied

/-- A UDP datagram of three bytes over IPv4, with both checksums right. -/
def udpFrame : RxPacket where
  prepend := 0x10000
  mem i := [69, 0, 0, 31, 0, 1, 0, 0, 64, 17, 102, 203, 10, 0, 0, 1, 10, 0, 0, 2,
    4, 0, 0, 53, 0, 11, 94, 55, 104, 105, 33].getD i 0
  length := 31
  ipVersion := 0
  nonnull := by decide
  fresh := zero_ne_ipVersionV6

theorem n68kRxVerifySum_udpFrame :
    n68kRxVerifySum udpFrame (carriedSum udpFrame.mem 31) 31 = n68kRxVerify udpFrame ∧
      n68kRxVerify udpFrame = ⟨[.ipv4RxChecksum, .udpRxChecksum], false⟩ :=
  ⟨n68kRxVerifySum_eq_n68kRxVerify udpFrame _ 31 (by decide) rfl, by decide +kernel⟩

end AmiNetXDuo.Net68k
