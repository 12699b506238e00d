import Mathlib.Data.Nat.ModEq

/-!
# One's-complement sums

Addition of machine words with the carry brought back around.  A word of `n` bits then counts
modulo `2 ^ n - 1`, where zero has two spellings; a sum is the spelling `0` only if all its
summands are.  Folding a word of 32 bits to 16 keeps its value modulo `65535` and keeps the
spelling of zero.

## Main definitions

* `eac` : addition with end-around carry.
* `fold` : a word of 32 bits folded to 16, in two steps.

## Main results

* `eac_modEq` and `eac_eq_zero_iff` : the value and the spelling of a sum.
* `fold_eq_ffff_iff` : a folded sum is `0xFFFF` when it is a multiple of `65535` other than the
  spelling `0`.
* `fold_add_eq_ffff_iff` : a small summand may go in without the carry.
-/

namespace AmiNetXDuo.OnesComplement

/-! ### End-around carry -/

section EndAroundCarry

variable {n : Nat}

/-- Add a word, and the carry back into the low end. -/
def eac (a w : BitVec n) : BitVec n :=
  if a + w < w then a + w + 1 else a + w

theorem toNat_eac (a w : BitVec n) :
    (eac a w).toNat =
      if a.toNat + w.toNat < 2 ^ n then a.toNat + w.toNat else a.toNat + w.toNat + 1 - 2 ^ n := by
  have ha := a.isLt
  have hw := w.isLt
  by_cases hcarry : a.toNat + w.toNat < 2 ^ n
  · have hsum : (a + w).toNat = a.toNat + w.toNat := by
      rw [BitVec.toNat_add, Nat.mod_eq_of_lt hcarry]
    have hnot : ¬a + w < w := by
      rw [BitVec.lt_def, hsum]
      omega
    rw [eac, if_neg hnot, if_pos hcarry, hsum]
  · have hsum : (a + w).toNat = a.toNat + w.toNat - 2 ^ n := by
      rw [BitVec.toNat_add, Nat.mod_eq_sub_mod (by omega), Nat.mod_eq_of_lt (by omega)]
    have hlt : a + w < w := by
      rw [BitVec.lt_def, hsum]
      omega
    have hone : (1 : BitVec n).toNat = 1 % 2 ^ n := by simp
    rw [eac, if_pos hlt, if_neg hcarry, BitVec.toNat_add, hsum, hone, Nat.add_mod_mod,
      Nat.mod_eq_of_lt (by omega)]
    omega

/-- A sum is right modulo `2 ^ n - 1`, whether or not a carry went around. -/
theorem eac_modEq (a w : BitVec n) :
    (eac a w).toNat ≡ a.toNat + w.toNat [MOD 2 ^ n - 1] := by
  rw [toNat_eac]
  split_ifs with hcarry
  · rfl
  · have hpos := Nat.two_pow_pos n
    have hsplit : a.toNat + w.toNat = a.toNat + w.toNat + 1 - 2 ^ n + (2 ^ n - 1) := by omega
    conv_rhs => rw [hsplit]
    exact (Nat.add_modEq_right).symm

/-- A sum is spelled `0` only when both its summands are. -/
theorem eac_eq_zero_iff (a w : BitVec n) : eac a w = 0 ↔ a = 0 ∧ w = 0 := by
  have hpos := Nat.two_pow_pos n
  simp only [← BitVec.toNat_inj, BitVec.toNat_zero, toNat_eac, BitVec.ofNat_eq_ofNat]
  split_ifs <;> omega

end EndAroundCarry

/-! ### Folding to 16 bits -/

/-- One step of folding: the halves of a word added. -/
def foldStep (s : BitVec 32) : BitVec 32 := (s &&& 0xFFFF#32) + (s >>> 16)

/-- A word folded to 16 bits. -/
def fold (s : BitVec 32) : BitVec 32 := foldStep (foldStep s)

theorem toNat_low (s : BitVec 32) : (s &&& 0xFFFF#32).toNat = s.toNat % 65536 := by
  rw [BitVec.toNat_and]
  exact Nat.and_two_pow_sub_one_eq_mod s.toNat 16

theorem toNat_high (s : BitVec 32) : (s >>> 16).toNat = s.toNat / 65536 := by
  rw [BitVec.toNat_ushiftRight, Nat.shiftRight_eq_div_pow]

theorem toNat_foldStep (s : BitVec 32) :
    (foldStep s).toNat = s.toNat % 65536 + s.toNat / 65536 := by
  have hs := s.isLt
  rw [foldStep, BitVec.toNat_add, toNat_low, toNat_high, Nat.mod_eq_of_lt (by omega)]

theorem toNat_fold_le (s : BitVec 32) : (fold s).toNat ≤ 65535 := by
  have hs := s.isLt
  rw [fold, toNat_foldStep, toNat_foldStep]
  omega

/-- The halves of a word count as the word. -/
theorem low_add_high_modEq (s : BitVec 32) :
    s.toNat % 65536 + s.toNat / 65536 ≡ s.toNat [MOD 65535] := by
  unfold Nat.ModEq
  omega

theorem foldStep_modEq (s : BitVec 32) : (foldStep s).toNat ≡ s.toNat [MOD 65535] := by
  rw [toNat_foldStep]
  exact low_add_high_modEq s

theorem fold_modEq (s : BitVec 32) : (fold s).toNat ≡ s.toNat [MOD 65535] :=
  (foldStep_modEq _).trans (foldStep_modEq _)

theorem toNat_fold_eq_zero_iff (s : BitVec 32) : (fold s).toNat = 0 ↔ s.toNat = 0 := by
  rw [fold, toNat_foldStep, toNat_foldStep]
  omega

/-- **The verdict of a folded sum.**  It is `0xFFFF`, the one's-complement zero, for the multiples
of `65535` other than `0` itself. -/
theorem fold_eq_ffff_iff (s : BitVec 32) :
    fold s = 0xFFFF#32 ↔ s.toNat ≠ 0 ∧ s.toNat ≡ 0 [MOD 65535] := by
  have hle := toNat_fold_le s
  have hzero := toNat_fold_eq_zero_iff s
  have hmod := fold_modEq s
  rw [← BitVec.toNat_inj, show (0xFFFF#32).toNat = 65535 from rfl]
  unfold Nat.ModEq at hmod ⊢
  omega

/-- **A small summand needs no carry.**  A sum that overflows when a number below `65535` is added
without end-around carry is no multiple of `65535`, and what the overflow leaves is none either. -/
theorem fold_add_eq_ffff_iff (s : BitVec 32) {n : Nat} (hpos : 0 < n) (hsmall : n < 65535) :
    fold (s + BitVec.ofNat 32 n) = 0xFFFF#32 ↔ s.toNat + n ≡ 0 [MOD 65535] := by
  have hs := s.isLt
  rw [fold_eq_ffff_iff, BitVec.toNat_add, BitVec.toNat_ofNat,
    Nat.mod_eq_of_lt (show n < 2 ^ 32 by omega)]
  unfold Nat.ModEq
  by_cases hcarry : s.toNat + n < 2 ^ 32
  · rw [Nat.mod_eq_of_lt hcarry]
    omega
  · rw [Nat.mod_eq_sub_mod (by omega),
      Nat.mod_eq_of_lt (show s.toNat + n - 2 ^ 32 < 2 ^ 32 by omega)]
    omega

/-- Modulo `65535` a word of 32 bits counts as the sum of its halves. -/
theorem modEq_of_modEq_pow_sub_one {a b : Nat} (h : a ≡ b [MOD 2 ^ 32 - 1]) :
    a ≡ b [MOD 65535] :=
  h.of_dvd (by decide)

/-- A word and its complement cancel. -/
theorem toNat_not_add_modEq (s : BitVec 32) : (~~~s).toNat + s.toNat ≡ 0 [MOD 65535] := by
  have hs := s.isLt
  rw [BitVec.toNat_not, Nat.sub_add_cancel (by omega)]
  decide

end AmiNetXDuo.OnesComplement
