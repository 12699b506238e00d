import AmiNetXDuo.Lib.OnesComplement

/-!
# The one's-complement sum of a byte string

A byte string is summed as big-endian words of 16 bits, an odd last byte on the left of its word.

## Main definitions

* `wordSum` : the words of a byte string, added up.
* `onesSum` : a number folded to 16 bits.

## Main results

* `wordSum_append_even` : the sum of two pieces.
* `onesSum_eq_of_modEq` : two sums that are equal modulo `65535` fold to the same word, unless one
  of them is zero.
-/

namespace AmiNetXDuo.OnesComplement

/-! ### Folding -/

/-- A number folded to 16 bits: `0` only for `0`. -/
def onesSum (n : Nat) : Nat := if n = 0 then 0 else (n - 1) % 65535 + 1

theorem onesSum_le (n : Nat) : onesSum n ≤ 65535 := by
  unfold onesSum
  split_ifs <;> omega

theorem onesSum_eq_of_modEq {a b : Nat} (ha : a ≠ 0) (hb : b ≠ 0) (h : a ≡ b [MOD 65535]) :
    onesSum a = onesSum b := by
  rw [onesSum, onesSum, if_neg ha, if_neg hb]
  unfold Nat.ModEq at h
  omega

/-- A number that is folded already. -/
theorem onesSum_of_le {n : Nat} (h : n ≤ 65535) : onesSum n = n := by
  unfold onesSum
  split_ifs <;> omega

theorem toNat_fold (s : BitVec 32) : (fold s).toNat = onesSum s.toNat := by
  have hle := toNat_fold_le s
  have hzero := toNat_fold_eq_zero_iff s
  have hmod := fold_modEq s
  unfold Nat.ModEq at hmod
  unfold onesSum
  split_ifs <;> omega

/-! ### Byte strings -/

/-- The big-endian words of a byte string, added up. -/
def wordSum : List (BitVec 8) → Nat
  | [] => 0
  | [b] => b.toNat * 256
  | a :: b :: bytes => a.toNat * 256 + b.toNat + wordSum bytes

/-- A piece behind an even number of bytes. -/
theorem wordSum_append_even {l₁ : List (BitVec 8)} (h : l₁.length % 2 = 0)
    (l₂ : List (BitVec 8)) : wordSum (l₁ ++ l₂) = wordSum l₁ + wordSum l₂ := by
  induction l₁ using wordSum.induct with
  | case1 => simp [wordSum]
  | case2 b => simp at h
  | case3 a b bytes ih =>
      simp only [List.length_cons] at h
      rw [List.cons_append, List.cons_append, wordSum, wordSum, ih (by omega)]
      omega

end AmiNetXDuo.OnesComplement
