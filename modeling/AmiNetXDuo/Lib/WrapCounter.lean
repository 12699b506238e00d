import Mathlib.Data.Nat.ModEq
import Mathlib.Tactic.NormNum

/-!
# Counters that wrap

A 16-bit counter stands for a count without bound. Two such counters are compared by their
difference, which is right as long as the counts are not a whole turn apart.

## Main results

* `toNat_ofNat_sub` : the difference of two counters.
* `toNat_ofNat_and` : the low bits of a counter, which name a place in a ring.
-/

namespace AmiNetXDuo.Lib.WrapCounter

/-- The difference of two counters is that of their counts. -/
theorem toNat_ofNat_sub {m p : ℕ} (hle : m ≤ p) (hlt : p - m < 65536) :
    (UInt16.ofNat p - UInt16.ofNat m).toNat = p - m := by
  rw [UInt16.toNat_sub, UInt16.toNat_ofNat', UInt16.toNat_ofNat']
  norm_num
  omega

/-- The next count. -/
theorem ofNat_succ (n : ℕ) : UInt16.ofNat (n + 1) = UInt16.ofNat n + 1 :=
  UInt16.ofNat_add n 1

/-- The low bits of a counter. -/
theorem toNat_ofNat_and (n : ℕ) {k : ℕ} (hk : k ≤ 16) :
    (UInt16.ofNat n &&& UInt16.ofNat (2 ^ k - 1)).toNat = n % 2 ^ k := by
  have hpow : 2 ^ k ≤ 2 ^ 16 := Nat.pow_le_pow_right (by decide) hk
  have hpos : 0 < 2 ^ k := Nat.two_pow_pos k
  rw [UInt16.toNat_and, UInt16.toNat_ofNat', UInt16.toNat_ofNat',
    Nat.mod_eq_of_lt (by omega : 2 ^ k - 1 < 2 ^ 16), Nat.and_two_pow_sub_one_eq_mod]
  exact Nat.mod_mod_of_dvd n (Nat.pow_dvd_pow 2 hk)

end AmiNetXDuo.Lib.WrapCounter
