import Mathlib.Tactic.Ring
import Mathlib.Data.Nat.Bitwise

/-!
# Machine words as numbers

A 32-bit or 64-bit unsigned word as a number, with the arithmetic of the machine: sums and products
are taken modulo the word size, and shifts and masks are divisions and remainders.

## Main definitions

* `w32`, `w64` : a number as a word.
* `sub32` : the difference of two words.

## Main results

* `w32_of_lt`, `w64_of_lt` : a number that fits is unchanged.
* `and_split` : a mask applied to the low and the high part of a number.
* `or_shiftLeft` : two fields that do not overlap.
-/

namespace AmiNetXDuo.MachineWord

/-- A number as a 32-bit word. -/
def w32 (n : Nat) : Nat := n % 2 ^ 32

/-- A number as a 64-bit word. -/
def w64 (n : Nat) : Nat := n % 2 ^ 64

/-- The difference of two 32-bit words. -/
def sub32 (a b : Nat) : Nat := (a + 2 ^ 32 - b) % 2 ^ 32

theorem w32_lt (n : Nat) : w32 n < 2 ^ 32 := Nat.mod_lt _ (by decide)

theorem w32_of_lt {n : Nat} (h : n < 2 ^ 32) : w32 n = n := Nat.mod_eq_of_lt h

theorem w64_of_lt {n : Nat} (h : n < 2 ^ 64) : w64 n = n := Nat.mod_eq_of_lt h

/-- A mask acts on the low and on the high part of a number. -/
theorem and_split (x y k : Nat) :
    x &&& y = (x % 2 ^ k &&& y % 2 ^ k) + 2 ^ k * (x / 2 ^ k &&& y / 2 ^ k) := by
  rw [← Nat.and_mod_two_pow, ← Nat.and_div_two_pow, Nat.mod_add_div]

/-- Two fields that do not overlap add up. -/
theorem or_shiftLeft {a k : Nat} (h : a < 2 ^ k) (b : Nat) : a ||| b <<< k = a + b * 2 ^ k := by
  rw [Nat.or_comm, ← Nat.shiftLeft_add_eq_or_of_lt h, Nat.shiftLeft_eq, Nat.add_comm]

/-- A word shifted to the left loses what leaves it at the top. -/
theorem w32_shiftLeft {k : Nat} (hk : k ≤ 32) (b : Nat) :
    w32 (b <<< k) = (b % 2 ^ (32 - k)) <<< k := by
  rw [w32, Nat.shiftLeft_eq, Nat.shiftLeft_eq]
  conv_lhs => rw [← Nat.sub_add_cancel hk, pow_add, Nat.mul_mod_mul_right]

end AmiNetXDuo.MachineWord
