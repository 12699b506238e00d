import Mathlib.Logic.Function.Basic
import Mathlib.Tactic.Linarith
import Mathlib.Tactic.Ring

/-!
# Memory of 32-bit words

Memory as a function from word addresses to words, and the number a run of words stands for, the
least significant word first.

## Main definitions

* `Heap`, `Heap.put` : memory, and a word stored in it.
* `Heap.val` : the number in a run of words.

## Main results

* `Heap.val_add` : a run of words in two parts.
-/

namespace AmiNetXDuo

/-- The base the words are digits of. -/
def radix : Nat := 2 ^ 32

theorem radix_eq : radix = 2 ^ 32 := rfl

theorem radix_pos : 0 < radix := by decide

theorem radix_pow_pos (n : Nat) : 0 < radix ^ n := pow_pos radix_pos n

/-- Memory: a word at every word address. -/
abbrev Heap := Nat → BitVec 32

namespace Heap

/-- The word at an address, as a number. -/
def get (M : Heap) (a : Nat) : Nat := (M a).toNat

/-- The low 32 bits of `v` stored at an address. -/
def put (M : Heap) (a v : Nat) : Heap := Function.update M a (BitVec.ofNat 32 v)

/-- The number in `n` words from an address on, the least significant word first. -/
def val (M : Heap) (a : Nat) : Nat → Nat
  | 0 => 0
  | n + 1 => val M a n + M.get (a + n) * radix ^ n

theorem get_lt (M : Heap) (a : Nat) : M.get a < radix := (M a).isLt

theorem get_congr {M M' : Heap} {a : Nat} (h : M' a = M a) : M'.get a = M.get a := by
  rw [get, get, h]

theorem get_put (M : Heap) (a v : Nat) : (M.put a v).get a = v % radix := by
  rw [get, put, Function.update_self, BitVec.toNat_ofNat]
  rfl

theorem put_of_ne (M : Heap) {a b : Nat} (v : Nat) (h : b ≠ a) : (M.put a v) b = M b :=
  Function.update_of_ne h _ _

@[simp] theorem val_zero (M : Heap) (a : Nat) : M.val a 0 = 0 := rfl

theorem val_succ (M : Heap) (a n : Nat) :
    M.val a (n + 1) = M.val a n + M.get (a + n) * radix ^ n := rfl

@[simp] theorem val_one (M : Heap) (a : Nat) : M.val a 1 = M.get a := by
  simp [val_succ]

/-- A run of words in two parts. -/
theorem val_add (M : Heap) (a k n : Nat) :
    M.val a (k + n) = M.val a k + radix ^ k * M.val (a + k) n := by
  induction n with
  | zero => simp
  | succ n ih =>
    rw [← Nat.add_assoc, val_succ, ih, val_succ, pow_add, Nat.add_assoc a]
    ring

/-- A run of words, its least significant word first. -/
theorem val_succ_left (M : Heap) (a n : Nat) :
    M.val a (n + 1) = M.get a + radix * M.val (a + 1) n := by
  rw [Nat.add_comm n 1, val_add, val_one, pow_one]

theorem val_lt (M : Heap) (a n : Nat) : M.val a n < radix ^ n := by
  induction n with
  | zero => simp
  | succ n ih =>
    have hget := M.get_lt (a + n)
    calc M.val a (n + 1) = M.val a n + M.get (a + n) * radix ^ n := rfl
      _ < (M.get (a + n) + 1) * radix ^ n := by linarith
      _ ≤ radix * radix ^ n := Nat.mul_le_mul_right _ hget
      _ = radix ^ (n + 1) := (pow_succ' _ _).symm

theorem val_congr {M M' : Heap} {a n : Nat} (h : ∀ i < n, M' (a + i) = M (a + i)) :
    M'.val a n = M.val a n := by
  induction n with
  | zero => rfl
  | succ n ih =>
    rw [val_succ, val_succ, ih fun i hi ↦ h i (by omega), get_congr (h n (by omega))]

/-- A word stored just above a run. -/
theorem val_put_top (M : Heap) (r j v : Nat) :
    (M.put (r + j) v).val r (j + 1) = M.val r j + v % radix * radix ^ j := by
  rw [val_succ, get_put, val_congr]
  intro i hi
  exact M.put_of_ne v (by omega)

/-- A number with no word set. -/
theorem val_eq_zero {M : Heap} {a n : Nat} (h : ∀ i < n, M.get (a + i) = 0) : M.val a n = 0 := by
  induction n with
  | zero => rfl
  | succ n ih => rw [val_succ, ih fun i hi ↦ h i (by omega), h n (by omega), Nat.zero_mul]

end Heap

end AmiNetXDuo
