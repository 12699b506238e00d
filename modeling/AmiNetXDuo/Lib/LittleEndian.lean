import Mathlib.Data.List.Basic
import Mathlib.Tactic.Ring

/-!
# Little-endian byte strings

The number a byte string spells with its least significant byte first, and the byte string of a
number.

## Main definitions

* `LittleEndian.value` : the number a byte string spells.
* `LittleEndian.bytes` : the byte string of a number, of a given length.

## Main results

* `LittleEndian.value_append` : the number two strings spell together.
* `LittleEndian.value_bytes`, `LittleEndian.bytes_value` : the two are inverse to each other.
* `LittleEndian.testBit_value` : the bits of the number.
-/

namespace AmiNetXDuo.LittleEndian

/-- The number a byte string spells, least significant byte first. -/
def value : List (BitVec 8) → Nat
  | [] => 0
  | b :: bs => b.toNat + 256 * value bs

/-- The `k` low bytes of a number, least significant first. -/
def bytes : Nat → Nat → List (BitVec 8)
  | 0, _ => []
  | k + 1, n => BitVec.ofNat 8 n :: bytes k (n / 256)

@[simp] theorem value_nil : value [] = 0 := rfl

@[simp] theorem value_cons (b : BitVec 8) (bs : List (BitVec 8)) :
    value (b :: bs) = b.toNat + 256 * value bs := rfl

@[simp] theorem length_bytes (k n : Nat) : (bytes k n).length = k := by
  induction k generalizing n with
  | zero => rfl
  | succ k ih => simp [bytes, ih]

theorem value_append (as bs : List (BitVec 8)) :
    value (as ++ bs) = value as + 256 ^ as.length * value bs := by
  induction as with
  | nil => simp
  | cons a as ih =>
    simp only [List.cons_append, value_cons, ih, List.length_cons]
    ring

theorem value_lt (bs : List (BitVec 8)) : value bs < 256 ^ bs.length := by
  induction bs with
  | nil => simp
  | cons b bs ih =>
    have hb : b.toNat < 256 := b.isLt
    simp only [value_cons, List.length_cons, pow_succ]
    omega

@[simp] theorem value_replicate_zero (k : Nat) : value (List.replicate k 0#8) = 0 := by
  induction k with
  | zero => rfl
  | succ k ih => simp [List.replicate_succ, ih]

theorem value_bytes (k n : Nat) : value (bytes k n) = n % 256 ^ k := by
  induction k generalizing n with
  | zero => simp [bytes, Nat.mod_one]
  | succ k ih =>
    rw [bytes, value_cons, BitVec.toNat_ofNat, ih, show 256 ^ (k + 1) = 256 * 256 ^ k from
      pow_succ' 256 k, Nat.mod_mul]

theorem bytes_value (bs : List (BitVec 8)) : bytes bs.length (value bs) = bs := by
  induction bs with
  | nil => rfl
  | cons b bs ih =>
    have hb : b.toNat < 256 := b.isLt
    have hdiv : (b.toNat + 256 * value bs) / 256 = value bs := by omega
    simp only [List.length_cons, bytes, value_cons, hdiv, ih]
    congr 1
    apply BitVec.eq_of_toNat_eq
    simp only [BitVec.toNat_ofNat]
    omega

/-- The bytes of a number depend on its low part only. -/
theorem bytes_mod (k n : Nat) : bytes k (n % 256 ^ k) = bytes k n := by
  rw [← value_bytes]
  simpa using bytes_value (bytes k n)

theorem bytes_append (k l n : Nat) :
    bytes (k + l) n = bytes k n ++ bytes l (n / 256 ^ k) := by
  induction k generalizing n with
  | zero => simp [bytes]
  | succ k ih =>
    rw [Nat.succ_add]
    simp only [bytes, ih, List.cons_append, Nat.div_div_eq_div_mul, pow_succ']

/-- A bit of the number is a bit of a byte. -/
theorem testBit_value (bs : List (BitVec 8)) (i : Nat) :
    (value bs).testBit i = (bs.getD (i / 8) 0).getLsbD (i % 8) := by
  induction bs generalizing i with
  | nil => simp
  | cons b bs ih =>
    rw [value_cons, Nat.add_comm, show (256 : Nat) = 2 ^ 8 from rfl,
      Nat.testBit_two_pow_mul_add _ b.isLt]
    split_ifs with hi
    · rw [Nat.div_eq_of_lt hi, Nat.mod_eq_of_lt hi]
      rfl
    · rw [ih, show i / 8 = (i - 8) / 8 + 1 by omega, show i % 8 = (i - 8) % 8 by omega,
        List.getD_cons_succ]

end AmiNetXDuo.LittleEndian
