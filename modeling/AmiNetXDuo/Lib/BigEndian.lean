import Mathlib.Data.List.Basic
import Mathlib.Tactic.Ring

/-!
# Big-endian byte strings

Bytes are `BitVec 8`, byte strings are lists of them.  This file holds the big-endian value of a
byte string and the window of a byte string at an offset.

## Main definitions

* `BigEndian.value` : the number a byte string spells, most significant byte first.
* `BigEndian.window` : the `n` bytes at offset `off`, when they all exist.
* `BigEndian.shiftIn` : one step of reading a big-endian number into a 32-bit register.

## Main results

* `BigEndian.value_append` : the value of a concatenation.
* `BigEndian.value_lt` : a string of `n` bytes spells a number below `256 ^ n`.
* `BigEndian.window_eq_some_iff` : when a window exists, and what it is.
* `BigEndian.foldl_shiftIn` : shifting a byte string into a register gives its value.
-/

namespace AmiNetXDuo.BigEndian

/-- The number a byte string spells, most significant byte first. -/
def value (bs : List (BitVec 8)) : Nat :=
  bs.foldl (fun v b ↦ v * 256 + b.toNat) 0

@[simp] theorem value_nil : value [] = 0 := rfl

@[simp] theorem value_singleton (b : BitVec 8) : value [b] = b.toNat := by
  simp [value]

theorem foldl_value (bs : List (BitVec 8)) (v : Nat) :
    bs.foldl (fun v b ↦ v * 256 + b.toNat) v = v * 256 ^ bs.length + value bs := by
  induction bs generalizing v with
  | nil => simp
  | cons b bs ih =>
      simp only [List.foldl_cons, List.length_cons, value]
      rw [ih, ih (0 * 256 + b.toNat)]
      ring

theorem value_append (as bs : List (BitVec 8)) :
    value (as ++ bs) = value as * 256 ^ bs.length + value bs := by
  rw [value, List.foldl_append, foldl_value]
  rfl

theorem value_cons (b : BitVec 8) (bs : List (BitVec 8)) :
    value (b :: bs) = b.toNat * 256 ^ bs.length + value bs := by
  rw [← List.singleton_append, value_append, value_singleton]

theorem value_lt (bs : List (BitVec 8)) : value bs < 256 ^ bs.length := by
  induction bs with
  | nil => simp
  | cons b bs ih =>
      rw [value_cons, List.length_cons, pow_succ]
      have hb : b.toNat < 256 := b.isLt
      have hmul : (b.toNat + 1) * 256 ^ bs.length ≤ 256 * 256 ^ bs.length :=
        Nat.mul_le_mul_right _ hb
      rw [add_mul, one_mul] at hmul
      omega

/-- Byte strings of one length are equal when they spell the same number. -/
theorem value_injective : {as bs : List (BitVec 8)} → as.length = bs.length →
    value as = value bs → as = bs
  | [], [], _, _ => rfl
  | a :: as, b :: bs, hlen, h => by
      have hlen' : as.length = bs.length := by simpa using hlen
      have ha := value_lt as
      have hb := value_lt bs
      rw [value_cons, value_cons, hlen'] at h
      rw [hlen'] at ha
      have hdiv (c v : Nat) (hv : v < 256 ^ bs.length) :
          (c * 256 ^ bs.length + v) / 256 ^ bs.length = c := by
        rw [Nat.mul_comm, Nat.mul_add_div (Nat.pow_pos (by decide)), Nat.div_eq_of_lt hv,
          Nat.add_zero]
      have hhead : a.toNat = b.toNat := by
        rw [← hdiv a.toNat _ ha, h, hdiv b.toNat _ hb]
      rw [hhead] at h
      rw [BitVec.eq_of_toNat_eq hhead, value_injective hlen' (by omega)]

/-- The `n` bytes of `bs` at offset `off`, or `none` when the string ends before them. -/
def window (bs : List (BitVec 8)) (off n : Nat) : Option (List (BitVec 8)) :=
  if off + n ≤ bs.length then some ((bs.drop off).take n) else none

theorem window_eq_some_iff {bs : List (BitVec 8)} {off n : Nat} {w : List (BitVec 8)} :
    window bs off n = some w ↔ off + n ≤ bs.length ∧ w = (bs.drop off).take n := by
  unfold window
  split_ifs with h
  · simp [h, eq_comm]
  · simp [h]

theorem window_of_le {bs : List (BitVec 8)} {off n : Nat} (h : off + n ≤ bs.length) :
    window bs off n = some ((bs.drop off).take n) := if_pos h

theorem window_of_lt {bs : List (BitVec 8)} {off n : Nat} (h : bs.length < off + n) :
    window bs off n = none := if_neg (by omega)

/-- Cutting a byte string off behind a window does not change the window. -/
theorem window_take {bs : List (BitVec 8)} {off n cap : Nat} (h : off + n ≤ cap) :
    window (bs.take cap) off n = window bs off n := by
  by_cases hle : off + n ≤ bs.length
  · rw [window_of_le hle, window_of_le (by rw [List.length_take]; omega), List.drop_take,
      List.take_take, Nat.min_eq_left (by omega)]
  · rw [window_of_lt (by rw [List.length_take]; omega), window_of_lt (by omega)]

@[simp] theorem window_zero {bs : List (BitVec 8)} {off : Nat} (h : off ≤ bs.length) :
    window bs off 0 = some [] := by
  rw [window_of_le (by omega), List.take_zero]

/-- A window is its first byte and the window behind it. -/
theorem window_succ (bs : List (BitVec 8)) (off n : Nat) :
    window bs off (n + 1) =
      bs[off]?.bind fun b ↦ (window bs (off + 1) n).map fun w ↦ b :: w := by
  by_cases hlt : off < bs.length
  · rw [List.getElem?_eq_getElem hlt, Option.bind_some]
    by_cases hle : off + (n + 1) ≤ bs.length
    · rw [window_of_le hle, window_of_le (by omega), List.drop_eq_getElem_cons hlt]
      rfl
    · rw [window_of_lt (by omega), window_of_lt (by omega), Option.map_none]
  · rw [List.getElem?_eq_none (by omega), window_of_lt (by omega), Option.bind_none]

/-- A window is the window of its first `m` bytes and the window of the rest. -/
theorem window_add (bs : List (BitVec 8)) (off m n : Nat) :
    window bs off (m + n) =
      (window bs off m).bind fun v ↦ (window bs (off + m) n).map fun w ↦ v ++ w := by
  by_cases hle : off + (m + n) ≤ bs.length
  · rw [window_of_le hle, window_of_le (by omega), window_of_le (by omega), Option.bind_some,
      Option.map_some, List.take_add, List.drop_drop]
  · rw [window_of_lt (by omega), window_of_lt (show bs.length < off + m + n by omega)]
    cases window bs off m <;> rfl

theorem length_of_window {bs : List (BitVec 8)} {off n : Nat} {w : List (BitVec 8)}
    (h : window bs off n = some w) : w.length = n := by
  obtain ⟨hle, rfl⟩ := window_eq_some_iff.mp h
  simp only [List.length_take, List.length_drop]
  omega

/-- Shift a register left by one byte and put the next byte in its low end. -/
def shiftIn (v : BitVec 32) (b : BitVec 8) : BitVec 32 := (v <<< 8) ||| b.setWidth 32

theorem shiftIn_eq (v : BitVec 32) (b : BitVec 8) :
    shiftIn v b = BitVec.ofNat 32 (v.toNat * 256 + b.toNat) := by
  have hdisjoint : (v <<< 8) &&& b.setWidth 32 = 0#32 := by
    ext i hi
    simp only [BitVec.getElem_and, BitVec.getElem_shiftLeft, BitVec.getElem_setWidth,
      BitVec.getElem_zero]
    by_cases h8 : i < 8
    · simp [h8]
    · have : b.getLsbD i = false := BitVec.getLsbD_of_ge b i (by omega)
      simp [this]
  rw [shiftIn, ← BitVec.add_eq_or_of_and_eq_zero _ _ hdisjoint]
  apply BitVec.eq_of_toNat_eq
  simp only [BitVec.toNat_add, BitVec.toNat_shiftLeft, BitVec.toNat_setWidth, BitVec.toNat_ofNat]
  have hb : b.toNat < 256 := b.isLt
  have hshift : v.toNat <<< 8 = v.toNat * 256 := by rw [Nat.shiftLeft_eq]
  rw [hshift]
  omega

theorem foldl_shiftIn (bs : List (BitVec 8)) (v : BitVec 32) :
    bs.foldl shiftIn v = BitVec.ofNat 32 (v.toNat * 256 ^ bs.length + value bs) := by
  induction bs generalizing v with
  | nil => simp
  | cons b bs ih =>
      rw [List.foldl_cons, ih, shiftIn_eq, value_cons, List.length_cons]
      apply BitVec.eq_of_toNat_eq
      simp only [BitVec.toNat_ofNat]
      rw [Nat.add_mod, Nat.mod_mul_mod, ← Nat.add_mod]
      congr 1
      ring

@[simp] theorem foldl_shiftIn_zero (bs : List (BitVec 8)) :
    bs.foldl shiftIn 0 = BitVec.ofNat 32 (value bs) := by
  rw [foldl_shiftIn]
  simp

end AmiNetXDuo.BigEndian
