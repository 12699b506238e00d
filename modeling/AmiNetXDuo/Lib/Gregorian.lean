import Mathlib.Algebra.Ring.Nat
import Mathlib.Data.List.Basic

/-!
# The Gregorian calendar

Dates of the Gregorian calendar and the number of a day, counted from the first of January of the
year 1, which was a Monday.

## Main definitions

* `Gregorian.isLeap`, `Gregorian.monthLength` : leap years and the lengths of the months.
* `Gregorian.IsDate` : there is such a day.
* `Gregorian.dayNumber`, `Gregorian.weekday` : the number of a day and its weekday.

## Main results

* `Gregorian.yearStart_succ`, `Gregorian.yearStart_mono` : a year has 365 days, or 366.
-/

namespace AmiNetXDuo.Lib.Gregorian

/-- Every fourth year, except for three of four centuries. -/
def isLeap (y : ℕ) : Bool := (y % 4 = 0 && y % 100 ≠ 0) || y % 400 = 0

def yearLength (y : ℕ) : ℕ := if isLeap y then 366 else 365

/-- The length of the month `m`, counted from 1. -/
def monthLength (leap : Bool) (m : ℕ) : ℕ :=
  if m = 2 then if leap then 29 else 28
  else if m = 4 ∨ m = 6 ∨ m = 9 ∨ m = 11 then 30 else 31

/-- There is such a day. -/
def IsDate (y m d : ℕ) : Prop :=
  1 ≤ y ∧ 1 ≤ m ∧ m ≤ 12 ∧ 1 ≤ d ∧ d ≤ monthLength (isLeap y) m

/-- The days of a year in front of the month `m`. -/
def monthStart (leap : Bool) (m : ℕ) : ℕ :=
  ((List.range (m - 1)).map fun k ↦ monthLength leap (k + 1)).sum

/-- The days in front of the year `y`. -/
def yearStart (y : ℕ) : ℕ := 365 * (y - 1) + (y - 1) / 4 - (y - 1) / 100 + (y - 1) / 400

/-- The number of a day, 1 for the first of January of the year 1. -/
def dayNumber (y m d : ℕ) : ℕ := yearStart y + monthStart (isLeap y) m + d

/-- The weekday, 0 for Sunday. -/
def weekday (y m d : ℕ) : ℕ := dayNumber y m d % 7

theorem yearStart_succ {y : ℕ} (hy : 1 ≤ y) : yearStart (y + 1) = yearStart y + yearLength y := by
  obtain ⟨n, rfl⟩ := Nat.exists_eq_add_of_le' hy
  have hleap : isLeap (n + 1) = true ↔ (4 ∣ n + 1 ∧ ¬100 ∣ n + 1) ∨ 400 ∣ n + 1 := by
    simp [isLeap, Nat.dvd_iff_mod_eq_zero]
  have hcentury : 100 ∣ n + 1 → 4 ∣ n + 1 := fun h ↦ Nat.dvd_trans (by decide) h
  have hfourth : 400 ∣ n + 1 → 100 ∣ n + 1 := fun h ↦ Nat.dvd_trans (by decide) h
  have hfew : n / 100 ≤ n / 4 := Nat.div_le_div_left (by decide) (by decide)
  simp only [yearStart, yearLength, hleap, Nat.add_sub_cancel, Nat.succ_div]
  generalize n / 4 = a at hfew ⊢
  generalize n / 100 = b at hfew ⊢
  generalize n / 400 = c
  split_ifs <;> omega

theorem yearStart_mono {a b : ℕ} (ha : 1 ≤ a) (hab : a ≤ b) : yearStart a ≤ yearStart b := by
  obtain ⟨n, rfl⟩ := Nat.exists_eq_add_of_le hab
  induction n with
  | zero => exact Nat.le_refl _
  | succ n ih =>
    have hstart := yearStart_succ (show 1 ≤ a + n by omega)
    have hle := ih (by omega)
    rw [← Nat.add_assoc, hstart]
    omega

end AmiNetXDuo.Lib.Gregorian
