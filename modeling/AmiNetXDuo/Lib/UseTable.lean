import Mathlib.Algebra.BigOperators.Group.List.Basic
import Mathlib.Algebra.Ring.Nat
import Mathlib.Data.List.Basic

/-!
# Tables of counted rows

A table is a list of rows; a row has a key and a weight (how many references it stands for). A
reference is taken by raising the weight of the first row with the key, or by entering a row of
weight one; it is given back by lowering that weight, or by dropping the row when the weight is one.

## Main definitions

* `UseTable.first`, `UseTable.setFirst`, `UseTable.dropFirst` : the row operations.
* `UseTable.total` : the weight of all rows of a key.

## Main results

* `UseTable.exists_split` : the first row with a key splits the table, and the operations act there.
* `UseTable.total_append` : the weights of two parts of a table add up.
-/

namespace AmiNetXDuo.Lib.UseTable

variable {ρ κ : Type*} [DecidableEq κ]

section Rows

variable (key : ρ → κ)

/-- The first row with the key `x`. -/
def first (x : κ) (t : List ρ) : Option ρ :=
  t.find? fun r ↦ key r = x

/-- The table with `f` applied to the first row with the key `x`. -/
def setFirst (x : κ) (f : ρ → ρ) (t : List ρ) : List ρ :=
  t.replaceF fun r ↦ if key r = x then some (f r) else none

/-- The table without the first row with the key `x`, the later rows moved up. -/
def dropFirst (x : κ) (t : List ρ) : List ρ :=
  t.eraseP fun r ↦ key r = x

theorem first_eq_none {x : κ} {t : List ρ} : first key x t = none ↔ ∀ r ∈ t, key r ≠ x := by
  simp [first]

/-- The first row with a key splits the table; the operations act at the split. -/
theorem exists_split {x : κ} {t : List ρ} {r : ρ} (h : first key x t = some r) :
    ∃ a b, t = a ++ r :: b ∧ (∀ s ∈ a, key s ≠ x) ∧ key r = x ∧
      (∀ f, setFirst key x f t = a ++ f r :: b) ∧ dropFirst key x t = a ++ b := by
  induction t with
  | nil => simp [first] at h
  | cons s t ih =>
    by_cases hs : key s = x
    · obtain rfl : s = r := by simpa [first, hs] using h
      exact ⟨[], t, rfl, by simp, hs, fun f ↦ by simp [setFirst, List.replaceF, hs],
        by simp [dropFirst, hs]⟩
    · have ht : first key x t = some r := by simpa [first, hs] using h
      obtain ⟨a, b, rfl, ha, hr, hset, hdrop⟩ := ih ht
      refine ⟨s :: a, b, rfl, ?_, hr, fun f ↦ ?_, ?_⟩
      · simpa [hs] using ha
      · rw [List.cons_append, ← hset f]
        simp [setFirst, List.replaceF, hs]
      · rw [List.cons_append, ← hdrop]
        simp [dropFirst, hs]

theorem first_mem {x : κ} {t : List ρ} {r : ρ} (h : first key x t = some r) : r ∈ t :=
  List.mem_of_find?_eq_some h

theorem first_key {x : κ} {t : List ρ} {r : ρ} (h : first key x t = some r) : key r = x := by
  simpa using List.find?_some h

end Rows

section Tally

variable (key : ρ → κ) (weight : ρ → ℕ)

/-- The weight of all rows with the key `x`. -/
def total (t : List ρ) (x : κ) : ℕ :=
  ((t.filter fun r ↦ key r = x).map weight).sum

theorem total_cons (r : ρ) (t : List ρ) (x : κ) :
    total key weight (r :: t) x = (if key r = x then weight r else 0) + total key weight t x := by
  by_cases h : key r = x <;> simp [total, h]

theorem total_append (s t : List ρ) (x : κ) :
    total key weight (s ++ t) x = total key weight s x + total key weight t x := by
  simp [total]

end Tally

end AmiNetXDuo.Lib.UseTable
