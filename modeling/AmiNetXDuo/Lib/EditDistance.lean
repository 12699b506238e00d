import Mathlib.Data.List.Basic
import Mathlib.Order.MinMax

/-!
# The Levenshtein distance

The distance of two words by its recursion on their first letters. A table that is filled from the
front needs the same recursion on the last letters; the two agree because the distance is the least
cost of a way to turn one word into the other, and such a way can be read from either end. Mathlib
has no edit distance at this version.

## Main definitions

* `levenshtein` : the distance.
* `Edits` : the ways to turn one word into another, with what each costs.

## Main results

* `Edits.levenshtein_le`, `edits_levenshtein` : the distance is the least cost.
* `levenshtein_reverse` : reading both words backwards does not change it.
* `levenshtein_concat` : the recursion on the last letters.
-/

namespace AmiNetXDuo.Lib

variable {α : Type*} [DecidableEq α]

/-- The least number of letters to substitute, delete or insert. -/
def levenshtein : List α → List α → ℕ
  | [], ys => ys.length
  | x :: xs, [] => (x :: xs).length
  | x :: xs, y :: ys =>
    min (levenshtein xs ys + if x = y then 0 else 1)
      (min (levenshtein xs (y :: ys) + 1) (levenshtein (x :: xs) ys + 1))
termination_by xs ys => xs.length + ys.length

@[simp] theorem levenshtein_nil_left (ys : List α) : levenshtein [] ys = ys.length := by
  rw [levenshtein]

@[simp] theorem levenshtein_nil_right (xs : List α) : levenshtein xs [] = xs.length := by
  cases xs with
  | nil => rw [levenshtein]
  | cons x xs => rw [levenshtein]

theorem levenshtein_cons_cons (x y : α) (xs ys : List α) :
    levenshtein (x :: xs) (y :: ys) =
      min (levenshtein xs ys + if x = y then 0 else 1)
        (min (levenshtein xs (y :: ys) + 1) (levenshtein (x :: xs) ys + 1)) := by
  rw [levenshtein]

theorem levenshtein_cons_left_le (x : α) (xs ys : List α) :
    levenshtein (x :: xs) ys ≤ levenshtein xs ys + 1 := by
  cases ys with
  | nil => simp
  | cons y ys =>
    rw [levenshtein_cons_cons]
    omega

theorem levenshtein_cons_right_le (y : α) (xs ys : List α) :
    levenshtein xs (y :: ys) ≤ levenshtein xs ys + 1 := by
  cases xs with
  | nil => simp
  | cons x xs =>
    rw [levenshtein_cons_cons]
    omega

/-! ### Ways to edit a word -/

omit [DecidableEq α] in
/-- A way to turn one word into another from the front on, and what it costs. -/
inductive Edits : List α → List α → ℕ → Prop
  | nil : Edits [] [] 0
  | keep {xs ys : List α} {n : ℕ} (x : α) : Edits xs ys n → Edits (x :: xs) (x :: ys) n
  | substitute {xs ys : List α} {n : ℕ} (x y : α) :
      Edits xs ys n → Edits (x :: xs) (y :: ys) (n + 1)
  | delete {xs ys : List α} {n : ℕ} (x : α) : Edits xs ys n → Edits (x :: xs) ys (n + 1)
  | insert {xs ys : List α} {n : ℕ} (y : α) : Edits xs ys n → Edits xs (y :: ys) (n + 1)

theorem Edits.levenshtein_le {xs ys : List α} {n : ℕ} (h : Edits xs ys n) :
    levenshtein xs ys ≤ n := by
  induction h with
  | nil => simp
  | keep x _ ih =>
    rw [levenshtein_cons_cons, if_pos rfl]
    omega
  | substitute x y _ ih =>
    rw [levenshtein_cons_cons]
    split_ifs
    · omega
    · omega
  | delete x _ ih => exact (levenshtein_cons_left_le ..).trans (Nat.succ_le_succ ih)
  | insert y _ ih => exact (levenshtein_cons_right_le ..).trans (Nat.succ_le_succ ih)

/-- The distance is what some way to edit costs. -/
theorem edits_levenshtein (xs ys : List α) : Edits xs ys (levenshtein xs ys) := by
  induction xs, ys using levenshtein.induct with
  | case1 ys =>
    induction ys with
    | nil => simpa using Edits.nil
    | cons y ys ih =>
      rw [levenshtein_nil_left] at ih ⊢
      exact .insert y ih
  | case2 x xs =>
    rw [levenshtein_nil_right]
    induction xs generalizing x with
    | nil => exact .delete x .nil
    | cons x' xs ih => exact .delete x (ih x')
  | case3 x xs y ys ihBoth ihDelete ihInsert =>
    rw [levenshtein_cons_cons]
    -- whichever of the three is the least is the cost of the first edit and the rest
    rcases min_choice (levenshtein xs ys + if x = y then 0 else 1)
      (min (levenshtein xs (y :: ys) + 1) (levenshtein (x :: xs) ys + 1)) with h | h
    · rw [h]
      by_cases hxy : x = y
      · subst hxy
        rw [if_pos rfl]
        exact .keep x ihBoth
      · rw [if_neg hxy]
        exact .substitute x y ihBoth
    · rw [h]
      rcases min_choice (levenshtein xs (y :: ys) + 1) (levenshtein (x :: xs) ys + 1) with h' | h'
      · rw [h']
        exact .delete x ihDelete
      · rw [h']
        exact .insert y ihInsert

omit [DecidableEq α] in
theorem Edits.append {xs ys xs' ys' : List α} {n m : ℕ} (h : Edits xs ys n)
    (h' : Edits xs' ys' m) : Edits (xs ++ xs') (ys ++ ys') (n + m) := by
  induction h with
  | nil => simpa using h'
  | keep x _ ih => exact .keep x ih
  | substitute x y _ ih =>
    rw [Nat.add_right_comm]
    exact .substitute x y ih
  | delete x _ ih =>
    rw [Nat.add_right_comm]
    exact .delete x ih
  | insert y _ ih =>
    rw [Nat.add_right_comm]
    exact .insert y ih

omit [DecidableEq α] in
theorem Edits.reverse {xs ys : List α} {n : ℕ} (h : Edits xs ys n) :
    Edits xs.reverse ys.reverse n := by
  induction h with
  | nil => exact .nil
  | keep x _ ih => simpa using ih.append (.keep x .nil)
  | substitute x y _ ih => simpa using ih.append (.substitute x y .nil)
  | delete x _ ih => simpa using ih.append (.delete x .nil)
  | insert y _ ih => simpa using ih.append (.insert y .nil)

theorem levenshtein_reverse (xs ys : List α) :
    levenshtein xs.reverse ys.reverse = levenshtein xs ys := by
  apply Nat.le_antisymm
  · exact (edits_levenshtein xs ys).reverse.levenshtein_le
  · simpa using (edits_levenshtein xs.reverse ys.reverse).reverse.levenshtein_le

/-- The recursion on the last letters. -/
theorem levenshtein_concat (x y : α) (xs ys : List α) :
    levenshtein (xs ++ [x]) (ys ++ [y]) =
      min (levenshtein xs ys + if x = y then 0 else 1)
        (min (levenshtein xs (ys ++ [y]) + 1) (levenshtein (xs ++ [x]) ys + 1)) := by
  have hback (us vs : List α) : levenshtein us vs = levenshtein us.reverse vs.reverse :=
    (levenshtein_reverse us vs).symm
  rw [hback (xs ++ [x]) (ys ++ [y]), hback xs ys, hback xs (ys ++ [y]), hback (xs ++ [x]) ys]
  simp only [List.reverse_append, List.reverse_singleton, List.singleton_append]
  exact levenshtein_cons_cons ..

end AmiNetXDuo.Lib
