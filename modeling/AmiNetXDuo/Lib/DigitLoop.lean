import Mathlib.Data.List.Basic
import Mathlib.Order.Basic

/-!
# Loops over digits

Parsers of numbers run one loop: as long as the next byte is a digit, test whether it may be taken
and take it.

## Main definitions

* `DigitLoop`, `DigitLoop.run` : the loop over digits, with what differs between parsers.

## Main results

* `DigitLoop.run_invariant` : what a loop keeps.
-/

namespace AmiNetXDuo

/-! ### The loop over digits -/

/-- What a loop over digits takes for a digit, when it goes on (from the value, the number of digits
so far and the digit), and the next value. -/
structure DigitLoop where
  digit : UInt8 → Option ℕ
  admits : ℕ → ℕ → ℕ → Bool
  next : ℕ → ℕ → ℕ

/-- The value, the number of digits and the rest of the string; nothing when a digit is refused. -/
def DigitLoop.run (l : DigitLoop) : ℕ → ℕ → List UInt8 → Option (ℕ × ℕ × List UInt8)
  | value, digits, [] => some (value, digits, [])
  | value, digits, c :: s =>
    match l.digit c with
    | none => some (value, digits, c :: s)
    | some d => if l.admits value digits d then l.run (l.next value d) (digits + 1) s else none

theorem DigitLoop.run_cons_digit {l : DigitLoop} {c : UInt8} {d : ℕ} (h : l.digit c = some d)
    (value digits : ℕ) (s : List UInt8) :
    l.run value digits (c :: s) =
      if l.admits value digits d then l.run (l.next value d) (digits + 1) s else none := by
  simp only [DigitLoop.run, h]

theorem DigitLoop.run_stop {l : DigitLoop} {s : List UInt8}
    (h : ∀ c ∈ s.head?, l.digit c = none) (value digits : ℕ) :
    l.run value digits s = some (value, digits, s) := by
  cases s with
  | nil => rfl
  | cons c s => simp only [DigitLoop.run, h c rfl]

/-- **What the loop keeps**, for the value and the number of digits it ends with. -/
theorem DigitLoop.run_invariant {l : DigitLoop} (P : ℕ → ℕ → Prop)
    (hnext : ∀ v n c d, P v n → l.digit c = some d → l.admits v n d = true →
      P (l.next v d) (n + 1)) (s : List UInt8) :
    ∀ v n {v' n' s'}, P v n → l.run v n s = some (v', n', s') → P v' n' := by
  induction s with
  | nil =>
    intro v n v' n' s' hP hrun
    simp only [DigitLoop.run, Option.some.injEq, Prod.mk.injEq] at hrun
    exact hrun.1 ▸ hrun.2.1 ▸ hP
  | cons c s ih =>
    intro v n v' n' s' hP hrun
    cases hd : l.digit c with
    | none =>
      simp only [DigitLoop.run, hd, Option.some.injEq, Prod.mk.injEq] at hrun
      exact hrun.1 ▸ hrun.2.1 ▸ hP
    | some d =>
      rw [run_cons_digit hd] at hrun
      split_ifs at hrun with ha
      exact ih _ _ (hnext v n c d hP hd ha) hrun

end AmiNetXDuo
