import Mathlib.Data.List.Basic

/-!
# The last write to a register

A loop goes over a list, and each element sets a register or leaves it. The register ends with the
last value written, and forgets how it began as soon as one element writes.

## Main definitions

* `lastWrite` : the value of the register at the end.

## Main results

* `lastWrite_eq_iff` : when two registers end alike.
* `lastWrite_eq_self` : a register without a write.
-/

namespace AmiNetXDuo

variable {τ α : Type*}

/-- The value of a register after the writes of some elements. -/
def lastWrite (w : τ → Option α) (a : α) (qs : List τ) : α :=
  qs.foldl (fun a q ↦ (w q).getD a) a

@[simp] theorem lastWrite_nil (w : τ → Option α) (a : α) : lastWrite w a [] = a := rfl

@[simp] theorem lastWrite_cons (w : τ → Option α) (a : α) (q : τ) (qs : List τ) :
    lastWrite w a (q :: qs) = lastWrite w ((w q).getD a) qs := rfl

/-- Two registers end alike when they begin alike or one element writes. -/
theorem lastWrite_eq_iff {w : τ → Option α} {a b : α} {qs : List τ} :
    lastWrite w a qs = lastWrite w b qs ↔ a = b ∨ ∃ q ∈ qs, (w q).isSome := by
  induction qs generalizing a b with
  | nil => simp
  | cons q qs ih =>
    rw [lastWrite_cons, lastWrite_cons, ih]
    cases hq : w q with
    | none => simp [hq]
    | some c => simp [hq]

/-- Without a write the register stays. -/
theorem lastWrite_eq_self {w : τ → Option α} {a : α} {qs : List τ} (h : ∀ q ∈ qs, w q = none) :
    lastWrite w a qs = a := by
  induction qs with
  | nil => rfl
  | cons q qs ih =>
    rw [lastWrite_cons, h q List.mem_cons_self, Option.getD_none]
    exact ih fun r hr ↦ h r (List.mem_cons_of_mem q hr)

end AmiNetXDuo
