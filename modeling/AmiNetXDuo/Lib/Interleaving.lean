import Mathlib.Data.List.Basic

/-!
# Interleavings of atomic sections

A concurrent program is a state and a set of events, each an atomic section that some task runs.
An event that is not possible in a state has no successor there.  What holds in every interleaving
is what every event preserves.

## Main definitions

* `run` : the state a list of events leads to.
* `Reachable` : the states some list of events leads to.
* `Meets`, `ReachableBy` : the same for events that meet a condition where they happen.

## Main results

* `Reachable.invariant`, `ReachableBy.invariant` : the rule of invariants.
-/

namespace AmiNetXDuo.Interleaving

variable {σ ι : Type*} {exec : σ → ι → Option σ} {init : σ → Prop}

/-- The state a list of events leads to. -/
def run (exec : σ → ι → Option σ) (s : σ) : List ι → Option σ
  | [] => some s
  | e :: es => (exec s e).bind fun s' ↦ run exec s' es

/-- A state that some interleaving leads to from an initial one. -/
def Reachable (exec : σ → ι → Option σ) (init : σ → Prop) (s : σ) : Prop :=
  ∃ s₀ es, init s₀ ∧ run exec s₀ es = some s

/-- What every event preserves, a list of events preserves. -/
theorem run_invariant {Inv : σ → Prop}
    (hstep : ∀ s e s', Inv s → exec s e = some s' → Inv s') {s s' : σ} {es : List ι}
    (hs : Inv s) (h : run exec s es = some s') : Inv s' := by
  induction es generalizing s with
  | nil =>
    obtain rfl := Option.some.inj h
    exact hs
  | cons e es ih =>
    obtain ⟨t, ht, hrun⟩ := Option.bind_eq_some_iff.mp h
    exact ih (hstep s e t hs ht) hrun

/-- **The rule of invariants.** What holds initially and is preserved by every event holds in every
reachable state. -/
theorem Reachable.invariant {Inv : σ → Prop} (hinit : ∀ s, init s → Inv s)
    (hstep : ∀ s e s', Inv s → exec s e = some s' → Inv s') {s : σ}
    (h : Reachable exec init s) : Inv s := by
  obtain ⟨s₀, es, h₀, hrun⟩ := h
  exact run_invariant hstep (hinit s₀ h₀) hrun

/-! ### Events under a condition -/

variable {cond : σ → ι → Prop}

/-- Every event of the list meets the condition in the state where it happens. -/
def Meets (exec : σ → ι → Option σ) (cond : σ → ι → Prop) (s : σ) : List ι → Prop
  | [] => True
  | e :: es => cond s e ∧ (exec s e).elim True fun s' ↦ Meets exec cond s' es

/-- A list of events is checked where the condition can be. -/
instance decidableMeets [∀ s e, Decidable (cond s e)] :
    ∀ s es, Decidable (Meets exec cond s es)
  | _, [] => isTrue trivial
  | s, e :: es =>
      have : Decidable ((exec s e).elim True fun s' ↦ Meets exec cond s' es) :=
        match exec s e with
        | none => isTrue trivial
        | some s' => decidableMeets s' es
      inferInstanceAs (Decidable (_ ∧ _))

/-- A state that some interleaving of events under the condition leads to. -/
def ReachableBy (exec : σ → ι → Option σ) (cond : σ → ι → Prop) (init : σ → Prop) (s : σ) : Prop :=
  ∃ s₀ es, init s₀ ∧ Meets exec cond s₀ es ∧ run exec s₀ es = some s

/-- **The rule of invariants under a condition.** -/
theorem ReachableBy.invariant {Inv : σ → Prop} (hinit : ∀ s, init s → Inv s)
    (hstep : ∀ s e s', Inv s → cond s e → exec s e = some s' → Inv s') {s : σ}
    (h : ReachableBy exec cond init s) : Inv s := by
  obtain ⟨s₀, es, h₀, hmeets, hrun⟩ := h
  have hs := hinit s₀ h₀
  clear h₀
  induction es generalizing s₀ with
  | nil =>
    obtain rfl := Option.some.inj hrun
    exact hs
  | cons e es ih =>
    obtain ⟨t, ht, hrest⟩ := Option.bind_eq_some_iff.mp hrun
    obtain ⟨hcond, htail⟩ := hmeets
    rw [ht] at htail
    exact ih t htail hrest (hstep s₀ e t hs hcond ht)

end AmiNetXDuo.Interleaving
