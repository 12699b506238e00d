import AmiNetXDuo.Lib.MachineWord
import AmiNetXDuo.Lib.WordHeap
import Mathlib.Algebra.BigOperators.Intervals
import Mathlib.Tactic.LinearCombination

/-!
# Counted loops on a local state

Loops that count up and change a state of their own, with the rule to reason about them, and the
loop that carries from one word of a number to the next: to a 64-bit accumulator it adds a column,
stores the low word and shifts the rest down.

## Main definitions

* `countUp`, `countUpM` : the loop, and the loop of a body that may fail.
* `carryLoop` : the columns of a number, carried into words.

## Main results

* `countUp_invariant`, `countUpM_invariant` : what a loop preserves.
* `carryLoop_spec` : the words and the carry are the sum of the columns.
-/

namespace AmiNetXDuo

open MachineWord Finset

variable {σ : Type*}

/-- `for (i = 0; i < n; i++)`. -/
def countUp : Nat → (Nat → σ → σ) → σ → σ
  | 0, _, s => s
  | n + 1, body, s => body n (countUp n body s)

theorem countUp_invariant {n : Nat} {body : Nat → σ → σ} {s : σ} (Inv : Nat → σ → Prop)
    (h0 : Inv 0 s) (hstep : ∀ i < n, ∀ s, Inv i s → Inv (i + 1) (body i s)) :
    Inv n (countUp n body s) := by
  induction n with
  | zero => exact h0
  | succ n ih => exact hstep n (by omega) _ (ih fun i hi ↦ hstep i (by omega))

/-- `for (i = 0; i < n; i++)`, with a body that has no result where it goes wrong. -/
def countUpM : Nat → (Nat → σ → Option σ) → σ → Option σ
  | 0, _, s => some s
  | n + 1, body, s => (countUpM n body s).bind (body n)

/-- The loop does not go wrong either, and preserves what its body preserves. -/
theorem countUpM_invariant {n : Nat} {body : Nat → σ → Option σ} {s : σ} (Inv : Nat → σ → Prop)
    (h0 : Inv 0 s)
    (hstep : ∀ i < n, ∀ s, Inv i s → ∃ s', body i s = some s' ∧ Inv (i + 1) s') :
    ∃ s', countUpM n body s = some s' ∧ Inv n s' := by
  induction n with
  | zero => exact ⟨s, rfl, h0⟩
  | succ n ih =>
    obtain ⟨s', hs', hinv⟩ := ih fun i hi ↦ hstep i (by omega)
    obtain ⟨s'', hs'', hinv'⟩ := hstep n (by omega) s' hinv
    exact ⟨s'', by rw [countUpM, hs', Option.bind_some, hs''], hinv'⟩

/-! ### Carries -/

/-- The number in a run of words, as a sum. -/
theorem Heap.val_eq_sum (M : Heap) (a n : Nat) :
    M.val a n = ∑ i ∈ range n, M.get (a + i) * radix ^ i := by
  induction n with
  | zero => rfl
  | succ n ih => rw [Heap.val_succ, ih, sum_range_succ]

/-- A word stored above those below it, and what it carries. -/
theorem Heap.val_put_carry (M : Heap) (j v : Nat) :
    (M.put j v).val 0 (j + 1) + radix ^ (j + 1) * (v / radix) = M.val 0 j + radix ^ j * v := by
  have hput := Heap.val_put_top M 0 j v
  have hdiv := Nat.mod_add_div v radix
  rw [Nat.zero_add] at hput
  rw [hput, pow_succ]
  linear_combination radix ^ j * hdiv

/-- The loop `t += col(i); r[i] = (uint32_t)t; t >>= 32`, with a 64-bit accumulator: the words and
what is carried out of them. -/
def carryLoop (n : Nat) (col : Nat → Nat) (t : Nat) : Heap × Nat :=
  countUp n (fun i s ↦ (s.1.put i (w64 (s.2 + col i)), w64 (s.2 + col i) >>> 32)) (fun _ ↦ 0, t)

theorem carryLoop_spec {n : Nat} {col : Nat → Nat} {t : Nat} (ht : t < radix)
    (hcol : ∀ i < n, col i + radix ≤ 2 ^ 64) :
    (carryLoop n col t).1.val 0 n + radix ^ n * (carryLoop n col t).2 =
        t + ∑ i ∈ range n, col i * radix ^ i ∧
      (carryLoop n col t).2 < radix := by
  refine countUp_invariant (fun i (s : Heap × Nat) ↦ s.1.val 0 i + radix ^ i * s.2 =
    t + ∑ i ∈ range i, col i * radix ^ i ∧ s.2 < radix) ⟨by simp, ht⟩ ?_
  rintro i hi ⟨r, c⟩ ⟨hval, hc⟩
  have hfit := hcol i hi
  dsimp only at hval hc ⊢
  rw [w64_of_lt (by omega), Nat.shiftRight_eq_div_pow]
  refine ⟨?_, ?_⟩
  · rw [← radix_eq, Heap.val_put_carry, sum_range_succ]
    linear_combination hval
  · rw [← radix_eq, Nat.div_lt_iff_lt_mul radix_pos]
    have : radix * radix = 2 ^ 64 := by decide
    omega

end AmiNetXDuo
