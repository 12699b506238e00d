import Mathlib.Data.List.Basic

/-!
# Machines that read a stream

A machine reads one symbol at a time, may emit something for it, and stops for good when it reaches
a halted state. What it has read so far is all in its state. So a stream may be handed over in
pieces of any size, and no cut is visible.

## Main definitions

* `StreamMachine` : the step of a machine, and its halted states.
* `StreamMachine.feed` : the state, the output and the number of symbols read.
* `StreamMachine.feedAll` : the same for a stream that comes in pieces.

## Main results

* `StreamMachine.feed_append` : reading on behind a first part.
* `StreamMachine.Reads.trans` : parts of a stream that are read to their end, one behind the other.
* `StreamMachine.feedAll_eq_feed_flatten` : the pieces do not matter.
* `StreamMachine.feed_ended` : a machine that has not halted has read everything.
-/

namespace AmiNetXDuo

/-- A machine with states `σ` that reads symbols `α` and emits symbols `β`. -/
structure StreamMachine (σ α β : Type*) where
  step : σ → α → σ × List β
  halted : σ → Bool

namespace StreamMachine

variable {σ α β : Type*} (m : StreamMachine σ α β)

/-- The state a stream leads to, what was emitted on the way, and how much of it was read. -/
def feed : σ → List α → σ × List β × ℕ
  | s, [] => (s, [], 0)
  | s, a :: as =>
    if m.halted s then (s, [], 0)
    else
      let r := feed (m.step s a).1 as
      (r.1, (m.step s a).2 ++ r.2.1, r.2.2 + 1)

/-- A stream handed over in pieces, each to the state the one before left. -/
def feedAll : σ → List (List α) → σ × List β × ℕ
  | s, [] => (s, [], 0)
  | s, piece :: pieces =>
    let r := m.feed s piece
    let r' := feedAll r.1 pieces
    (r'.1, r.2.1 ++ r'.2.1, r.2.2 + r'.2.2)

variable {m} {s : σ}

@[simp] theorem feed_nil : m.feed s [] = (s, [], 0) := rfl

theorem feed_halted (h : m.halted s = true) (as : List α) : m.feed s as = (s, [], 0) := by
  cases as with
  | nil => rfl
  | cons a as => simp only [feed, h, if_true]

theorem feed_cons (h : m.halted s = false) (a : α) (as : List α) :
    m.feed s (a :: as) = ((m.feed (m.step s a).1 as).1,
      (m.step s a).2 ++ (m.feed (m.step s a).1 as).2.1, (m.feed (m.step s a).1 as).2.2 + 1) := by
  simp only [feed, h, Bool.false_eq_true, if_false]

/-- **Reading on**: what stands behind a first part is read from the state that part leads to. -/
theorem feed_append (s : σ) (as bs : List α) :
    m.feed s (as ++ bs) = ((m.feed (m.feed s as).1 bs).1,
      (m.feed s as).2.1 ++ (m.feed (m.feed s as).1 bs).2.1,
      (m.feed s as).2.2 + (m.feed (m.feed s as).1 bs).2.2) := by
  induction as generalizing s with
  | nil => simp only [feed_nil, List.nil_append, Nat.zero_add]
  | cons a as ih =>
    cases h : m.halted s with
    | true => simp only [feed_halted h, List.nil_append, Nat.zero_add]
    | false =>
      rw [List.cons_append, feed_cons h, feed_cons h, ih]
      simp only [List.append_assoc, Nat.add_right_comm]

/-- A part of a stream that is read to its end. -/
def Reads (m : StreamMachine σ α β) (s : σ) (as : List α) (out : List β) (s' : σ) : Prop :=
  m.feed s as = (s', out, as.length)

theorem Reads.feed_append {s' : σ} {as : List α} {out : List β} (h : m.Reads s as out s')
    (bs : List α) : m.feed s (as ++ bs) =
      ((m.feed s' bs).1, out ++ (m.feed s' bs).2.1, as.length + (m.feed s' bs).2.2) := by
  rw [StreamMachine.feed_append, h]

theorem Reads.feed_cons {s' : σ} {a : α} {out : List β} (h : m.Reads s [a] out s') (as : List α) :
    m.feed s (a :: as) = ((m.feed s' as).1, out ++ (m.feed s' as).2.1, 1 + (m.feed s' as).2.2) :=
  h.feed_append as

theorem Reads.trans {s' s'' : σ} {as bs : List α} {out out' : List β} (h : m.Reads s as out s')
    (h' : m.Reads s' bs out' s'') : m.Reads s (as ++ bs) (out ++ out') s'' := by
  rw [Reads, h.feed_append, h', List.length_append]

theorem Reads.one {s₁ : σ} {a : α} {out : List β} (hs : m.halted s = false)
    (hstep : m.step s a = (s₁, out)) : m.Reads s [a] out s₁ := by
  rw [Reads, StreamMachine.feed_cons hs, hstep]
  simp

/-- **The pieces do not matter**: only the stream they make up does. -/
theorem feedAll_eq_feed_flatten (s : σ) (pieces : List (List α)) :
    m.feedAll s pieces = m.feed s pieces.flatten := by
  induction pieces generalizing s with
  | nil => rfl
  | cons piece pieces ih => rw [feedAll, List.flatten_cons, feed_append, ih]

/-- A machine stops short of the end of a stream only in a halted state. -/
theorem feed_ended (s : σ) (as : List α) :
    m.halted (m.feed s as).1 = true ∨ (m.feed s as).2.2 = as.length := by
  induction as generalizing s with
  | nil => exact Or.inr rfl
  | cons a as ih =>
    cases h : m.halted s with
    | true => exact Or.inl (by rw [feed_halted h]; exact h)
    | false =>
      rw [feed_cons h]
      rcases ih (m.step s a).1 with hend | hend
      · exact Or.inl hend
      · exact Or.inr (by rw [hend, List.length_cons])

end StreamMachine

end AmiNetXDuo
