import Mathlib.Data.List.Basic
import Mathlib.Data.Nat.ModEq
import Mathlib.Logic.Function.Basic

/-!
# Ring buffers

A queue in an array of fixed size: `head` is the place of the oldest entry and `count` the number
of entries, which wrap around the end of the array.

## Main definitions

* `Ring` : the queue, with its bounds.
* `Ring.toList` : its entries, oldest first.
* `Ring.push`, `Ring.pop` : adding at the end, removing at the head.

## Main results

* `Ring.toList_push`, `Ring.toList_pop` : the queue is the list.
-/

namespace AmiNetXDuo

/-- A queue in an array of `cap` places. -/
structure Ring (α : Type*) (cap : Nat) where
  cell : Nat → α
  head : Nat
  count : Nat
  head_lt : head < cap
  count_le : count ≤ cap

namespace Ring

variable {α : Type*} {cap : Nat}

/-- An empty queue, whatever the array holds. -/
def empty (cell : Nat → α) (h : 0 < cap) : Ring α cap := ⟨cell, 0, 0, h, Nat.zero_le _⟩

/-- The entries, oldest first. -/
def toList (q : Ring α cap) : List α :=
  (List.range q.count).map fun i ↦ q.cell ((q.head + i) % cap)

/-- The oldest entry. -/
def front (q : Ring α cap) : α := q.cell q.head

/-- A new entry behind the others. -/
def push (q : Ring α cap) (x : α) (h : q.count < cap) : Ring α cap where
  cell := Function.update q.cell ((q.head + q.count) % cap) x
  head := q.head
  count := q.count + 1
  head_lt := q.head_lt
  count_le := h

/-- The queue without its oldest entry. -/
def pop (q : Ring α cap) : Ring α cap where
  cell := q.cell
  head := (q.head + 1) % cap
  count := q.count - 1
  head_lt := Nat.mod_lt _ (Nat.zero_lt_of_lt q.head_lt)
  count_le := (Nat.sub_le _ _).trans q.count_le

theorem toList_eq_nil {q : Ring α cap} : q.toList = [] ↔ q.count = 0 := by
  simp [toList]

theorem toList_push (q : Ring α cap) (x : α) (h : q.count < cap) :
    (q.push x h).toList = q.toList ++ [x] := by
  simp only [toList, push, List.range_succ, List.map_append, List.map_cons, List.map_nil,
    Function.update_self]
  congr 1
  refine List.map_congr_left fun i hi ↦ Function.update_of_ne ?_ _ _
  intro heq
  -- two places of the queue are the same only if the entries are
  have hi := List.mem_range.mp hi
  have hmod := Nat.ModEq.add_left_cancel' q.head heq
  rw [Nat.ModEq, Nat.mod_eq_of_lt (hi.trans h), Nat.mod_eq_of_lt h] at hmod
  omega

theorem toList_pop (q : Ring α cap) (h : q.count ≠ 0) : q.toList = q.front :: q.pop.toList := by
  obtain ⟨k, hk⟩ := Nat.exists_eq_succ_of_ne_zero h
  simp only [toList, front, pop, hk, Nat.succ_eq_add_one, List.range_succ_eq_map, List.map_cons,
    List.map_map, Nat.add_zero, Nat.mod_eq_of_lt q.head_lt, Nat.add_sub_cancel]
  congr 1
  refine List.map_congr_left fun i _ ↦ ?_
  simp only [Function.comp, Nat.mod_add_mod]
  congr 2
  omega

end Ring

end AmiNetXDuo
