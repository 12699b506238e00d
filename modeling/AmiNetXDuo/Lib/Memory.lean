import Mathlib.Data.List.Basic
import Mathlib.Logic.Function.Basic

/-!
# Byte memory

Memory as a function from addresses to bytes, with runs of bytes read from it and combined into
it one byte at a time, in the order of the addresses, the way a copying loop of C does.

## Main definitions

* `Memory.read` : a run of bytes.
* `Memory.xorInto` : a run of bytes combined with a byte string, byte by byte.
* `Memory.write`, `Memory.copy` : a byte string written, a run of bytes copied, byte by byte.
* `Memory.copyDown` : a run of bytes copied from its last byte on.

## Main results

* `Memory.read_xorInto` : the result when the source is the destination or lies apart from it.
* `Memory.copy_eq_write` : a run of bytes copied to a place apart from it.
* `Memory.copyDown_eq_write` : a run of bytes moved up, into the bytes behind it.
-/

namespace AmiNetXDuo.Memory

/-- The `n` bytes from an address on. -/
def read (m : Nat → BitVec 8) (a n : Nat) : List (BitVec 8) := (List.range n).map fun i ↦ m (a + i)

/-- `dst[i] = src[i] ^ ks[i]` for every byte of `ks`, in order. -/
def xorInto (m : Nat → BitVec 8) (src dst : Nat) : List (BitVec 8) → Nat → BitVec 8
  | [] => m
  | k :: ks => xorInto (Function.update m dst (m src ^^^ k)) (src + 1) (dst + 1) ks

@[simp] theorem length_read (m : Nat → BitVec 8) (a n : Nat) : (read m a n).length = n := by
  simp [read]

theorem read_add (m : Nat → BitVec 8) (a n k : Nat) :
    read m a (n + k) = read m a n ++ read m (a + n) k := by
  simp [read, List.range_add, Nat.add_assoc]

theorem read_succ (m : Nat → BitVec 8) (a n : Nat) :
    read m a (n + 1) = m a :: read m (a + 1) n := by
  rw [Nat.add_comm n 1, read_add]
  rfl

theorem drop_read (m : Nat → BitVec 8) (a : Nat) {k n : Nat} (h : k ≤ n) :
    (read m a n).drop k = read m (a + k) (n - k) := by
  rw [← Nat.add_sub_cancel' h, read_add, List.drop_left' (length_read ..), Nat.add_sub_cancel' h]

theorem read_congr {m m' : Nat → BitVec 8} {a n : Nat} (h : ∀ i < n, m (a + i) = m' (a + i)) :
    read m a n = read m' a n :=
  List.map_congr_left fun i hi ↦ h i (List.mem_range.mp hi)

theorem xorInto_append (m : Nat → BitVec 8) (src dst : Nat) (ks ls : List (BitVec 8)) :
    xorInto m src dst (ks ++ ls) =
      xorInto (xorInto m src dst ks) (src + ks.length) (dst + ks.length) ls := by
  induction ks generalizing m src dst with
  | nil => rfl
  | cons k ks ih =>
    rw [List.cons_append, xorInto, xorInto, ih, List.length_cons]
    congr 1 <;> omega

/-- Nothing outside the destination changes. -/
theorem xorInto_of_lt_or_ge {m : Nat → BitVec 8} {src dst i : Nat} {ks : List (BitVec 8)}
    (h : i < dst ∨ dst + ks.length ≤ i) : xorInto m src dst ks i = m i := by
  induction ks generalizing m src dst with
  | nil => rfl
  | cons k ks ih =>
    rw [List.length_cons] at h
    rw [xorInto, ih (by omega), Function.update_of_ne (by omega)]

/-- **In place or apart.** The destination then holds the source combined with the byte string. -/
theorem read_xorInto (m : Nat → BitVec 8) {src dst : Nat} (ks : List (BitVec 8))
    (h : src = dst ∨ src + ks.length ≤ dst ∨ dst + ks.length ≤ src) :
    read (xorInto m src dst ks) dst ks.length =
      List.zipWith (· ^^^ ·) (read m src ks.length) ks := by
  induction ks generalizing m src dst with
  | nil => rfl
  | cons k ks ih =>
    rw [List.length_cons] at h ⊢
    rw [read_succ, read_succ, List.zipWith_cons_cons, xorInto, ih _ (by omega),
      xorInto_of_lt_or_ge (.inl (Nat.lt_succ_self dst)), Function.update_self]
    congr 2
    refine read_congr fun i hi ↦ Function.update_of_ne ?_ _ _
    omega

/-! ### Writing and copying -/

/-- The bytes written from an address on, in order. -/
def write (m : Nat → BitVec 8) (a : Nat) : List (BitVec 8) → Nat → BitVec 8
  | [] => m
  | b :: bs => write (Function.update m a b) (a + 1) bs

/-- `dst[i] = src[i]` for `n` bytes, in order. -/
def copy (m : Nat → BitVec 8) (src dst : Nat) : Nat → Nat → BitVec 8
  | 0 => m
  | n + 1 => copy (Function.update m dst (m src)) (src + 1) (dst + 1) n

/-- Nothing outside the run changes. -/
theorem write_of_lt_or_ge {m : Nat → BitVec 8} {a i : Nat} {bs : List (BitVec 8)}
    (h : i < a ∨ a + bs.length ≤ i) : write m a bs i = m i := by
  induction bs generalizing m a with
  | nil => rfl
  | cons b bs ih =>
    rw [List.length_cons] at h
    rw [write, ih (by omega), Function.update_of_ne (by omega)]

theorem read_write (m : Nat → BitVec 8) (a : Nat) (bs : List (BitVec 8)) :
    read (write m a bs) a bs.length = bs := by
  induction bs generalizing m a with
  | nil => rfl
  | cons b bs ih =>
    rw [List.length_cons, read_succ, write, ih, write_of_lt_or_ge (.inl (Nat.lt_succ_self a)),
      Function.update_self]

theorem write_append (m : Nat → BitVec 8) (a : Nat) (bs cs : List (BitVec 8)) :
    write m a (bs ++ cs) = write (write m a bs) (a + bs.length) cs := by
  induction bs generalizing m a with
  | nil => rfl
  | cons b bs ih =>
    rw [List.cons_append, write, write, ih, List.length_cons]
    congr 1
    omega

/-- A run that lies apart from what is written. -/
theorem read_write_of_apart {m : Nat → BitVec 8} {a : Nat} {bs : List (BitVec 8)} {b n : Nat}
    (h : b + n ≤ a ∨ a + bs.length ≤ b) : read (write m a bs) b n = read m b n :=
  read_congr fun i hi ↦ write_of_lt_or_ge (by omega)

/-- **A copy to a place apart.** -/
theorem copy_eq_write (m : Nat → BitVec 8) {src dst n : Nat} (h : src + n ≤ dst ∨ dst + n ≤ src) :
    copy m src dst n = write m dst (read m src n) := by
  induction n generalizing m src dst with
  | zero => rfl
  | succ n ih =>
    rw [copy, read_succ, write, ih _ (by omega)]
    congr 1
    refine read_congr fun i hi ↦ Function.update_of_ne ?_ _ _
    omega

/-- `dst[i] = src[i]` for `n` bytes, from the last one on. -/
def copyDown (m : Nat → BitVec 8) (src dst : Nat) : Nat → Nat → BitVec 8
  | 0 => m
  | n + 1 => copyDown (Function.update m (dst + n) (m (src + n))) src dst n

theorem write_update_of_ge (m : Nat → BitVec 8) {a i : Nat} (b : BitVec 8) {bs : List (BitVec 8)}
    (h : a + bs.length ≤ i) :
    write (Function.update m i b) a bs = Function.update (write m a bs) i b := by
  induction bs generalizing m a with
  | nil => rfl
  | cons c bs ih =>
    rw [List.length_cons] at h
    rw [write, write, Function.update_comm (by omega), ih _ (by omega)]

/-- **A copy upwards, from the last byte on.** The two runs may overlap. -/
theorem copyDown_eq_write (m : Nat → BitVec 8) {src dst : Nat} (n : Nat) (h : src ≤ dst) :
    copyDown m src dst n = write m dst (read m src n) := by
  induction n generalizing m with
  | zero => rfl
  | succ n ih =>
    -- the byte written first lies behind every byte that is still to be read
    have hread : read (Function.update m (dst + n) (m (src + n))) src n = read m src n :=
      read_congr fun i hi ↦ Function.update_of_ne (by omega) _ _
    rw [copyDown, ih, hread, write_update_of_ge _ _ (by simp), read_add, write_append, length_read]
    rfl

/-- A byte string written behind a run. -/
theorem read_write_end (m : Nat → BitVec 8) (a n : Nat) (bs : List (BitVec 8)) :
    read (write m (a + n) bs) a (n + bs.length) = read m a n ++ bs := by
  rw [read_add, read_write, read_write_of_apart (.inl (Nat.le_refl _))]

/-- A byte string written inside a run, over as many bytes of it. -/
theorem read_write_inside {m : Nat → BitVec 8} {a n : Nat} {xs ys zs : List (BitVec 8)}
    (bs : List (BitVec 8)) (h : read m a n = xs ++ ys ++ zs) (hlen : bs.length = ys.length) :
    read (write m (a + xs.length) bs) a n = xs ++ bs ++ zs := by
  have hn : n = xs.length + bs.length + zs.length := by
    rw [← length_read m a n, h, List.length_append, List.length_append, hlen]
  subst hn
  rw [read_add, read_add] at h ⊢
  obtain ⟨hpair, hz⟩ := List.append_inj h (by simp [hlen])
  obtain ⟨hx, -⟩ := List.append_inj hpair (by simp)
  rw [read_write, read_write_of_apart (.inl (Nat.le_refl _)), hx,
    read_write_of_apart (.inr (by omega)), hz]

end AmiNetXDuo.Memory
