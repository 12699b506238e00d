import AmiNetXDuo.Lib.CountedLoop

/-!
# Limb arrays

The loops that `c68k_25519.c` runs over local arrays of limbs, for arrays of any length: a small
number added to or taken off an array, differences, products and squares. All intermediate words
have 64 bits.

## Main definitions

* `foldPass`, `subPass`, `subFoldPass` : a number added at the bottom, a difference, and a number
  taken off at the bottom, each with what leaves the top.
* `mulWide`, `sqrWide` : the limbs of a product and of a square.

## Main results

* `foldPass_spec`, `subPass_spec`, `subFoldPass_spec` : the value equations.
* `mulWide_spec`, `sqrWide_spec` : the product and the square.
-/

namespace AmiNetXDuo.Crypto68k

open MachineWord

/-! ### The loops -/

/-- `for (i = 0; i < n && t != 0; i++)`: `t` added at the bottom, and what is carried out. -/
def foldPass (n : Nat) (r : Heap) (t : Nat) : Heap × Nat :=
  countUp n (fun i s ↦
    if s.2 = 0 then s
    else (s.1.put i (w64 (s.2 + s.1.get i)), w64 (s.2 + s.1.get i) >>> 32)) (r, t)

/-- One limb of a difference: the limb and the borrow. -/
def subLimb (a b borrow : Nat) : Nat × Nat :=
  let t := w64 (a + 2 ^ 64 - b - borrow)
  (t, if (t >>> 32) &&& 1 = 0 then 0 else 1)

/-- The limbs of a difference, and whether it borrows. -/
def subPass (n : Nat) (a b : Heap) : Heap × Nat :=
  countUp n (fun i s ↦
    (s.1.put i (subLimb (a.get i) (b.get i) s.2).1, (subLimb (a.get i) (b.get i) s.2).2))
    (fun _ ↦ 0, 0)

/-- A number taken off at the bottom, and whether that borrows: the loop ends with the first limb
that does not. -/
def subFoldPass (n : Nat) (r : Heap) (t : Nat) : Heap × Nat :=
  countUp n (fun i s ↦
    if s.2 = 0 then s
    else (s.1.put i (subLimb (s.1.get i) (w32 s.2) 0).1, (subLimb (s.1.get i) (w32 s.2) 0).2))
    (r, t)

/-- One step of a row: a product of two limbs and the carry added to a limb. -/
def mulStep (k ai : Nat) (b : Heap) (l j : Nat) (s : Heap × Nat) : Heap × Nat :=
  let v := w64 (ai * b.get (l + j) + s.1.get (k + j) + s.2)
  (s.1.put (k + j) v, v >>> 32)

/-- One row of a product: `ai` times `n` limbs of `b`, added into `t` from limb `k` on, and the
carry stored above them. -/
def mulRow (n : Nat) (t : Heap) (k : Nat) (ai : Nat) (b : Heap) (l : Nat) : Heap :=
  let s := countUp n (mulStep k ai b l) (t, 0)
  s.1.put (k + n) s.2

/-- The limbs of a product. -/
def mulWide (n : Nat) (a b : Heap) : Heap :=
  countUp n (fun i t ↦ mulRow n t i (a.get i) b 0) fun _ ↦ 0

/-- The products of different limbs, each once. -/
def wideTriangle (n : Nat) (a : Heap) : Heap :=
  countUp n (fun i t ↦ mulRow (n - 1 - i) t (2 * i + 1) (a.get i) a (i + 1)) fun _ ↦ 0

/-- Limbs shifted left by one bit, and the bit that leaves. -/
def wideDouble (n : Nat) (t : Heap) : Heap × Nat :=
  countUp n (fun i s ↦ (s.1.put i (w32 (s.1.get i <<< 1) ||| s.2), s.1.get i >>> 31)) (t, 0)

/-- The squares of the limbs added in, and what is carried out. -/
def wideDiagonal (n : Nat) (a t : Heap) : Heap × Nat :=
  countUp n (fun i s ↦
    let v := w64 (s.2 + (a.get i * a.get i + s.1.get (2 * i)))
    let t := s.1.put (2 * i) v
    let v := w64 (v >>> 32 + t.get (2 * i + 1))
    (t.put (2 * i + 1) v, v >>> 32)) (t, 0)

/-- The limbs of a square. -/
def sqrWide (n : Nat) (a : Heap) : Heap :=
  (wideDiagonal n a (wideDouble (2 * n) (wideTriangle n a)).1).1

/-! ### Small numbers and differences -/

theorem foldPass_spec (n : Nat) {r : Heap} {t : Nat} (ht : t + radix ≤ 2 ^ 64) :
    (foldPass n r t).1.val 0 n + radix ^ n * (foldPass n r t).2 = r.val 0 n + t ∧
      (foldPass n r t).2 ≤ t ∧ ∀ j, n ≤ j → (foldPass n r t).1 j = r j := by
  refine countUp_invariant (fun i (s : Heap × Nat) ↦ s.1.val 0 i + radix ^ i * s.2 = r.val 0 i + t ∧
    s.2 ≤ t ∧ ∀ j, i ≤ j → s.1 j = r j) ⟨by simp, le_rfl, fun _ _ ↦ rfl⟩ ?_
  rintro i - ⟨r', c⟩ ⟨hval, hc, hsame⟩
  dsimp only at hval hc hsame ⊢
  have hget : r'.get i = r.get i := Heap.get_congr (hsame i le_rfl)
  split_ifs with h0
  · subst h0
    refine ⟨?_, by omega, fun j hj ↦ hsame j (by omega)⟩
    rw [Heap.val_succ, Heap.val_succ, Nat.zero_add, hget]
    linear_combination hval
  · have hlimb := r.get_lt i
    dsimp only
    rw [hget, w64_of_lt (by omega), Nat.shiftRight_eq_div_pow, ← radix_eq]
    refine ⟨?_, ?_, ?_⟩
    · rw [Heap.val_put_carry, Heap.val_succ, Nat.zero_add]
      linear_combination hval
    · have hle : c ≤ c * radix := Nat.le_mul_of_pos_right c radix_pos
      have hdiv : (c + r.get i) / radix < c + 1 := by
        rw [Nat.div_lt_iff_lt_mul radix_pos, Nat.add_mul]
        omega
      omega
    · intro j hj
      rw [r'.put_of_ne _ (by omega), hsame j (by omega)]

theorem subLimb_spec {a b borrow : Nat} (ha : a < radix) (hb : b < radix) (hw : borrow ≤ 1) :
    (subLimb a b borrow).1 % radix + b + borrow = a + radix * (subLimb a b borrow).2 ∧
      (subLimb a b borrow).2 ≤ 1 := by
  rw [radix_eq] at *
  simp only [subLimb, w64, Nat.shiftRight_eq_div_pow, Nat.and_one_is_mod]
  rcases Nat.lt_or_ge a (b + borrow) with hlt | hge
  · rw [if_neg (by omega)]
    omega
  · rw [if_pos (by omega)]
    omega

theorem subPass_spec (n : Nat) (a b : Heap) :
    (subPass n a b).1.val 0 n + b.val 0 n = a.val 0 n + radix ^ n * (subPass n a b).2 ∧
      (subPass n a b).2 ≤ 1 := by
  refine countUp_invariant (fun i (s : Heap × Nat) ↦
    s.1.val 0 i + b.val 0 i = a.val 0 i + radix ^ i * s.2 ∧ s.2 ≤ 1) ⟨by simp, by simp⟩ ?_
  rintro i - ⟨r, c⟩ ⟨hval, hc⟩
  dsimp only at hval hc ⊢
  obtain ⟨hlimb, hle⟩ := subLimb_spec (a.get_lt i) (b.get_lt i) hc
  have hput := Heap.val_put_top r 0 i (subLimb (a.get i) (b.get i) c).1
  rw [Nat.zero_add] at hput
  refine ⟨?_, hle⟩
  rw [hput, Heap.val_succ, Heap.val_succ, Nat.zero_add, pow_succ]
  linear_combination hval + radix ^ i * hlimb

theorem subFoldPass_spec {n : Nat} (hn : 0 < n) (r : Heap) {t : Nat} (ht : t < radix) :
    (subFoldPass n r t).1.val 0 n + t = r.val 0 n + radix ^ n * (subFoldPass n r t).2 ∧
      (subFoldPass n r t).2 ≤ 1 := by
  have hinv : (subFoldPass n r t).1.val 0 n + t = r.val 0 n + radix ^ n * (subFoldPass n r t).2 ∧
      (subFoldPass n r t).2 < radix ∧ (0 < n → (subFoldPass n r t).2 ≤ 1) ∧
      ∀ j, n ≤ j → (subFoldPass n r t).1 j = r j := by
    refine countUp_invariant (fun i (s : Heap × Nat) ↦
      s.1.val 0 i + t = r.val 0 i + radix ^ i * s.2 ∧ s.2 < radix ∧ (0 < i → s.2 ≤ 1) ∧
        ∀ j, i ≤ j → s.1 j = r j) ⟨by simp, ht, by simp, fun _ _ ↦ rfl⟩ ?_
    rintro i - ⟨r', c⟩ ⟨hval, hc, -, hsame⟩
    dsimp only at hval hc hsame ⊢
    have hget : r'.get i = r.get i := Heap.get_congr (hsame i le_rfl)
    split_ifs with h0
    · subst h0
      refine ⟨?_, hc, by simp, fun j hj ↦ hsame j (by omega)⟩
      rw [Heap.val_succ, Heap.val_succ, Nat.zero_add, hget]
      linear_combination hval
    · dsimp only
      rw [hget, w32_of_lt hc]
      obtain ⟨hlimb, hle⟩ := subLimb_spec (r.get_lt i) hc (Nat.zero_le 1)
      have hput := Heap.val_put_top r' 0 i (subLimb (r.get i) c 0).1
      rw [Nat.zero_add] at hput
      refine ⟨?_, ?_, fun _ ↦ hle, ?_⟩
      · rw [hput, Heap.val_succ, Nat.zero_add, pow_succ]
        linear_combination hval + radix ^ i * hlimb
      · exact hle.trans_lt (by decide)
      · intro j hj
        rw [r'.put_of_ne _ (by omega), hsame j (by omega)]
  exact ⟨hinv.1, hinv.2.2.1 hn⟩

/-! ### Products -/

/-- A product of two limbs, with two limbs added, fits two limbs. -/
theorem mul_add_add_lt {a b c d : Nat} (ha : a < radix) (hb : b < radix) (hc : c < radix)
    (hd : d < radix) : a * b + c + d < 2 ^ 64 := by
  have hmul : a * b ≤ (radix - 1) * (radix - 1) := Nat.mul_le_mul (by omega) (by omega)
  rw [radix_eq] at *
  omega

theorem div_radix_lt {v : Nat} (hv : v < 2 ^ 64) : v / radix < radix :=
  (Nat.div_lt_iff_lt_mul radix_pos).mpr hv

theorem mulRow_spec {t b : Heap} {n k ai l : Nat} (hai : ai < radix) :
    (mulRow n t k ai b l).val 0 (k + n + 1) = t.val 0 (k + n) + radix ^ k * (ai * b.val l n) := by
  have hinv : (countUp n (mulStep k ai b l) (t, 0)).1.val 0 (k + n) +
        radix ^ (k + n) * (countUp n (mulStep k ai b l) (t, 0)).2 =
        t.val 0 (k + n) + radix ^ k * (ai * b.val l n) ∧
      (countUp n (mulStep k ai b l) (t, 0)).2 < radix ∧
      ∀ i, k + n ≤ i → (countUp n (mulStep k ai b l) (t, 0)).1 i = t i := by
    refine countUp_invariant (fun j (s : Heap × Nat) ↦
      s.1.val 0 (k + j) + radix ^ (k + j) * s.2 = t.val 0 (k + j) + radix ^ k * (ai * b.val l j) ∧
        s.2 < radix ∧ ∀ i, k + j ≤ i → s.1 i = t i) ⟨by simp, radix_pos, fun _ _ ↦ rfl⟩ ?_
    rintro j - ⟨r, c⟩ ⟨hval, hc, hsame⟩
    dsimp only [mulStep] at hval hc hsame ⊢
    have hget : r.get (k + j) = t.get (k + j) := Heap.get_congr (hsame _ le_rfl)
    have hfit := mul_add_add_lt hai (b.get_lt (l + j)) (t.get_lt (k + j)) hc
    rw [hget, w64_of_lt hfit, Nat.shiftRight_eq_div_pow, ← radix_eq, ← Nat.add_assoc k]
    refine ⟨?_, div_radix_lt hfit, fun i hi ↦ ?_⟩
    · rw [Heap.val_put_carry, Heap.val_succ, Heap.val_succ, Nat.zero_add, pow_add]
      rw [pow_add] at hval
      linear_combination hval
    · rw [r.put_of_ne _ (by omega), hsame i (by omega)]
  obtain ⟨hval, hlt, -⟩ := hinv
  have hput := Heap.val_put_carry (countUp n (mulStep k ai b l) (t, 0)).1 (k + n)
    (countUp n (mulStep k ai b l) (t, 0)).2
  rw [Nat.div_eq_of_lt hlt, Nat.mul_zero, Nat.add_zero, hval] at hput
  exact hput

theorem mulWide_spec (n : Nat) (a b : Heap) :
    (mulWide n a b).val 0 (n + n) = a.val 0 n * b.val 0 n := by
  refine countUp_invariant (fun i t ↦ Heap.val t 0 (i + n) = a.val 0 i * b.val 0 n) ?_ ?_
  · rw [Heap.val_eq_zero fun _ _ ↦ rfl, Heap.val_zero, Nat.zero_mul]
  · rintro i - t hval
    rw [show i + 1 + n = i + n + 1 by omega, mulRow_spec (a.get_lt i), hval, Heap.val_succ,
      Nat.zero_add]
    ring

/-! ### Squares -/

/-- The diagonal of a square: the squares of the limbs at every second place. -/
def diagonal (M : Heap) (x : Nat) : Nat → Nat
  | 0 => 0
  | i + 1 => diagonal M x i + M.get (x + i) * M.get (x + i) * radix ^ (2 * i)

theorem wideTriangle_spec (n : Nat) (a : Heap) :
    2 * (wideTriangle n a).val 0 (n + n) + diagonal a 0 n = a.val 0 n ^ 2 := by
  have hinv : 2 * (wideTriangle n a).val 0 (n + n) + diagonal a 0 n +
      (radix ^ n * a.val n (n - n)) ^ 2 = a.val 0 n ^ 2 := by
    refine countUp_invariant (fun i t ↦ 2 * Heap.val t 0 (i + n) + diagonal a 0 i +
      (radix ^ i * a.val i (n - i)) ^ 2 = a.val 0 n ^ 2) ?_ ?_
    · rw [Heap.val_eq_zero fun _ _ ↦ rfl, diagonal, pow_zero, Nat.one_mul, Nat.sub_zero]
      omega
    · rintro i hi t hval
      obtain ⟨k, rfl⟩ : ∃ k, n = i + 1 + k := ⟨n - i - 1, by omega⟩
      rw [show i + 1 + k - i = k + 1 by omega, Heap.val_succ_left a i] at hval
      rw [show i + 1 + k - 1 - i = k by omega, show i + 1 + k - (i + 1) = k by omega, diagonal,
        Nat.zero_add, show i + 1 + (i + 1 + k) = 2 * i + 1 + k + 1 by omega,
        mulRow_spec (a.get_lt i), show 2 * i + 1 + k = i + (i + 1 + k) by omega]
      linear_combination hval
  rw [Nat.sub_self, Heap.val_zero] at hinv
  linarith

theorem wideDouble_spec {n : Nat} {t : Heap} (hfit : 2 * t.val 0 n < radix ^ n) :
    (wideDouble n t).1.val 0 n = 2 * t.val 0 n := by
  have hinv : (wideDouble n t).1.val 0 n + radix ^ n * (wideDouble n t).2 = 2 * t.val 0 n ∧
      (wideDouble n t).2 ≤ 1 ∧ ∀ j, n ≤ j → (wideDouble n t).1 j = t j := by
    refine countUp_invariant (fun i (s : Heap × Nat) ↦ s.1.val 0 i + radix ^ i * s.2 =
      2 * t.val 0 i ∧ s.2 ≤ 1 ∧ ∀ j, i ≤ j → s.1 j = t j) ⟨by simp, by simp, fun _ _ ↦ rfl⟩ ?_
    rintro i - ⟨r, c⟩ ⟨hval, hc, hsame⟩
    dsimp only at hval hc hsame ⊢
    have hget : r.get i = t.get i := Heap.get_congr (hsame i le_rfl)
    have hlimb := t.get_lt i
    have hor : w32 (t.get i <<< 1) ||| c = 2 * t.get i % radix + c := by
      rw [w32_shiftLeft (by decide), Nat.or_comm, or_shiftLeft (by omega), radix_eq]
      omega
    have hlt : 2 * t.get i % radix + c < radix := by
      rw [radix_eq] at *
      omega
    have hout : 2 * t.get i % radix + c + radix * (t.get i / 2 ^ 31) = 2 * t.get i + c := by
      rw [radix_eq] at *
      omega
    rw [hget, hor, Nat.shiftRight_eq_div_pow]
    refine ⟨?_, ?_, fun j hj ↦ ?_⟩
    · have hput := Heap.val_put_top r 0 i (2 * t.get i % radix + c)
      rw [Nat.zero_add, Nat.mod_eq_of_lt hlt] at hput
      rw [hput, Heap.val_succ, Nat.zero_add, pow_succ]
      linear_combination hval + radix ^ i * hout
    · rw [radix_eq] at hlimb
      omega
    · rw [r.put_of_ne _ (by omega), hsame j (by omega)]
  obtain ⟨hval, hc, -⟩ := hinv
  rcases (by omega : (wideDouble n t).2 = 0 ∨ (wideDouble n t).2 = 1) with h | h
  · rw [h] at hval
    omega
  · rw [h] at hval
    omega

theorem wideDiagonal_spec {n : Nat} {a t : Heap}
    (hfit : t.val 0 (2 * n) + diagonal a 0 n < radix ^ (2 * n)) :
    (wideDiagonal n a t).1.val 0 (2 * n) = t.val 0 (2 * n) + diagonal a 0 n := by
  have hinv : (wideDiagonal n a t).1.val 0 (2 * n) + radix ^ (2 * n) * (wideDiagonal n a t).2 =
      t.val 0 (2 * n) + diagonal a 0 n ∧ (wideDiagonal n a t).2 < radix ∧
      ∀ j, 2 * n ≤ j → (wideDiagonal n a t).1 j = t j := by
    refine countUp_invariant (fun i (s : Heap × Nat) ↦ s.1.val 0 (2 * i) + radix ^ (2 * i) * s.2 =
      t.val 0 (2 * i) + diagonal a 0 i ∧ s.2 < radix ∧ ∀ j, 2 * i ≤ j → s.1 j = t j)
      ⟨by simp [diagonal], radix_pos, fun _ _ ↦ rfl⟩ ?_
    rintro i - ⟨r, c⟩ ⟨hval, hc, hsame⟩
    dsimp only at hval hc hsame ⊢
    have hlo : r.get (2 * i) = t.get (2 * i) := Heap.get_congr (hsame _ le_rfl)
    have hhi : ∀ v, (r.put (2 * i) v).get (2 * i + 1) = t.get (2 * i + 1) := fun v ↦
      Heap.get_congr (by rw [r.put_of_ne _ (by omega), hsame _ (by omega)])
    have hfit := mul_add_add_lt (a.get_lt i) (a.get_lt i) (t.get_lt (2 * i)) hc
    obtain ⟨v, hv⟩ : ∃ v, v = c + (a.get i * a.get i + t.get (2 * i)) := ⟨_, rfl⟩
    have hcarry : v / radix < radix := div_radix_lt (by omega)
    have hlimb := t.get_lt (2 * i + 1)
    have hnext : v / radix + t.get (2 * i + 1) < 2 ^ 64 := by
      rw [radix_eq] at *
      omega
    rw [hlo, ← hv, w64_of_lt (by omega), hhi, Nat.shiftRight_eq_div_pow, Nat.shiftRight_eq_div_pow,
      ← radix_eq, w64_of_lt hnext]
    refine ⟨?_, div_radix_lt hnext, fun j hj ↦ ?_⟩
    · rw [show 2 * (i + 1) = 2 * i + 1 + 1 by omega, Heap.val_put_carry]
      have hput := Heap.val_put_carry r (2 * i) v
      rw [Heap.val_succ t, Heap.val_succ t, Nat.zero_add, Nat.zero_add, diagonal, Nat.zero_add]
      linear_combination hput + hval + radix ^ (2 * i) * hv
    · rw [Heap.put_of_ne _ _ (by omega), r.put_of_ne _ (by omega), hsame j (by omega)]
  obtain ⟨hval, -, -⟩ := hinv
  rcases Nat.eq_zero_or_pos (wideDiagonal n a t).2 with h | h
  · rw [h] at hval
    exact hval
  · have hle := Nat.mul_le_mul_left (radix ^ (2 * n)) h
    omega

theorem sqrWide_spec (n : Nat) (a : Heap) : (sqrWide n a).val 0 (2 * n) = a.val 0 n ^ 2 := by
  have htri := wideTriangle_spec n a
  rw [← Nat.two_mul] at htri
  have hlt : a.val 0 n ^ 2 < radix ^ (2 * n) := by
    have h := Nat.pow_lt_pow_left (a.val_lt 0 n) (n := 2) (by decide)
    rwa [← pow_mul, Nat.mul_comm n] at h
  have hdouble := wideDouble_spec (n := 2 * n) (t := wideTriangle n a) (by omega)
  rw [sqrWide, wideDiagonal_spec (by omega), hdouble, htri]

end AmiNetXDuo.Crypto68k
