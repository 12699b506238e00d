import AmiNetXDuo.Basic
import AmiNetXDuo.Lib.CountedLoop
import AmiNetXDuo.Lib.LittleEndian
import Mathlib.Algebra.BigOperators.Ring.Finset
import Mathlib.Data.Int.ModEq
import Mathlib.Tactic.Positivity

/-!
# Scalars of Ed25519

The arithmetic modulo the order of the group in `c68k_25519.c`. A number is a row of signed digits
to the base 256, in `int64_t`; the high digits are eliminated one by one from the top, with carries
that are rounded to the nearest and leave the digits below around zero, and one estimate of the
quotient and one correction finish the reduction.

Every signed operation of the source goes through `int64`, which has no result on overflow.

## Main definitions

* `scModL`, `scReduce`, `scMuladd` : the functions of the source.
* `digitSum` : the number that a row of digits stands for.

## Main results

* `eliminate_spec` : one digit eliminated, with a multiple of the order.
* `Eliminated.step` : what the digits are like behind one more elimination.
* `scModL_spec` : the reduction, for digits below `2 ^ 21`.
* `scalar_exact` : the two functions, for all arguments.
-/

namespace AmiNetXDuo.Crypto68k

open Finset

/-- The order of the group. -/
def groupOrder : Nat := 2 ^ 252 + 27742317777372353535851937790883648493

/-! ### The code -/

/-- The value of a signed operation, if an `int64_t` can hold it. -/
def int64 (z : Int) : Option Int := if -2 ^ 63 ≤ z ∧ z < 2 ^ 63 then some z else none

/-- `sc_L`. -/
def scL (k : Nat) : Int :=
  [0xed, 0xd3, 0xf5, 0x5c, 0x1a, 0x63, 0x12, 0x58, 0xd6, 0x9c, 0xf7, 0xa2, 0xde, 0xf9, 0xde, 0x14,
    0, 0, 0, 0, 0, 0, 0, 0, 0, 0, 0, 0, 0, 0, 0, 0x10].getD k 0

/-- The digits, and a carry. -/
abbrev ScState : Type := (Nat → Int) × Int

/-- The body of the loop over the digits below the one that is eliminated. -/
def eliminateStep (i k : Nat) (s : ScState) : Option ScState := do
  let (x, carry) := s
  let j := i - 32 + k
  let p ← int64 (16 * x i)
  let p ← int64 (p * scL k)
  let p ← int64 (carry - p)
  let v ← int64 (x j + p)
  let t ← int64 (v + 128)
  let carry := t >>> (8 : Nat)
  let t ← int64 (carry * 256)
  let w ← int64 (v - t)
  return (Function.update x j w, carry)

/-- The elimination of one digit. -/
def eliminate (i : Nat) (x : Nat → Int) : Option (Nat → Int) := do
  let (x, carry) ← countUpM 20 (eliminateStep i) (x, 0)
  let w ← int64 (x (i - 12) + carry)
  return Function.update (Function.update x (i - 12) w) i 0

/-- The body of the loop that takes off the estimated multiple of the order. -/
def quotientStep (j : Nat) (s : ScState) : Option ScState := do
  let (x, carry) := s
  let p ← int64 ((x 31 >>> (4 : Nat)) * scL j)
  let p ← int64 (carry - p)
  let v ← int64 (x j + p)
  return (Function.update x j (v % 256), v >>> (8 : Nat))

/-- The body of the loop that adds the order once more for a negative number. -/
def correctStep (carry : Int) (j : Nat) (x : Nat → Int) : Option (Nat → Int) := do
  let p ← int64 (carry * scL j)
  let v ← int64 (x j - p)
  return Function.update x j v

/-- The body of the loop that makes bytes of the digits. -/
def storeStep (i : Nat) (s : (Nat → Int) × List UByte) : Option ((Nat → Int) × List UByte) := do
  let (x, r) := s
  let v ← int64 (x (i + 1) + x i >>> (8 : Nat))
  return (Function.update x (i + 1) v, r ++ [BitVec.ofInt 8 (x i % 256)])

/-- `sc_modL()`. -/
def scModL (x : Nat → Int) : Option (List UByte) := do
  let x ← countUpM 32 (fun n ↦ eliminate (63 - n)) x
  let (x, carry) ← countUpM 32 quotientStep (x, 0)
  let x ← countUpM 32 (correctStep carry) x
  let (_, r) ← countUpM 32 storeStep (x, [])
  return r

/-- A byte of an argument, as a digit. -/
def byteDigit (bytes : List UByte) (i : Nat) : Int := (bytes.getD i 0).toNat

/-- `sc_reduce()`: the 64 bytes that it leaves. -/
def scReduce (r : Vector UByte 64) : Option (List UByte) := do
  let s ← scModL (byteDigit r.toList)
  return s ++ List.replicate 32 0

/-- The body of the two loops over the columns of the product. -/
def columnStep (a b : List UByte) (i j : Nat) (x : Nat → Int) : Option (Nat → Int) := do
  let p ← int64 (byteDigit a i * byteDigit b j)
  let v ← int64 (x (i + j) + p)
  return Function.update x (i + j) v

/-- `sc_muladd()`. -/
def scMuladd (a b c : Vector UByte 32) : Option (List UByte) := do
  let x ← countUpM 32 (fun i x ↦ countUpM 32 (columnStep a.toList b.toList i) x)
    (byteDigit c.toList)
  scModL x

/-! ### Digits -/

/-- The number of the first `n` digits. -/
def digitSum (x : Nat → Int) (n : Nat) : Int := ∑ j ∈ range n, x j * 256 ^ j

theorem digitSum_succ (x : Nat → Int) (n : Nat) :
    digitSum x (n + 1) = digitSum x n + x n * 256 ^ n := sum_range_succ ..

theorem digitSum_congr {x y : Nat → Int} {n : Nat} (h : ∀ j < n, x j = y j) :
    digitSum x n = digitSum y n :=
  sum_congr rfl fun j hj ↦ by rw [h j (mem_range.mp hj)]

/-- One digit changed. -/
theorem digitSum_update (x : Nat → Int) {j n : Nat} (hj : j < n) (v : Int) :
    digitSum (Function.update x j v) n = digitSum x n + (v - x j) * 256 ^ j := by
  induction n with
  | zero => omega
  | succ n ih =>
    rw [digitSum_succ, digitSum_succ]
    rcases Nat.lt_succ_iff_lt_or_eq.mp hj with hlt | rfl
    · rw [ih hlt, Function.update_of_ne (by omega)]
      ring
    · rw [digitSum_congr fun k hk ↦ Function.update_of_ne (Nat.ne_of_lt hk) v x,
        Function.update_self]
      ring

/-- Digits around zero. -/
theorem digitSum_bounds {x : Nat → Int} {n : Nat} {m : Int} (h : ∀ j < n, -m ≤ x j ∧ x j ≤ m) :
    -(m * (256 ^ n - 1)) ≤ 255 * digitSum x n ∧ 255 * digitSum x n ≤ m * (256 ^ n - 1) := by
  induction n with
  | zero => simp [digitSum]
  | succ n ih =>
    obtain ⟨hlow, hhigh⟩ := ih fun j hj ↦ h j (by omega)
    have hpow : (0 : Int) ≤ 256 ^ n := by positivity
    have htop := mul_le_mul_of_nonneg_right (h n (by omega)).2 hpow
    have hbot := mul_le_mul_of_nonneg_right (h n (by omega)).1 hpow
    rw [digitSum_succ, pow_succ]
    constructor <;> linarith

theorem int64_bind {α : Type} {z : Int} (h : -2 ^ 63 ≤ z ∧ z < 2 ^ 63) (f : Int → Option α) :
    (int64 z).bind f = f z := by
  rw [int64, if_pos h, Option.bind_some]

theorem shiftRight_eight (z : Int) : z >>> (8 : Nat) = z / 256 := Int.shiftRight_eq_div_pow z 8

theorem scL_bounds (k : Nat) : 0 ≤ scL k ∧ scL k ≤ 255 := by
  rcases Nat.lt_or_ge k 32 with hk | hk
  · exact (by decide : ∀ k < 32, 0 ≤ scL k ∧ scL k ≤ 255) k hk
  · rw [scL, List.getD_eq_default _ _ hk]
    decide

/-- A digit times a digit of the order. -/
theorem mul_scL_bounds {z m : Int} (h : -m ≤ z ∧ z ≤ m) (k : Nat) :
    -(255 * m) ≤ z * scL k ∧ z * scL k ≤ 255 * m := by
  obtain ⟨h0, h255⟩ := scL_bounds k
  have hm : 0 ≤ m := by omega
  constructor <;> nlinarith

/-- The digits of the order. -/
theorem digitSum_scL : digitSum scL 32 = groupOrder := by decide +kernel

/-- The digits of the order below its highest one. -/
theorem digitSum_scL_low : digitSum scL 20 + 16 * 256 ^ 31 = groupOrder := by decide +kernel

/-! ### Eliminating a digit -/

/-- One step, as numbers: nothing overflows. -/
theorem eliminateStep_eq {i k : Nat} {x : Nat → Int} {carry m v : Int} (hm : m ≤ 2 ^ 40)
    (hi : -m ≤ x i ∧ x i ≤ m) (hj : -m ≤ x (i - 32 + k) ∧ x (i - 32 + k) ≤ m)
    (hcarry : -(17 * m + 2) ≤ carry ∧ carry ≤ 17 * m + 2)
    (hv : v = x (i - 32 + k) + (carry - 16 * (x i * scL k))) :
    eliminateStep i k (x, carry) =
      some (Function.update x (i - 32 + k) (v - (v + 128) / 256 * 256), (v + 128) / 256) := by
  obtain ⟨hlow, hhigh⟩ := mul_scL_bounds hi k
  simp only [eliminateStep, Option.bind_eq_bind, shiftRight_eight]
  rw [int64_bind (by omega), mul_assoc, int64_bind (by omega), int64_bind (by omega),
    int64_bind (by omega), ← hv, int64_bind (by omega), int64_bind (by omega),
    int64_bind (by omega)]
  rfl

/-- How large a carry is in front of the `k`-th digit below the one that is eliminated, if the last
four of these digits are around zero. -/
def carryBound : Nat → Int
  | 17 => 2 ^ 23
  | 18 => 2 ^ 15
  | 19 => 2 ^ 7
  | 20 => 1
  | _ => 2 ^ 31

/-- A digit around zero and a carry into it: the next carry is less than it by a factor. -/
theorem carryBound_succ {k : Nat} {carry v : Int} (hk : k < 20)
    (hcarry : -carryBound k ≤ carry ∧ carry ≤ carryBound k) (hk' : 16 ≤ k)
    (hv : -128 + carry ≤ v ∧ v ≤ 127 + carry) :
    -carryBound (k + 1) ≤ (v + 128) / 256 ∧ (v + 128) / 256 ≤ carryBound (k + 1) := by
  obtain rfl | rfl | rfl | rfl : k = 16 ∨ k = 17 ∨ k = 18 ∨ k = 19 := by omega
  all_goals
    simp only [carryBound] at hcarry ⊢
    omega

theorem carryBound_of_le {k : Nat} (hk : k ≤ 16) : carryBound k = 2 ^ 31 :=
  (by decide : ∀ k < 17, carryBound k = 2 ^ 31) k (by omega)

theorem scL_eq_zero {k : Nat} (hk : 16 ≤ k) (hk' : k < 31) : scL k = 0 :=
  (by decide : ∀ k < 31, 16 ≤ k → scL k = 0) k hk' hk

/-- The digits, part of the way through an elimination. -/
structure Eliminating (i : Nat) (m : Int) (x₀ : Nat → Int) (k : Nat) (s : ScState) : Prop where
  others : ∀ j, j < i - 32 ∨ i - 32 + k ≤ j → s.1 j = x₀ j
  done : ∀ t < k, -128 ≤ s.1 (i - 32 + t) ∧ s.1 (i - 32 + t) ≤ 127
  carry : -(17 * m + 2) ≤ s.2 ∧ s.2 ≤ 17 * m + 2
  /-- Where the digits have been around zero, the carry dies out. -/
  dies : m ≤ 2 ^ 26 → (∀ t, 16 ≤ t → t < 20 → -128 ≤ x₀ (i - 32 + t) ∧ x₀ (i - 32 + t) ≤ 127) →
    -carryBound k ≤ s.2 ∧ s.2 ≤ carryBound k
  value : digitSum s.1 64 + s.2 * 256 ^ (i - 32 + k) =
    digitSum x₀ 64 - 16 * x₀ i * 256 ^ (i - 32) * digitSum scL k

theorem Eliminating.step {i k : Nat} {m : Int} {x₀ : Nat → Int} {s : ScState} (hi : 32 ≤ i)
    (hi' : i < 64) (hk : k < 20) (hm : 0 ≤ m) (hm' : m ≤ 2 ^ 40)
    (hx : ∀ j < 64, -m ≤ x₀ j ∧ x₀ j ≤ m) (h : Eliminating i m x₀ k s) :
    ∃ s', eliminateStep i k s = some s' ∧ Eliminating i m x₀ (k + 1) s' := by
  obtain ⟨x, carry⟩ := s
  have hxi : x i = x₀ i := h.others i (by omega)
  have hxj : x (i - 32 + k) = x₀ (i - 32 + k) := h.others _ (by omega)
  have hbi := hx i hi'
  have hbj := hx (i - 32 + k) (by omega)
  have hc := h.carry
  have hp := mul_scL_bounds hbi k
  obtain ⟨v, hv⟩ : ∃ v, v = x (i - 32 + k) + (carry - 16 * (x i * scL k)) := ⟨_, rfl⟩
  have hv' : v = x₀ (i - 32 + k) + (carry - 16 * (x₀ i * scL k)) := by rw [hv, hxi, hxj]
  have hnext : -(17 * m + 2) ≤ (v + 128) / 256 ∧ (v + 128) / 256 ≤ 17 * m + 2 := by
    dsimp only at hc
    omega
  refine ⟨_, eliminateStep_eq hm' (by rwa [hxi]) (by rwa [hxj]) hc hv, ?_, ?_, hnext, ?_, ?_⟩
  · intro j hj
    dsimp only
    rw [Function.update_of_ne (by omega)]
    exact h.others j (by omega)
  · intro t ht
    dsimp only
    rcases Nat.lt_succ_iff_lt_or_eq.mp ht with hlt | rfl
    · rw [Function.update_of_ne (by omega)]
      exact h.done t hlt
    · rw [Function.update_self]
      omega
  · intro hsmall htail
    rcases Nat.lt_or_ge k 16 with hlt | hge
    · rw [carryBound_of_le (by omega)]
      dsimp only
      omega
    · have hdigit := htail k hge hk
      rw [scL_eq_zero hge (by omega)] at hv'
      exact carryBound_succ hk (h.dies hsmall htail) hge (by dsimp only; omega)
  · have hval := h.value
    dsimp only at hval ⊢
    rw [digitSum_update _ (by omega), digitSum_succ scL]
    generalize (v + 128) / 256 = c at *
    subst hv
    rw [hxi, ← Nat.add_assoc, pow_succ, pow_add]
    rw [pow_add] at hval
    linear_combination hval

/-- **One digit eliminated.** The number changes by a multiple of the order. -/
theorem eliminate_spec {i : Nat} {m : Int} {x : Nat → Int} (hi : 32 ≤ i) (hi' : i < 64)
    (hm : 0 ≤ m) (hm' : m ≤ 2 ^ 40) (hx : ∀ j < 64, -m ≤ x j ∧ x j ≤ m) :
    ∃ s x', Eliminating i m x 20 s ∧ eliminate i x = some x' ∧
      x' = Function.update (Function.update s.1 (i - 12) (x (i - 12) + s.2)) i 0 ∧
      digitSum x' 64 = digitSum x 64 - 16 * x i * 256 ^ (i - 32) * groupOrder := by
  have h0 : Eliminating i m x 0 (x, 0) :=
    ⟨fun _ _ ↦ rfl, fun t ht ↦ absurd ht (Nat.not_lt_zero t), by dsimp only; omega,
      fun _ _ ↦ by simp [carryBound], by simp [digitSum]⟩
  obtain ⟨s, hloop, hs⟩ := countUpM_invariant (Eliminating i m x) h0
    fun k hk s hs ↦ hs.step hi hi' hk hm hm' hx
  obtain ⟨x₁, carry⟩ := s
  have hx12 : x₁ (i - 12) = x (i - 12) := hs.others _ (by omega)
  have hxi : x₁ i = x i := hs.others _ (by omega)
  have hb := hx (i - 12) (by omega)
  have hc := hs.carry
  refine ⟨_, _, hs, ?_, rfl, ?_⟩
  · simp only [eliminate, hloop, Option.bind_eq_bind, Option.bind_some, hx12]
    rw [int64_bind (by dsimp only at hc; omega)]
    rfl
  · have hval := hs.value
    have horder := digitSum_scL_low
    have hpow : (256 : Int) ^ i = 256 ^ (i - 32) * 256 ^ 32 := by
      rw [← pow_add, Nat.sub_add_cancel hi]
    have hpow' : (256 : Int) ^ (i - 12) = 256 ^ (i - 32 + 20) := by
      rw [show i - 12 = i - 32 + 20 by omega]
    dsimp only at hval ⊢
    rw [digitSum_update _ hi', digitSum_update _ (by omega), Function.update_of_ne (by omega), hxi,
      hx12, hpow, hpow', ← horder]
    linear_combination hval

/-- The digits behind some eliminations, of a number that was `v₀`. -/
structure Eliminated (v₀ : Int) (n : Nat) (x : Nat → Int) : Prop where
  value : digitSum x 64 ≡ v₀ [ZMOD groupOrder]
  bound : ∀ j < 64, -(if n = 0 then 2 ^ 21 else 2 ^ 26) ≤ x j ∧
    x j ≤ if n = 0 then 2 ^ 21 else 2 ^ 26
  gone : ∀ j, 64 - n ≤ j → j < 64 → x j = 0
  /-- The digits that the last elimination has gone over. -/
  low : 0 < n → ∀ j, 32 - n ≤ j → j ≤ 51 - n → -128 ≤ x j ∧ x j ≤ 127
  /-- The digits above them, each with a carry of one of the eliminations. -/
  middle : ∀ j, 52 - n ≤ j → j ≤ 50 → -129 ≤ x j ∧ x j ≤ 128

theorem Eliminated.step {v₀ : Int} {n : Nat} {x : Nat → Int} (hn : n < 32)
    (h : Eliminated v₀ n x) : ∃ x', eliminate (63 - n) x = some x' ∧ Eliminated v₀ (n + 1) x' := by
  have hm : (0 : Int) ≤ (if n = 0 then 2 ^ 21 else 2 ^ 26) ∧
      (if n = 0 then 2 ^ 21 else 2 ^ 26 : Int) ≤ 2 ^ 26 := by split_ifs <;> decide
  obtain ⟨⟨x₁, carry⟩, x', hs, hrun, hx', hval⟩ := eliminate_spec (i := 63 - n) (by omega)
    (by omega) hm.1 (by omega) h.bound
  have htop : x' (63 - n) = 0 := by rw [hx', Function.update_self]
  have hcarried : x' (51 - n) = x (51 - n) + carry := by
    rw [hx', Function.update_of_ne (by omega), show 63 - n - 12 = 51 - n by omega,
      Function.update_self]
  have hdone (j : Nat) (hj : 31 - n ≤ j) (hj' : j < 51 - n) : -128 ≤ x' j ∧ x' j ≤ 127 := by
    have hdigit := hs.done (j - (31 - n)) (by omega)
    rw [show 63 - n - 32 + (j - (31 - n)) = j by omega] at hdigit
    rwa [hx', Function.update_of_ne (by omega), Function.update_of_ne (by omega)]
  have hsame (j : Nat) (hj : j ≠ 63 - n) (hj' : j < 31 - n ∨ 51 - n < j) : x' j = x j := by
    rw [hx', Function.update_of_ne hj, Function.update_of_ne (by omega)]
    exact hs.others j (by omega)
  have hdies (hpos : 0 < n) : -1 ≤ carry ∧ carry ≤ 1 :=
    hs.dies hm.2 fun t ht ht' ↦ h.low hpos _ (by omega) (by omega)
  have hcarry := hs.carry
  dsimp only at hcarry
  refine ⟨x', hrun,
    (Int.modEq_iff_dvd.mpr ⟨16 * x (63 - n) * 256 ^ (63 - n - 32), ?_⟩).trans h.value,
    ?_, ?_, fun _ j hj hj' ↦ hdone j (by omega) (by omega), ?_⟩
  · rw [hval]
    ring
  · intro j hj
    rw [if_neg (Nat.succ_ne_zero n)]
    have hbj := h.bound j hj
    rcases eq_or_ne j (63 - n) with rfl | hne
    · rw [htop]
      decide
    rcases Nat.lt_trichotomy j (51 - n) with hlt | rfl | hgt
    · rcases Nat.lt_or_ge j (31 - n) with hbelow | hge
      · rw [hsame j hne (.inl hbelow)]
        omega
      · have hd := hdone j hge hlt
        omega
    · rw [hcarried]
      rcases Nat.eq_zero_or_pos n with rfl | hpos
      · rw [if_pos rfl] at hcarry hbj
        omega
      · have hd := hdies hpos
        have hl := h.low hpos (51 - n) (by omega) le_rfl
        omega
    · rw [hsame j hne (.inr hgt)]
      omega
  · intro j hj hj'
    rcases eq_or_ne j (63 - n) with rfl | hne
    · exact htop
    · rw [hsame j hne (by omega)]
      exact h.gone j (by omega) hj'
  · intro j hj hj'
    rcases Nat.eq_or_lt_of_le (show 51 - n ≤ j by omega) with rfl | hgt
    · have hd := hdies (by omega)
      have hl := h.low (by omega) (51 - n) (by omega) le_rfl
      rw [hcarried]
      omega
    · rcases eq_or_ne j (63 - n) with rfl | hne
      · rw [htop]
        decide
      · rw [hsame j hne (.inr hgt)]
        exact h.middle j (by omega) hj'

/-! ### The quotient -/

/-- The digits, part of the way through taking off `q` times the order. -/
structure Dividing (q : Int) (x₀ : Nat → Int) (k : Nat) (s : ScState) : Prop where
  others : ∀ j, k ≤ j → s.1 j = x₀ j
  done : ∀ t < k, 0 ≤ s.1 t ∧ s.1 t ≤ 255
  carry : -40 ≤ s.2 ∧ s.2 ≤ 40
  value : digitSum s.1 32 + s.2 * 256 ^ k = digitSum x₀ 32 - q * digitSum scL k

theorem Dividing.step {k : Nat} {q : Int} {x₀ : Nat → Int} {s : ScState} (hk : k < 32)
    (hx : ∀ j < 32, -129 ≤ x₀ j ∧ x₀ j ≤ 128) (hq : q = x₀ 31 >>> (4 : Nat))
    (h : Dividing q x₀ k s) :
    ∃ s', quotientStep k s = some s' ∧ Dividing q x₀ (k + 1) s' := by
  obtain ⟨x, carry⟩ := s
  have hx31 : x 31 = x₀ 31 := h.others 31 (by omega)
  have hxk : x k = x₀ k := h.others k le_rfl
  have hb31 := hx 31 (by omega)
  have hbk := hx k hk
  have hc := h.carry
  have hq' : -9 ≤ q ∧ q ≤ 9 := by
    rw [hq, Int.shiftRight_eq_div_pow]
    omega
  have hp := mul_scL_bounds hq' k
  obtain ⟨v, hv⟩ : ∃ v, v = x k + (carry - q * scL k) := ⟨_, rfl⟩
  dsimp only at hc
  have hrun : quotientStep k (x, carry) = some (Function.update x k (v % 256), v / 256) := by
    simp only [quotientStep, Option.bind_eq_bind, shiftRight_eight, hx31, ← hq]
    rw [int64_bind (by omega), int64_bind (by omega), ← hv, int64_bind (by omega)]
    rfl
  refine ⟨_, hrun, fun j hj ↦ ?_, fun t ht ↦ ?_, by dsimp only; omega, ?_⟩
  · dsimp only
    rw [Function.update_of_ne (by omega)]
    exact h.others j (by omega)
  · dsimp only
    rcases Nat.lt_succ_iff_lt_or_eq.mp ht with hlt | rfl
    · rw [Function.update_of_ne (by omega)]
      exact h.done t hlt
    · rw [Function.update_self]
      omega
  · have hval := h.value
    have hdiv := Int.emod_add_mul_ediv v 256
    dsimp only at hval ⊢
    rw [digitSum_update _ hk, digitSum_succ scL, pow_succ]
    linear_combination hval + 256 ^ k * hdiv + 256 ^ k * hv

/-- The estimate is off by less than the order. -/
theorem quotient_bounds {x : Nat → Int} (hx : ∀ j < 32, -129 ≤ x j ∧ x j ≤ 128) :
    -groupOrder < digitSum x 32 - (x 31 >>> (4 : Nat)) * groupOrder ∧
      digitSum x 32 - (x 31 >>> (4 : Nat)) * groupOrder < groupOrder := by
  have hlow := digitSum_bounds (n := 31) (m := 129) fun j hj ↦
    ⟨(hx j (by omega)).1, (hx j (by omega)).2.trans (by decide)⟩
  have h31 := hx 31 (by omega)
  have horder : (groupOrder : Int) = 16 * 256 ^ 31 + 27742317777372353535851937790883648493 := by
    norm_num [groupOrder]
  rw [digitSum_succ, Int.shiftRight_eq_div_pow, horder]
  norm_num at hlow ⊢
  omega

/-- The digits, part of the way through the correction. -/
structure Correcting (carry : Int) (x₀ : Nat → Int) (k : Nat) (x : Nat → Int) : Prop where
  others : ∀ j, k ≤ j → x j = x₀ j
  done : ∀ j < k, 0 ≤ x j ∧ x j ≤ 510
  value : digitSum x 32 = digitSum x₀ 32 - carry * digitSum scL k

theorem Correcting.step {k : Nat} {carry : Int} {x₀ x : Nat → Int} (hk : k < 32)
    (hx : ∀ j < 32, 0 ≤ x₀ j ∧ x₀ j ≤ 255) (hc : -1 ≤ carry ∧ carry ≤ 0)
    (h : Correcting carry x₀ k x) :
    ∃ x', correctStep carry k x = some x' ∧ Correcting carry x₀ (k + 1) x' := by
  have hxk := h.others k le_rfl
  have hbk := hx k hk
  have hL := scL_bounds k
  have hp : 0 ≤ -(carry * scL k) ∧ -(carry * scL k) ≤ 255 := by constructor <;> nlinarith
  refine ⟨Function.update x k (x k - carry * scL k), ?_, fun j hj ↦ ?_, fun j hj ↦ ?_, ?_⟩
  · simp only [correctStep, Option.bind_eq_bind]
    rw [int64_bind (by omega), int64_bind (by omega)]
    rfl
  · rw [Function.update_of_ne (by omega)]
    exact h.others j (by omega)
  · rcases Nat.lt_succ_iff_lt_or_eq.mp hj with hlt | rfl
    · rw [Function.update_of_ne (by omega)]
      exact h.done j hlt
    · rw [Function.update_self]
      omega
  · rw [digitSum_update _ hk, digitSum_succ scL, h.value]
    ring

/-- The digits, part of the way through the bytes. -/
structure Storing (v : Int) (k : Nat) (s : (Nat → Int) × List UByte) : Prop where
  length : s.2.length = k
  next : 0 ≤ s.1 k ∧ s.1 k ≤ 512
  others : ∀ j, k < j → j < 33 → 0 ≤ s.1 j ∧ s.1 j ≤ 510
  value : (LittleEndian.value s.2 : Int) + digitSum s.1 33 - digitSum s.1 k = v

theorem Storing.step {k : Nat} {v : Int} {s : (Nat → Int) × List UByte} (hk : k < 32)
    (h : Storing v k s) : ∃ s', storeStep k s = some s' ∧ Storing v (k + 1) s' := by
  obtain ⟨x, r⟩ := s
  have hnext := h.next
  have hother := h.others (k + 1) (by omega) (by omega)
  dsimp only at hnext hother
  refine ⟨(Function.update x (k + 1) (x (k + 1) + x k / 256), r ++ [BitVec.ofInt 8 (x k % 256)]),
    ?_, ?_, ?_, fun j hj hj' ↦ ?_, ?_⟩
  · simp only [storeStep, Option.bind_eq_bind, shiftRight_eight]
    rw [int64_bind (by omega)]
    rfl
  · simp [h.length]
  · dsimp only
    rw [Function.update_self]
    omega
  · dsimp only
    rw [Function.update_of_ne (by omega)]
    exact h.others j (by omega) hj'
  · have hval := h.value
    have hdiv := Int.emod_add_mul_ediv (x k) 256
    have hbyte : ((BitVec.ofInt 8 (x k % 256)).toNat : Int) = x k % 256 := by
      rw [BitVec.toNat_ofInt]
      omega
    dsimp only at hval ⊢
    rw [LittleEndian.value_append, h.length, digitSum_update _ (by omega),
      digitSum_congr fun j hj ↦ Function.update_of_ne (show j ≠ k + 1 by omega) _ x,
      digitSum_succ x k, pow_succ]
    push_cast [LittleEndian.value_cons, LittleEndian.value_nil, hbyte]
    linear_combination hval + 256 ^ k * hdiv

/-! ### The reduction -/

theorem digitSum_eq_of_zero {x : Nat → Int} {n k : Nat} (h : ∀ j, n ≤ j → j < n + k → x j = 0) :
    digitSum x (n + k) = digitSum x n := by
  induction k with
  | zero => rfl
  | succ k ih =>
    rw [← Nat.add_assoc, digitSum_succ, h (n + k) (by omega) (by omega),
      ih fun j hj hj' ↦ h j hj (by omega)]
    ring

/-- The carry out of the highest digit says whether the number is negative. -/
theorem final_carry {d t carry : Int} (h : d + carry * 256 ^ 32 = t) (hd : 0 ≤ d)
    (hd' : d < 256 ^ 32) (ht : -groupOrder < t) (ht' : t < groupOrder) :
    -1 ≤ carry ∧ carry ≤ 0 := by
  norm_num [groupOrder] at *
  omega

/-- With the order added to a negative number, the bytes are those of the residue. -/
theorem final_value {d t carry r top : Int} (h : d + carry * 256 ^ 32 = t) (hd : 0 ≤ d)
    (hd' : d < 256 ^ 32) (ht : -groupOrder < t) (ht' : t < groupOrder)
    (hr : r + top * 256 ^ 32 = d - carry * groupOrder) (hr0 : 0 ≤ r) (hr' : r < 256 ^ 32) :
    r = t % groupOrder := by
  have horder : (0 : Int) < groupOrder := by norm_num [groupOrder]
  have hsmall : (groupOrder : Int) < 256 ^ 32 := by norm_num [groupOrder]
  obtain ⟨hlow, hhigh⟩ := final_carry h hd hd' ht ht'
  obtain rfl | rfl : carry = 0 ∨ carry = -1 := by omega
  · have htop : top = 0 := by nlinarith
    subst htop
    rw [Int.emod_eq_of_lt (by linarith) ht']
    linarith
  · have htop : top = 1 := by nlinarith
    subst htop
    rw [← Int.add_emod_right, Int.emod_eq_of_lt (by linarith) (by linarith)]
    linarith

/-- **The reduction.** Digits below `2 ^ 21` are reduced exactly, without an overflow. -/
theorem scModL_spec {x : Nat → Int} (hx : ∀ j < 64, 0 ≤ x j ∧ x j ≤ 2 ^ 21) :
    ∃ r, scModL x = some r ∧ r.length = 32 ∧
      (LittleEndian.value r : Int) = digitSum x 64 % groupOrder := by
  have h₀ : Eliminated (digitSum x 64) 0 x := by
    refine ⟨rfl, fun j hj ↦ ?_, fun j hj hj' ↦ by omega, fun h ↦ absurd h (lt_irrefl 0),
      fun j hj hj' ↦ by omega⟩
    have hb := hx j hj
    rw [if_pos rfl]
    omega
  obtain ⟨x₁, hrun₁, h₁⟩ := countUpM_invariant (Eliminated (digitSum x 64)) h₀
    fun n hn y hy ↦ hy.step hn
  have hdigits : ∀ j < 32, -129 ≤ x₁ j ∧ x₁ j ≤ 128 := by
    intro j hj
    rcases Nat.lt_or_ge j 20 with hlt | hge
    · have hd := h₁.low (by omega) j (by omega) (by omega)
      omega
    · exact h₁.middle j (by omega) (by omega)
  have hsum : digitSum x₁ 64 = digitSum x₁ 32 :=
    digitSum_eq_of_zero (n := 32) (k := 32) fun j hj hj' ↦ h₁.gone j (by omega) hj'
  obtain ⟨hbelow, habove⟩ := quotient_bounds hdigits
  -- the estimated multiple of the order comes off
  have hdividing : Dividing (x₁ 31 >>> (4 : Nat)) x₁ 0 (x₁, 0) :=
    ⟨fun _ _ ↦ rfl, fun t ht ↦ absurd ht (Nat.not_lt_zero t), by dsimp only; omega,
      by simp [digitSum]⟩
  obtain ⟨⟨x₂, carry⟩, hrun₂, h₂⟩ := countUpM_invariant _ hdividing
    fun k hk s hs ↦ hs.step hk hdigits rfl
  have hval₂ := h₂.value
  rw [digitSum_scL] at hval₂
  dsimp only at hval₂
  have hhigh := (digitSum_bounds (m := 255) fun j hj ↦
    ⟨by have := (h₂.done j hj).1; omega, (h₂.done j hj).2⟩).2
  have hlow : 0 ≤ digitSum x₂ 32 := sum_nonneg fun j hj ↦
    mul_nonneg (h₂.done j (mem_range.mp hj)).1 (by positivity)
  have hlt : digitSum x₂ 32 < 256 ^ 32 := by linarith
  -- the order is added to a negative number
  have hcorrecting : Correcting carry x₂ 0 x₂ :=
    ⟨fun _ _ ↦ rfl, fun j hj ↦ absurd hj (Nat.not_lt_zero j), by simp [digitSum]⟩
  obtain ⟨x₃, hrun₃, h₃⟩ := countUpM_invariant _ hcorrecting
    fun k hk y hy ↦ hy.step hk h₂.done (final_carry hval₂ hlow hlt hbelow habove)
  -- the digits become bytes
  have hx32 : x₃ 32 = 0 := by
    rw [h₃.others 32 le_rfl]
    exact (h₂.others 32 le_rfl).trans (h₁.gone 32 (by omega) (by omega))
  have hstoring : Storing (digitSum x₃ 32) 0 (x₃, []) := by
    refine ⟨rfl, by have := h₃.done 0 (by omega); dsimp only; omega, fun j hj hj' ↦ ?_, ?_⟩
    · rcases Nat.lt_or_ge j 32 with hj32 | hj32
      · exact h₃.done j hj32
      · obtain rfl : j = 32 := by omega
        dsimp only
        omega
    · dsimp only
      rw [digitSum_succ, hx32]
      simp [digitSum]
  obtain ⟨⟨x₄, r⟩, hrun₄, h₄⟩ := countUpM_invariant _ hstoring fun k hk s hs ↦ hs.step hk
  have hval₄ := h₄.value
  dsimp only at hval₄
  rw [digitSum_succ x₄, add_sub_assoc, add_sub_cancel_left, h₃.value, digitSum_scL] at hval₄
  have hr' : (LittleEndian.value r : Int) < 256 ^ 32 := by
    have hvl := LittleEndian.value_lt r
    rw [h₄.length] at hvl
    exact_mod_cast hvl
  refine ⟨r, ?_, h₄.length, ?_⟩
  · simp only [scModL, hrun₁, Option.bind_eq_bind, Option.bind_some, hrun₂, hrun₃, hrun₄]
    rfl
  · rw [final_value hval₂ hlow hlt hbelow habove hval₄ (Int.natCast_nonneg _) hr',
      Int.sub_mul_emod_self_right, ← hsum]
    exact h₁.value

/-! ### The two functions -/

theorem byteDigit_bounds (bytes : List UByte) (i : Nat) :
    0 ≤ byteDigit bytes i ∧ byteDigit bytes i ≤ 255 := by
  have h := (bytes.getD i 0).isLt
  rw [byteDigit]
  omega

/-- The digits of an argument. -/
theorem digitSum_byteDigit {bytes : List UByte} {n : Nat} (h : bytes.length ≤ n) :
    digitSum (byteDigit bytes) n = LittleEndian.value bytes := by
  induction bytes generalizing n with
  | nil => simp [digitSum, byteDigit]
  | cons b bytes ih =>
    obtain ⟨n, rfl⟩ : ∃ k, n = k + 1 := ⟨n - 1, by rw [List.length_cons] at h; omega⟩
    have htail := ih (Nat.le_of_succ_le_succ h)
    rw [digitSum, sum_range_succ', LittleEndian.value_cons]
    push_cast
    rw [← htail, digitSum, mul_sum, mul_one, add_comm]
    refine congrArg₂ (· + ·) rfl (sum_congr rfl fun j _ ↦ ?_)
    rw [pow_succ]
    simp only [byteDigit, List.getD_cons_succ]
    ring

/-- The columns, part of the way through row `i` of the product. -/
structure Column (a b c : List UByte) (i j : Nat) (x : Nat → Int) : Prop where
  bound : ∀ k, 0 ≤ x k ∧ x k ≤ 255 + 65025 * (i + 1)
  ahead : ∀ k, i + j ≤ k → x k ≤ 255 + 65025 * i
  value : digitSum x 64 = digitSum (byteDigit c) 64 +
    digitSum (byteDigit a) i * digitSum (byteDigit b) 32 +
      byteDigit a i * 256 ^ i * digitSum (byteDigit b) j

theorem Column.step {a b c : List UByte} {i j : Nat} {x : Nat → Int} (hi : i < 32) (hj : j < 32)
    (h : Column a b c i j x) :
    ∃ x', columnStep a b i j x = some x' ∧ Column a b c i (j + 1) x' := by
  have ha := byteDigit_bounds a i
  have hb := byteDigit_bounds b j
  have hp : 0 ≤ byteDigit a i * byteDigit b j ∧ byteDigit a i * byteDigit b j ≤ 65025 := by
    constructor <;> nlinarith
  have hold := h.bound (i + j)
  have hahead := h.ahead (i + j) le_rfl
  refine ⟨Function.update x (i + j) (x (i + j) + byteDigit a i * byteDigit b j), ?_, fun k ↦ ?_,
    fun k hk ↦ ?_, ?_⟩
  · simp only [columnStep, Option.bind_eq_bind]
    rw [int64_bind (by omega), int64_bind (by omega)]
    rfl
  · rcases eq_or_ne k (i + j) with rfl | hne
    · rw [Function.update_self]
      omega
    · rw [Function.update_of_ne hne]
      exact h.bound k
  · rw [Function.update_of_ne (by omega)]
    exact h.ahead k (by omega)
  · rw [digitSum_update _ (by omega), h.value, digitSum_succ _ j, pow_add]
    ring

/-- The columns of a whole product and a summand. -/
theorem columns_spec (a b c : List UByte) :
    ∃ x, countUpM 32 (fun i x ↦ countUpM 32 (columnStep a b i) x) (byteDigit c) = some x ∧
      (∀ k, 0 ≤ x k ∧ x k ≤ 255 + 65025 * 32) ∧
      digitSum x 64 = digitSum (byteDigit c) 64 +
        digitSum (byteDigit a) 32 * digitSum (byteDigit b) 32 := by
  refine countUpM_invariant (n := 32) (fun i (x : Nat → Int) ↦
    (∀ k, 0 ≤ x k ∧ x k ≤ 255 + 65025 * i) ∧ digitSum x 64 = digitSum (byteDigit c) 64 +
      digitSum (byteDigit a) i * digitSum (byteDigit b) 32)
    ⟨fun k ↦ by simpa using byteDigit_bounds c k, by simp [digitSum]⟩ ?_
  rintro i hi x ⟨hbound, hval⟩
  have hrow : Column a b c i 0 x := by
    refine ⟨fun k ↦ ?_, fun k _ ↦ (hbound k).2, by rw [hval]; simp [digitSum]⟩
    have hk := hbound k
    omega
  obtain ⟨x', hrun, h'⟩ := countUpM_invariant (n := 32) _ hrow fun j hj y hy ↦ hy.step hi hj
  refine ⟨x', hrun, fun k ↦ ?_, ?_⟩
  · have hk := h'.bound k
    push_cast
    exact hk
  · rw [h'.value, digitSum_succ _ i]
    ring

/-- **Scalar arithmetic is exact.** For all arguments neither function overflows, and the results
are the residues modulo the order of the group. -/
theorem scalar_exact (r : Vector UByte 64) (a b c : Vector UByte 32) :
    (∃ out, scReduce r = some out ∧ out.length = 64 ∧
        LittleEndian.value out = LittleEndian.value r.toList % groupOrder) ∧
      ∃ out, scMuladd a b c = some out ∧ out.length = 32 ∧
        LittleEndian.value out = (LittleEndian.value a.toList * LittleEndian.value b.toList +
          LittleEndian.value c.toList) % groupOrder := by
  constructor
  · obtain ⟨s, hrun, hlen, hval⟩ := scModL_spec (x := byteDigit r.toList) fun j _ ↦
      ⟨(byteDigit_bounds _ j).1, (byteDigit_bounds _ j).2.trans (by decide)⟩
    refine ⟨s ++ List.replicate 32 0, ?_, by simp [hlen], ?_⟩
    · simp only [scReduce, hrun, Option.bind_eq_bind, Option.bind_some]
      rfl
    · rw [digitSum_byteDigit (by simp)] at hval
      have hzeros : LittleEndian.value (List.replicate 32 (0 : UByte)) = 0 :=
        LittleEndian.value_replicate_zero 32
      rw [LittleEndian.value_append, hzeros, Nat.mul_zero, Nat.add_zero]
      exact_mod_cast hval
  · obtain ⟨x, hcols, hbound, hsum⟩ := columns_spec a.toList b.toList c.toList
    obtain ⟨s, hrun, hlen, hval⟩ := scModL_spec (x := x) fun j _ ↦
      ⟨(hbound j).1, (hbound j).2.trans (by decide)⟩
    refine ⟨s, ?_, hlen, ?_⟩
    · simp only [scMuladd, hcols, Option.bind_eq_bind, Option.bind_some, hrun]
    · rw [hsum, digitSum_byteDigit (by simp), digitSum_byteDigit (by simp),
        digitSum_byteDigit (by simp), add_comm] at hval
      exact_mod_cast hval

end AmiNetXDuo.Crypto68k
