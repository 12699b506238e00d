import AmiNetXDuo.Crypto68k.LimbArray
import AmiNetXDuo.Crypto68k.Poly1305
import Mathlib.Algebra.BigOperators.Ring.Finset
import Mathlib.Data.ZMod.Basic
import Mathlib.Tactic.LinearCombination

/-!
# The field of curve25519

The field arithmetic of `c68k_25519.c` modulo `p = 2^255 - 19`, on elements of eight limbs that are
not kept reduced: an element stands for the residue of a number below `2^256`, and what leaves the
top limb comes back at the bottom, 38 times. Only the encoding into bytes reduces.

Every loop reads limb `i` of its operands before it writes limb `i` of its result, so results are
new values here, whatever they alias in the source.

## Main definitions

* `Fe`, `toField` : an element, and the residue it stands for.
* `feFold`, `feAdd`, `feSub`, `feMul`, `feSqr`, `feMulSmall`, `feCswap`, `feFrombytes`, `feTobytes`,
  `feInvert`, `fePow22523` : the functions of the source.

## Main results

* `toField_feAdd`, `toField_feSub`, `toField_feMul`, `toField_feSqr`, `toField_feMulSmall`,
  `toField_feInvert`, `toField_fePow22523` : the residues.
* `feTobytes_eq` : the bytes are those of the least number with the residue.
-/

namespace AmiNetXDuo.Crypto68k

open MachineWord Finset

/-! ### The code -/

/-- The prime `2^255 - 19`. -/
def p25519 : Nat := 2 ^ 255 - 19

instance : NeZero p25519 := ⟨by decide⟩

/-- A field element, `uint32_t[8]`: the first eight limbs. -/
abbrev Fe := Heap

/-- The number in the limbs. -/
def feVal (a : Fe) : Nat := a.val 0 8

/-- The residue that an element stands for. -/
def toField (a : Fe) : ZMod p25519 := (feVal a : ZMod p25519)

/-- Limbs written out, least significant first. -/
def feOf (l : List (BitVec 32)) : Fe := fun i ↦ l.getD i 0

/-- `fe_zero`. -/
def feZero : Fe := feOf [0, 0, 0, 0, 0, 0, 0, 0]

/-- `fe_one`. -/
def feOne : Fe := feOf [1, 0, 0, 0, 0, 0, 0, 0]

/-- `while (t != 0)` in `fe_fold()`, for at most `k` rounds. -/
def foldLoop : Nat → Fe → Nat → Option Fe
  | 0, r, t => if t = 0 then some r else none
  | k + 1, r, t =>
    if t = 0 then some r
    else foldLoop k (foldPass 8 r t).1 (w64 ((foldPass 8 r t).2 * 38))

/-- `while (t)` in `fe_sub()`, for at most `k` rounds. -/
def subLoop : Nat → Fe → Nat → Option Fe
  | 0, r, t => if t = 0 then some r else none
  | k + 1, r, t =>
    if t = 0 then some r else subLoop k (subFoldPass 8 r 38).1 (subFoldPass 8 r 38).2

/-! ### The fold -/

theorem foldLoop_zero (k : Nat) (r : Fe) : foldLoop k r 0 = some r := by
  cases k with
  | zero => rw [foldLoop, if_pos rfl]
  | succ k => rw [foldLoop, if_pos rfl]

/-- Rounds of the fold: one that carries out leaves a number so small that the next does not. -/
theorem foldLoop_spec {r : Fe} {t : Nat} (ht : t ≤ 38 * radix) :
    ∃ r', foldLoop 2 r t = some r' ∧ ∃ k, feVal r' + radix ^ 8 * k = feVal r + t + 38 * k := by
  have hlt := r.val_lt 0 8
  have hfit : t + radix ≤ 2 ^ 64 := by
    rw [radix_eq] at *
    omega
  obtain ⟨hval, hle, -⟩ := foldPass_spec 8 (r := r) hfit
  rcases Nat.eq_zero_or_pos t with rfl | hpos
  · exact ⟨r, foldLoop_zero 2 r, 0, by omega⟩
  rw [foldLoop, if_neg (by omega)]
  generalize foldPass 8 r t = s at hval hle ⊢
  obtain ⟨r₁, c⟩ := s
  dsimp only at hval hle ⊢
  have hc : c < 2 := by
    by_contra hge
    have hmul : radix ^ 8 * 2 ≤ radix ^ 8 * c := Nat.mul_le_mul_left _ (by omega)
    have hsmall : 38 * radix < radix ^ 8 := by decide
    omega
  rcases (by omega : c = 0 ∨ c = 1) with rfl | rfl
  · exact ⟨r₁, foldLoop_zero 1 r₁, 0, by simpa [feVal] using hval⟩
  · obtain ⟨hval₂, -, -⟩ := foldPass_spec 8 (r := r₁) (t := 38) (by decide)
    rw [show w64 (1 * 38) = 38 by decide, foldLoop, if_neg (by decide)]
    generalize foldPass 8 r₁ 38 = s at hval₂ ⊢
    obtain ⟨r₂, c₂⟩ := s
    dsimp only at hval₂ ⊢
    have hc₂ : c₂ = 0 := by
      by_contra hne
      have hmul : radix ^ 8 * 1 ≤ radix ^ 8 * c₂ := Nat.mul_le_mul_left _ (by omega)
      have hsmall : 38 * radix + 38 < radix ^ 8 := by decide
      omega
    subst hc₂
    exact ⟨r₂, foldLoop_zero 0 r₂, 1, by simp only [feVal]; omega⟩

theorem foldLoop_isSome (r : Fe) (c : Nat) : (foldLoop 2 r (w64 (w32 c * 38))).isSome := by
  have hc := w32_lt c
  obtain ⟨r', hr', -⟩ := foldLoop_spec (r := r) (t := w64 (w32 c * 38))
    (by rw [w64_of_lt (by omega), radix_eq]; omega)
  rw [hr']
  rfl

/-- `fe_fold()`. -/
def feFold (r : Fe) (c : Nat) : Fe := (foldLoop 2 r (w64 (w32 c * 38))).get (foldLoop_isSome r c)

theorem two_pow_256_eq : ((radix ^ 8 : Nat) : ZMod p25519) = 38 := by
  have h : radix ^ 8 ≡ 38 [MOD p25519] := by decide
  exact_mod_cast (ZMod.natCast_eq_natCast_iff _ _ _).mpr h

/-- What is carried out at the top counts 38 times at the bottom. -/
theorem toField_eq_of_fold {v w k : Nat} (h : v + radix ^ 8 * k = w + 38 * k) :
    (v : ZMod p25519) = (w : ZMod p25519) := by
  have hcast : ((v + radix ^ 8 * k : Nat) : ZMod p25519) = ((w + 38 * k : Nat) : ZMod p25519) := by
    rw [h]
  push_cast at hcast
  have hpow := two_pow_256_eq
  push_cast at hpow
  rw [hpow] at hcast
  exact add_right_cancel hcast

theorem toField_feFold (r : Fe) (c : Nat) :
    toField (feFold r c) = ((feVal r + radix ^ 8 * w32 c : Nat) : ZMod p25519) := by
  have hc := w32_lt c
  have hw : w64 (w32 c * 38) = w32 c * 38 := w64_of_lt (by omega)
  obtain ⟨r', hr', k, hk⟩ := foldLoop_spec (r := r) (t := w64 (w32 c * 38))
    (by rw [hw, radix_eq]; omega)
  have hget : feFold r c = r' := by
    simp only [feFold, hr', Option.get_some]
  rw [hget, toField, toField_eq_of_fold hk, hw]
  push_cast
  have hpow := two_pow_256_eq
  push_cast at hpow
  rw [hpow]
  ring

/-! ### Sums and differences -/

/-- `fe_add()`. -/
def feAdd (a b : Fe) : Fe :=
  let s := carryLoop 8 (fun i ↦ a.get i + b.get i) 0
  feFold s.1 s.2

/-- The words of a number and what is carried out of them, folded. -/
theorem toField_carry {col : Nat → Nat} (hcol : ∀ i < 8, col i + radix ≤ 2 ^ 64) :
    toField (feFold (carryLoop 8 col 0).1 (carryLoop 8 col 0).2) =
      ((∑ i ∈ range 8, col i * radix ^ i : Nat) : ZMod p25519) := by
  obtain ⟨hval, hlt⟩ := carryLoop_spec radix_pos hcol
  rw [toField_feFold, w32_of_lt hlt, feVal, hval, Nat.zero_add]

theorem feVal_eq_sum (a : Fe) : feVal a = ∑ i ∈ range 8, a.get i * radix ^ i := by
  rw [feVal, Heap.val_eq_sum]
  simp only [Nat.zero_add]

@[simp] theorem toField_feAdd (a b : Fe) : toField (feAdd a b) = toField a + toField b := by
  have hcol : ∀ i < 8, a.get i + b.get i + radix ≤ 2 ^ 64 := by
    intro i _
    have ha := a.get_lt i
    have hb := b.get_lt i
    rw [radix_eq] at *
    omega
  rw [feAdd, toField_carry hcol, toField, toField, feVal_eq_sum, feVal_eq_sum, ← Nat.cast_add,
    ← sum_add_distrib]
  simp only [Nat.add_mul]

theorem subLoop_zero (k : Nat) (r : Fe) : subLoop k r 0 = some r := by
  cases k with
  | zero => rw [subLoop, if_pos rfl]
  | succ k => rw [subLoop, if_pos rfl]

/-- Rounds of the fold of a borrow: one that borrows leaves a number so large that the next does
not. -/
theorem subLoop_spec {r : Fe} {t : Nat} (ht : t ≤ 1) :
    ∃ r', subLoop 2 r t = some r' ∧ ∃ k, feVal r + radix ^ 8 * k = feVal r' + 38 * (t + k) := by
  rcases (by omega : t = 0 ∨ t = 1) with rfl | rfl
  · exact ⟨r, subLoop_zero 2 r, 0, by omega⟩
  obtain ⟨hval, hc⟩ := subFoldPass_spec (n := 8) (by decide) r (t := 38) (by decide)
  rw [subLoop, if_neg (by decide)]
  generalize subFoldPass 8 r 38 = s at hval hc ⊢
  obtain ⟨r₁, c⟩ := s
  dsimp only at hval hc ⊢
  rcases (by omega : c = 0 ∨ c = 1) with rfl | rfl
  · exact ⟨r₁, subLoop_zero 1 r₁, 0, by simp only [feVal]; omega⟩
  · have hlt₁ := r₁.val_lt 0 8
    obtain ⟨hval₂, hc₂⟩ := subFoldPass_spec (n := 8) (by decide) r₁ (t := 38) (by decide)
    rw [subLoop, if_neg (by decide)]
    generalize subFoldPass 8 r₁ 38 = s at hval₂ hc₂ ⊢
    obtain ⟨r₂, c₂⟩ := s
    dsimp only at hval₂ hc₂ ⊢
    have hlt₂ := r₂.val_lt 0 8
    have hbig : 76 ≤ radix ^ 8 := by decide
    obtain rfl : c₂ = 0 := by
      rcases (by omega : c₂ = 0 ∨ c₂ = 1) with h | h
      · exact h
      · subst h
        omega
    exact ⟨r₂, subLoop_zero 0 r₂, 1, by simp only [feVal]; omega⟩

theorem subLoop_isSome (a b : Fe) : (subLoop 2 (subPass 8 a b).1 (subPass 8 a b).2).isSome := by
  obtain ⟨r', hr', -⟩ := subLoop_spec (r := (subPass 8 a b).1) (subPass_spec 8 a b).2
  rw [hr']
  rfl

/-- `fe_sub()`. -/
def feSub (a b : Fe) : Fe :=
  (subLoop 2 (subPass 8 a b).1 (subPass 8 a b).2).get (subLoop_isSome a b)

@[simp] theorem toField_feSub (a b : Fe) : toField (feSub a b) = toField a - toField b := by
  obtain ⟨hval, hle⟩ := subPass_spec 8 a b
  obtain ⟨r', hr', k, hk⟩ := subLoop_spec (r := (subPass 8 a b).1) hle
  have hget : feSub a b = r' := by
    simp only [feSub, hr', Option.get_some]
  have hfold : feVal a + radix ^ 8 * ((subPass 8 a b).2 + k) =
      feVal r' + feVal b + 38 * ((subPass 8 a b).2 + k) := by
    simp only [feVal] at hk ⊢
    linear_combination hk - hval
  rw [hget, toField, toField, toField, toField_eq_of_fold hfold]
  push_cast
  ring

theorem toField_feZero : toField feZero = 0 := rfl

theorem toField_feOne : toField feOne = 1 := by
  rw [toField, show feVal feOne = 1 by decide, Nat.cast_one]

/-! ### Products and squares -/

/-- The low limbs and 38 times the high ones, carried and folded. -/
def reduceWide (t : Heap) : Fe :=
  let s := carryLoop 8 (fun i ↦ t.get (i + 8) * 38 + t.get i) 0
  feFold s.1 s.2

theorem toField_reduceWide (t : Heap) :
    toField (reduceWide t) = (t.val 0 (8 + 8) : ZMod p25519) := by
  have hcol : ∀ i < 8, t.get (i + 8) * 38 + t.get i + radix ≤ 2 ^ 64 := by
    intro i _
    have hlo := t.get_lt i
    have hhi := t.get_lt (i + 8)
    rw [radix_eq] at *
    omega
  have hsplit : ∑ i ∈ range 8, (t.get (i + 8) * 38 + t.get i) * radix ^ i =
      t.val 0 8 + 38 * t.val 8 8 := by
    rw [Heap.val_eq_sum, Heap.val_eq_sum, mul_sum, ← sum_add_distrib]
    refine sum_congr rfl fun i _ ↦ ?_
    rw [Nat.zero_add, Nat.add_comm 8 i]
    ring
  rw [reduceWide, toField_carry hcol, hsplit, t.val_add 0 8 8, Nat.zero_add]
  exact toField_eq_of_fold (k := t.val 8 8) (by omega)

/-- `fe_mul()`. -/
def feMul (a b : Fe) : Fe := reduceWide (mulWide 8 a b)

@[simp] theorem toField_feMul (a b : Fe) : toField (feMul a b) = toField a * toField b := by
  rw [feMul, toField_reduceWide, mulWide_spec, Nat.cast_mul, toField, toField, feVal, feVal]

/-- `fe_sqr()`. -/
def feSqr (a : Fe) : Fe := reduceWide (sqrWide 8 a)

@[simp] theorem toField_feSqr (a : Fe) : toField (feSqr a) = toField a ^ 2 := by
  rw [feSqr, toField_reduceWide, ← Nat.two_mul, sqrWide_spec, Nat.cast_pow, toField, feVal]

/-- `fe_mul_small()`. -/
def feMulSmall (a : Fe) (k : Nat) : Fe :=
  let s := carryLoop 8 (fun i ↦ a.get i * k) 0
  feFold s.1 s.2

theorem toField_feMulSmall (a : Fe) {k : Nat} (hk : k < radix) :
    toField (feMulSmall a k) = toField a * (k : ZMod p25519) := by
  have hcol : ∀ i < 8, a.get i * k + radix ≤ 2 ^ 64 := by
    intro i _
    have ha := a.get_lt i
    have hmul : a.get i * k ≤ (radix - 1) * (radix - 1) := Nat.mul_le_mul (by omega) (by omega)
    rw [radix_eq] at *
    omega
  rw [feMulSmall, toField_carry hcol, toField, feVal_eq_sum, ← Nat.cast_mul, sum_mul]
  refine congrArg _ (sum_congr rfl fun i _ ↦ ?_)
  ring

/-! ### Bytes -/

/-- `unsigned char[32]`. -/
abbrev Bytes32 := { b : List UByte // b.length = 32 }

/-- `t[7] &= 0x7fffffff`: bit 255 cleared. -/
def clearTop (t : Fe) : Fe := t.put 7 (t.get 7 &&& 0x7fffffff)

/-- `fe_frombytes()`. -/
def feFrombytes (b : Bytes32) : Fe := clearTop fun i ↦ BitVec.ofNat 32 (loadLe b.1 (4 * i))

/-- One fold of bit 255 in `fe_tobytes()`. -/
def foldTop (t : Fe) : Fe := (foldPass 8 (clearTop t) (t.get 7 >>> 31 * 19)).1

/-- `t[i] ^= mask & (t[i] ^ s[i])`. -/
def maskTo (mask : BitVec 32) (t s : Fe) : Fe := fun i ↦ t i ^^^ (mask &&& (t i ^^^ s i))

/-- `0 - bit`. -/
def maskOf (bit : BitVec 32) : BitVec 32 := 0 - bit

/-- The number below `p` in `fe_tobytes()`, once it is below `2^255`. -/
def feCanon (t : Fe) : Fe :=
  let s := (carryLoop 8 t.get 19).1
  maskTo (maskOf (s 7 >>> 31)) t (clearTop s)

/-- The bytes of the limbs. -/
def limbBytes (t : Fe) (n : Nat) : List UByte := (List.range n).flatMap fun i ↦ storeLe (t.get i)

theorem length_limbBytes (t : Fe) (n : Nat) : (limbBytes t n).length = 4 * n := by
  simp [limbBytes, List.length_flatMap, storeLe, Nat.mul_comm]

/-- `fe_tobytes()`. -/
def feTobytes (a : Fe) : Bytes32 :=
  ⟨limbBytes (feCanon (foldTop (foldTop a))) 8, length_limbBytes _ 8⟩

/-- `fe_cswap()`. -/
def feCswap (a b : Fe) (bit : BitVec 32) : Fe × Fe :=
  (maskTo (maskOf bit) a b, maskTo (maskOf bit) b a)

theorem maskTo_zero (t s : Fe) : maskTo (maskOf 0#32) t s = t := by
  funext i
  simp [maskTo, maskOf]

theorem maskTo_one (t s : Fe) : maskTo (maskOf 1#32) t s = s := by
  funext i
  rw [maskTo, show maskOf 1#32 = BitVec.allOnes 32 by decide, BitVec.allOnes_and,
    ← BitVec.xor_assoc, BitVec.xor_self, BitVec.zero_xor]

/-- Words in a row. -/
theorem val_loadLe {m : List UByte} {n : Nat} (h : 4 * n ≤ m.length) :
    Heap.val (fun i ↦ BitVec.ofNat 32 (loadLe m (4 * i))) 0 n =
      LittleEndian.value (m.take (4 * n)) := by
  induction n with
  | zero => rfl
  | succ n ih =>
    have hword : Heap.get (fun i ↦ BitVec.ofNat 32 (loadLe m (4 * i))) (0 + n) =
        LittleEndian.value ((m.drop (4 * n)).take 4) := by
      have hlt := LittleEndian.value_lt ((m.drop (4 * n)).take 4)
      have hlen : ((m.drop (4 * n)).take 4).length = 4 := by
        rw [List.length_take, List.length_drop]
        omega
      rw [hlen] at hlt
      rw [Nat.zero_add, Heap.get, BitVec.toNat_ofNat, loadLe_eq_value (by omega),
        Nat.mod_eq_of_lt (by simpa using hlt)]
    rw [Heap.val_succ, ih (by omega), hword, show 4 * (n + 1) = 4 * n + 4 by omega, List.take_add,
      LittleEndian.value_append, List.length_take, Nat.min_eq_left (by omega), pow_mul, radix_eq]
    ring

theorem feVal_clearTop (t : Fe) :
    feVal (clearTop t) + 2 ^ 255 * (t.get 7 >>> 31) = feVal t ∧ feVal (clearTop t) < 2 ^ 255 := by
  have hlow := t.val_lt 0 7
  have htop := t.get_lt 7
  have hput : feVal (clearTop t) = t.val 0 7 + t.get 7 % 2 ^ 31 % radix * radix ^ 7 := by
    rw [clearTop, show (0x7fffffff : Nat) = 2 ^ 31 - 1 by decide, Nat.and_two_pow_sub_one_eq_mod]
    exact t.val_put_top 0 7 _
  have hval : feVal t = t.val 0 7 + t.get 7 * radix ^ 7 := t.val_succ 0 7
  rw [hput, hval, Nat.shiftRight_eq_div_pow]
  rw [radix_eq] at *
  omega

/-- The number in 32 bytes, without its top bit. -/
theorem feVal_feFrombytes (b : Bytes32) :
    feVal (feFrombytes b) = LittleEndian.value b.1 % 2 ^ 255 := by
  obtain ⟨hval, hlt⟩ := feVal_clearTop fun i ↦ BitVec.ofNat 32 (loadLe b.1 (4 * i))
  have hb := b.2
  have hload : feVal (fun i ↦ BitVec.ofNat 32 (loadLe b.1 (4 * i))) = LittleEndian.value b.1 := by
    rw [feVal, val_loadLe (by omega), List.take_of_length_le (by omega)]
  rw [hload] at hval
  rw [feFrombytes, ← hval, Nat.add_mul_mod_self_left, Nat.mod_eq_of_lt hlt]

theorem feVal_foldTop (a : Fe) :
    feVal (foldTop a) = feVal a % 2 ^ 255 + 19 * (feVal a / 2 ^ 255) := by
  obtain ⟨hval, hlt⟩ := feVal_clearTop a
  have hbit : a.get 7 >>> 31 ≤ 1 := by
    have h := a.get_lt 7
    rw [radix_eq] at h
    rw [Nat.shiftRight_eq_div_pow]
    omega
  rw [foldTop]
  generalize a.get 7 >>> 31 = c at hval hbit ⊢
  obtain ⟨hfold, -, -⟩ := foldPass_spec 8 (r := clearTop a) (t := c * 19) (by
    rw [radix_eq]
    omega)
  change feVal (foldPass 8 (clearTop a) (c * 19)).1 + _ = feVal (clearTop a) + _ at hfold
  generalize foldPass 8 (clearTop a) (c * 19) = s at hfold ⊢
  -- nothing leaves the top
  have hzero : s.2 = 0 := by
    by_contra hne
    have hle : radix ^ 8 * 1 ≤ radix ^ 8 * s.2 := Nat.mul_le_mul_left _ (by omega)
    rw [radix_eq] at *
    omega
  rw [hzero] at hfold
  omega

theorem feVal_feCanon {t : Fe} (ht : feVal t < 2 ^ 255) : feVal (feCanon t) = feVal t % p25519 := by
  have hsum : ∑ i ∈ range 8, t.get i * radix ^ i = feVal t := (feVal_eq_sum t).symm
  have hcol : ∀ i < 8, t.get i + radix ≤ 2 ^ 64 := by
    intro i _
    have h := t.get_lt i
    rw [radix_eq] at *
    omega
  have hstart : 19 < radix := by decide
  obtain ⟨hval, -⟩ := carryLoop_spec hstart hcol
  rw [hsum] at hval
  change feVal (carryLoop 8 t.get 19).1 + _ = _ at hval
  rw [feCanon]
  generalize carryLoop 8 t.get 19 = r at hval ⊢
  obtain ⟨s, carry⟩ := r
  dsimp only at hval ⊢
  have hzero : carry = 0 := by
    by_contra hne
    have hle : radix ^ 8 * 1 ≤ radix ^ 8 * carry := Nat.mul_le_mul_left _ (by omega)
    rw [radix_eq] at *
    omega
  subst hzero
  obtain ⟨hclear, hlt⟩ := feVal_clearTop s
  have hp : p25519 + 19 = 2 ^ 255 := by decide
  have hbit : s 7 >>> 31 = BitVec.ofNat 32 (s.get 7 >>> 31) := by
    apply BitVec.eq_of_toNat_eq
    rw [BitVec.toNat_ushiftRight, BitVec.toNat_ofNat, Nat.mod_eq_of_lt]
    · rfl
    · exact (Nat.shiftRight_le _ _).trans_lt (s 7).isLt
  rw [hbit]
  rcases Nat.lt_or_ge (feVal t) p25519 with hsmall | hlarge
  · rw [show s.get 7 >>> 31 = 0 by omega, maskTo_zero, Nat.mod_eq_of_lt hsmall]
  · rw [show s.get 7 >>> 31 = 1 by omega, maskTo_one, Nat.mod_eq_sub_mod hlarge,
      Nat.mod_eq_of_lt (by omega)]
    omega

theorem limbBytes_eq (t : Fe) (n : Nat) :
    limbBytes t n = LittleEndian.bytes (4 * n) (t.val 0 n) := by
  induction n with
  | zero => rfl
  | succ n ih =>
    have hpow : 256 ^ (4 * n) = radix ^ n := by
      rw [pow_mul, radix_eq]
      rfl
    have hlt := t.val_lt 0 n
    have hlow : t.val 0 (n + 1) % radix ^ n = t.val 0 n := by
      rw [Heap.val_succ, Nat.add_mul_mod_self_right, Nat.mod_eq_of_lt hlt]
    have hhigh : t.val 0 (n + 1) / radix ^ n = t.get n := by
      rw [Heap.val_succ, Nat.add_mul_div_right _ _ (radix_pow_pos n), Nat.div_eq_of_lt hlt,
        Nat.zero_add, Nat.zero_add]
    rw [show 4 * (n + 1) = 4 * n + 4 by omega, LittleEndian.bytes_append, hpow, hhigh,
      ← LittleEndian.bytes_mod (4 * n), hpow, hlow, ← ih, limbBytes, limbBytes, List.range_succ,
      List.flatMap_append, List.flatMap_singleton, storeLe_eq]

/-- **The encoding reduces.** -/
theorem feTobytes_eq (a : Fe) : (feTobytes a).1 = LittleEndian.bytes 32 (toField a).val := by
  have hp : p25519 + 19 = 2 ^ 255 := by decide
  have hlt : feVal a < 2 ^ 256 := a.val_lt 0 8
  have hfold := feVal_foldTop a
  have hfold' := feVal_foldTop (foldTop a)
  have hcanon := feVal_feCanon (t := foldTop (foldTop a)) (by omega)
  have hmod : ∀ t : Fe, feVal (foldTop t) % p25519 = feVal t % p25519 := by
    intro t
    have hsum : feVal (foldTop t) + p25519 * (feVal t / 2 ^ 255) = feVal t := by
      linear_combination feVal_foldTop t + Nat.mod_add_div (feVal t) (2 ^ 255) +
        feVal t / 2 ^ 255 * hp
    rw [← hsum, Nat.add_mul_mod_self_left]
  have hbytes : (feTobytes a).1 = LittleEndian.bytes 32 (feVal (feCanon (foldTop (foldTop a)))) :=
    limbBytes_eq _ 8
  rw [hbytes, hcanon, hmod, hmod, toField, ZMod.val_natCast]

/-! ### Powers -/

/-- `n` squarings. -/
def feSqrTimes (a : Fe) (n : Nat) : Fe := countUp n (fun _ t ↦ feSqr t) a

/-- `fe_pow_2n_mul()`. -/
def fePow2nMul (a : Fe) (n : Nat) (m : Fe) : Fe := feMul (feSqrTimes a n) m

/-- `fe_invert()`. -/
def feInvert (z : Fe) : Fe :=
  let t0 := feSqr z
  let t1 := feSqr t0
  let t1 := feSqr t1
  let t1 := feMul z t1
  let t0 := feMul t0 t1
  let t2 := feSqr t0
  let t1 := feMul t1 t2
  let t1 := fePow2nMul t1 5 t1
  let t2 := fePow2nMul t1 10 t1
  let t3 := fePow2nMul t2 20 t2
  let t1 := fePow2nMul t3 10 t1
  let t2 := fePow2nMul t1 50 t1
  let t3 := fePow2nMul t2 100 t2
  let t1 := fePow2nMul t3 50 t1
  feMul (feSqrTimes t1 5) t0

/-- `fe_pow22523()`. -/
def fePow22523 (z : Fe) : Fe :=
  let t0 := feSqr z
  let t1 := feSqr t0
  let t1 := feSqr t1
  let t1 := feMul z t1
  let t0 := feMul t0 t1
  let t0 := feSqr t0
  let t0 := feMul t1 t0
  let t0 := fePow2nMul t0 5 t0
  let t1 := fePow2nMul t0 10 t0
  let t2 := fePow2nMul t1 20 t1
  let t0 := fePow2nMul t2 10 t0
  let t1 := fePow2nMul t0 50 t0
  let t2 := fePow2nMul t1 100 t1
  let t0 := fePow2nMul t2 50 t0
  feMul (feSqrTimes t0 2) z

section Powers

variable {z : ZMod p25519} {a b : Fe} {k l : Nat}

theorem toField_feMul_pow (ha : toField a = z ^ k) (hb : toField b = z ^ l) {e : Nat}
    (he : k + l = e) : toField (feMul a b) = z ^ e := by
  rw [toField_feMul, ha, hb, ← pow_add, he]

theorem toField_feSqr_pow (ha : toField a = z ^ k) {e : Nat} (he : k * 2 = e) :
    toField (feSqr a) = z ^ e := by
  rw [toField_feSqr, ha, ← pow_mul, he]

theorem toField_feSqrTimes (ha : toField a = z ^ k) (n : Nat) :
    toField (feSqrTimes a n) = z ^ (k * 2 ^ n) := by
  refine countUp_invariant (fun n t ↦ toField t = z ^ (k * 2 ^ n)) (by simpa using ha) ?_
  intro n _ t ht
  exact toField_feSqr_pow ht (by rw [pow_succ, Nat.mul_assoc])

theorem toField_fePow2nMul (ha : toField a = z ^ k) (n : Nat) (hb : toField b = z ^ l) {e : Nat}
    (he : k * 2 ^ n + l = e) : toField (fePow2nMul a n b) = z ^ e :=
  toField_feMul_pow (toField_feSqrTimes ha n) hb he

end Powers

/-- The part that both addition chains share, from `2^5 - 1` to `2^250 - 1`. -/
theorem toField_chain {z : ZMod p25519} {t : Fe} (h5 : toField t = z ^ (2 ^ 5 - 1)) :
    let t1 := fePow2nMul t 5 t
    let t2 := fePow2nMul t1 10 t1
    let t3 := fePow2nMul t2 20 t2
    let t1 := fePow2nMul t3 10 t1
    let t2 := fePow2nMul t1 50 t1
    let t3 := fePow2nMul t2 100 t2
    toField (fePow2nMul t3 50 t1) = z ^ (2 ^ 250 - 1) := by
  have h10 := toField_fePow2nMul h5 5 h5 (e := 2 ^ 10 - 1) (by norm_num)
  have h20 := toField_fePow2nMul h10 10 h10 (e := 2 ^ 20 - 1) (by norm_num)
  have h40 := toField_fePow2nMul h20 20 h20 (e := 2 ^ 40 - 1) (by norm_num)
  have h50 := toField_fePow2nMul h40 10 h10 (e := 2 ^ 50 - 1) (by norm_num)
  have h100 := toField_fePow2nMul h50 50 h50 (e := 2 ^ 100 - 1) (by norm_num)
  have h200 := toField_fePow2nMul h100 100 h100 (e := 2 ^ 200 - 1) (by norm_num)
  exact toField_fePow2nMul h200 50 h50 (by norm_num)

/-- The powers that both addition chains begin with. -/
theorem toField_chainStart (z : Fe) :
    let t0 := feSqr z
    let t1 := feMul z (feSqr (feSqr t0))
    let t0 := feMul t0 t1
    toField t0 = toField z ^ 11 ∧ toField (feMul t1 (feSqr t0)) = toField z ^ (2 ^ 5 - 1) := by
  have h1 : toField z = toField z ^ 1 := (pow_one _).symm
  have h2 := toField_feSqr_pow h1 rfl
  have h9 := toField_feMul_pow h1 (toField_feSqr_pow (toField_feSqr_pow h2 rfl) rfl) rfl
  have h11 := toField_feMul_pow h2 h9 rfl
  exact ⟨h11, toField_feMul_pow h9 (toField_feSqr_pow h11 rfl) rfl⟩

/-- The inverse is the power `p - 2`. -/
theorem toField_feInvert (z : Fe) : toField (feInvert z) = toField z ^ (p25519 - 2) := by
  obtain ⟨h11, h5⟩ := toField_chainStart z
  exact toField_feMul_pow (toField_feSqrTimes (toField_chain h5) 5) h11 (by norm_num [p25519])

/-- The power that a square root needs. -/
theorem toField_fePow22523 (z : Fe) :
    toField (fePow22523 z) = toField z ^ ((p25519 - 5) / 8) := by
  obtain ⟨-, h5⟩ := toField_chainStart z
  exact toField_feMul_pow (toField_feSqrTimes (toField_chain h5) 2) (pow_one _).symm
    (by norm_num [p25519])

end AmiNetXDuo.Crypto68k
