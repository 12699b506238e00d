import AmiNetXDuo.Crypto68k.Field25519

/-!
# X25519

The key exchange of `c68k_25519.c` against RFC 7748: the ladder runs on field elements that are not
kept reduced, and each of them stands for the residue that the ladder of the RFC has there.

## Main definitions

* `ladderRound`, `x25519Core`, `x25519` : the code.
* `rfcRound`, `rfcLadder`, `rfcX25519` : the function of RFC 7748, section 5.

## Main results

* `ladderRounds_eq` : the two ladders, after every number of rounds.
* `x25519_eq_rfc7748` : the bytes of the RFC, and the return value.
-/

namespace AmiNetXDuo.Crypto68k

/-! ### The two ladders -/

/-- The two points of the ladder, in projective coordinates. -/
structure Ladder (F : Type) where
  x2 : F
  z2 : F
  x3 : F
  z3 : F

/-- What a round computes on the way. -/
structure LadderTemps (F : Type) where
  a : F
  aa : F
  b : F
  bb : F
  ee : F
  c : F
  d : F
  da : F
  cb : F

/-- The residues of the coordinates. -/
def Ladder.toField (s : Ladder Fe) : Ladder (ZMod p25519) :=
  ⟨Crypto68k.toField s.x2, Crypto68k.toField s.z2, Crypto68k.toField s.x3, Crypto68k.toField s.z3⟩

/-- The residues of what a round computes on the way. -/
def LadderTemps.toField (t : LadderTemps Fe) : LadderTemps (ZMod p25519) :=
  ⟨Crypto68k.toField t.a, Crypto68k.toField t.aa, Crypto68k.toField t.b, Crypto68k.toField t.bb,
    Crypto68k.toField t.ee, Crypto68k.toField t.c, Crypto68k.toField t.d, Crypto68k.toField t.da,
    Crypto68k.toField t.cb⟩

/-- `(e[pos >> 3] >> (pos & 7)) & 1`. -/
def scalarBit (e : List UByte) (pos : Nat) : BitVec 32 :=
  ((e.getD (pos >>> 3) 0) >>> (pos &&& 7) &&& 1).setWidth 32

/-- The swap of both coordinates. -/
def ladderSwap (s : Ladder Fe) (swap : BitVec 32) : Ladder Fe :=
  let x := feCswap s.x2 s.x3 swap
  let z := feCswap s.z2 s.z3 swap
  ⟨x.1, z.1, x.2, z.2⟩

/-- The first half of a round. -/
def ladderTemps (s : Ladder Fe) : LadderTemps Fe :=
  let a := feAdd s.x2 s.z2
  let aa := feSqr a
  let b := feSub s.x2 s.z2
  let bb := feSqr b
  let ee := feSub aa bb
  let c := feAdd s.x3 s.z3
  let d := feSub s.x3 s.z3
  let da := feMul d a
  let cb := feMul c b
  ⟨a, aa, b, bb, ee, c, d, da, cb⟩

/-- The second half of a round. -/
def ladderNext (x1 : Fe) (t : LadderTemps Fe) : Ladder Fe where
  x3 := feSqr (feAdd t.da t.cb)
  z3 := feMul x1 (feSqr (feSub t.da t.cb))
  x2 := feMul t.aa t.bb
  z2 := feMul t.ee (feAdd t.aa (feMulSmall t.ee 121665))

/-- One round of `x25519_core()`: the points, and the swap that is still to be done. -/
def ladderRound (e : List UByte) (x1 : Fe) (pos : Nat) (s : Ladder Fe × BitVec 32) :
    Ladder Fe × BitVec 32 :=
  let bit := scalarBit e pos
  (ladderNext x1 (ladderTemps (ladderSwap s.1 (s.2 ^^^ bit))), bit)

/-- The first `j` rounds: `for (pos = 254; pos >= 0; pos--)`. -/
def ladderRounds (e : List UByte) (x1 : Fe) (j : Nat) : Ladder Fe × BitVec 32 :=
  countUp j (fun i ↦ ladderRound e x1 (254 - i)) (⟨feOne, feZero, x1, feOne⟩, 0)

/-- `x25519_core()`. -/
def x25519Core (e : List UByte) (x1 : Fe) : Fe :=
  let s := ladderRounds e x1 255
  let r := ladderSwap s.1 s.2
  feMul r.x2 (feInvert r.z2)

/-- `x25519_clamp()`. -/
def x25519Clamp (n : List UByte) : List UByte :=
  ((n.modify 0 (· &&& 248)).modify 31 (· &&& 127)).modify 31 (· ||| 64)

/-- `c68k_x25519()`: the output and the return value. -/
def x25519 (n p : Bytes32) : Bytes32 × Int :=
  let q := feTobytes (x25519Core (x25519Clamp n.1) (feFrombytes p))
  let nonzero := q.1.foldl (fun acc b ↦ acc ||| b.toNat) (0 : Nat)
  (q, if nonzero ≠ 0 then 0 else -1)

/-- The conditional swap of the RFC. -/
def rfcSwap (s : Ladder (ZMod p25519)) (swap : Bool) : Ladder (ZMod p25519) :=
  if swap then ⟨s.x3, s.z3, s.x2, s.z2⟩ else s

/-- `A`, `AA`, `B`, `BB`, `E`, `C`, `D`, `DA` and `CB` of the RFC. -/
def rfcTemps (s : Ladder (ZMod p25519)) : LadderTemps (ZMod p25519) where
  a := s.x2 + s.z2
  aa := (s.x2 + s.z2) ^ 2
  b := s.x2 - s.z2
  bb := (s.x2 - s.z2) ^ 2
  ee := (s.x2 + s.z2) ^ 2 - (s.x2 - s.z2) ^ 2
  c := s.x3 + s.z3
  d := s.x3 - s.z3
  da := (s.x3 - s.z3) * (s.x2 + s.z2)
  cb := (s.x3 + s.z3) * (s.x2 - s.z2)

/-- One round of the RFC, for the bit `t` of the scalar `k`. -/
def rfcRound (k : Nat) (x1 : ZMod p25519) (t : Nat) (s : Ladder (ZMod p25519) × Bool) :
    Ladder (ZMod p25519) × Bool :=
  let v := rfcTemps (rfcSwap s.1 (s.2 ^^ k.testBit t))
  (⟨v.aa * v.bb, v.ee * (v.aa + 121665 * v.ee), (v.da + v.cb) ^ 2, x1 * (v.da - v.cb) ^ 2⟩,
    k.testBit t)

/-- The first `j` rounds of the RFC, from bit 254 down. -/
def rfcRounds (k : Nat) (u : ZMod p25519) (j : Nat) : Ladder (ZMod p25519) × Bool :=
  countUp j (fun i ↦ rfcRound k u (254 - i)) (⟨1, 0, u, 1⟩, false)

/-- The ladder of the RFC. -/
def rfcLadder (k : Nat) (u : ZMod p25519) : ZMod p25519 :=
  let s := rfcRounds k u 255
  let r := rfcSwap s.1 s.2
  r.x2 * r.z2 ^ (p25519 - 2)

/-- `decodeScalar25519`: the three lowest bits and the highest are cleared and bit 254 is set. -/
def rfcScalar (k : List UByte) : Nat := 2 ^ 254 + 8 * (LittleEndian.value k / 8 % 2 ^ 251)

/-- `decodeUCoordinate`: bit 255 is ignored, and a number at or above `p` is reduced. -/
def rfcUCoordinate (u : List UByte) : ZMod p25519 :=
  ((LittleEndian.value u % 2 ^ 255 : Nat) : ZMod p25519)

/-- X25519 of RFC 7748, section 5. -/
def rfcX25519 (k u : List UByte) : List UByte :=
  LittleEndian.bytes 32 (rfcLadder (rfcScalar k) (rfcUCoordinate u)).val

/-! ### The rounds -/

theorem toField_ladderTemps (s : Ladder Fe) :
    (ladderTemps s).toField = rfcTemps s.toField := by
  simp only [LadderTemps.toField, ladderTemps, rfcTemps, Ladder.toField, toField_feAdd,
    toField_feSub, toField_feSqr, toField_feMul]

theorem toField_ladderNext (x1 : Fe) (t : LadderTemps Fe) :
    (ladderNext x1 t).toField = ⟨toField t.aa * toField t.bb,
      toField t.ee * (toField t.aa + 121665 * toField t.ee), (toField t.da + toField t.cb) ^ 2,
      toField x1 * (toField t.da - toField t.cb) ^ 2⟩ := by
  have hsmall := toField_feMulSmall t.ee (k := 121665) (by decide)
  simp only [Ladder.toField, ladderNext, toField_feAdd, toField_feSub, toField_feSqr,
    toField_feMul, hsmall, Nat.cast_ofNat, mul_comm (toField t.ee) 121665]

theorem toField_ladderSwap (s : Ladder Fe) (b : Bool) :
    (ladderSwap s (if b then 1 else 0)).toField = rfcSwap s.toField b := by
  cases b with
  | false => simp [ladderSwap, rfcSwap, feCswap, maskTo_zero]
  | true => simp [ladderSwap, rfcSwap, feCswap, maskTo_one, Ladder.toField]

/-- The bit that the code takes from the bytes of the scalar. -/
theorem scalarBit_eq (e : List UByte) (pos : Nat) :
    scalarBit e pos = if (LittleEndian.value e).testBit pos then 1 else 0 := by
  rw [LittleEndian.testBit_value, scalarBit, Nat.shiftRight_eq_div_pow,
    show (7 : Nat) = 2 ^ 3 - 1 by decide, Nat.and_two_pow_sub_one_eq_mod]
  generalize e.getD (pos / 2 ^ 3) 0 = b
  generalize pos % 2 ^ 3 = k
  have hone : b >>> k &&& 1#8 = if b.getLsbD k then 1 else 0 := by
    rw [BitVec.and_one_eq_setWidth_ofBool_getLsbD, BitVec.getLsbD_ushiftRight, Nat.add_zero]
    cases b.getLsbD k <;> rfl
  rw [show (1 : UByte) = 1#8 from rfl, hone]
  cases b.getLsbD k <;> rfl

/-- The first half of a round, behind the swap that is still to be done. -/
theorem toField_ladderTemps_round {e : List UByte} {s : Ladder Fe × BitVec 32}
    {r : Ladder (ZMod p25519) × Bool} (hpoints : s.1.toField = r.1)
    (hswap : s.2 = if r.2 then 1 else 0) (pos : Nat) :
    (ladderTemps (ladderSwap s.1 (s.2 ^^^ scalarBit e pos))).toField =
      rfcTemps (rfcSwap r.1 (r.2 ^^ (LittleEndian.value e).testBit pos)) := by
  have hxor : s.2 ^^^ scalarBit e pos =
      if (r.2 ^^ (LittleEndian.value e).testBit pos) then 1 else 0 := by
    rw [hswap, scalarBit_eq]
    cases r.2 <;> cases (LittleEndian.value e).testBit pos <;> rfl
  rw [hxor, toField_ladderTemps, toField_ladderSwap, hpoints]

/-- **The two ladders.** After every number of rounds the coordinates and the pending swap are those
of the RFC. -/
theorem ladderRounds_eq (e : List UByte) (x1 : Fe) (j : Nat) :
    (ladderRounds e x1 j).1.toField = (rfcRounds (LittleEndian.value e) (toField x1) j).1 ∧
      (ladderRounds e x1 j).2 =
        if (rfcRounds (LittleEndian.value e) (toField x1) j).2 then 1 else 0 := by
  induction j with
  | zero =>
    refine ⟨?_, rfl⟩
    simp [ladderRounds, rfcRounds, countUp, Ladder.toField, toField_feOne, toField_feZero]
  | succ j ih =>
    obtain ⟨hpoints, hswap⟩ := ih
    have htemps := toField_ladderTemps_round (e := e) hpoints hswap (254 - j)
    refine ⟨?_, scalarBit_eq e (254 - j)⟩
    change (ladderNext x1 (ladderTemps (ladderSwap (ladderRounds e x1 j).1
      ((ladderRounds e x1 j).2 ^^^ scalarBit e (254 - j))))).toField =
        (rfcRound _ _ (254 - j) (rfcRounds _ _ j)).1
    rw [toField_ladderNext, rfcRound, ← htemps]
    rfl

theorem toField_x25519Core (e : List UByte) (x1 : Fe) :
    toField (x25519Core e x1) = rfcLadder (LittleEndian.value e) (toField x1) := by
  obtain ⟨hpoints, hswap⟩ := ladderRounds_eq e x1 255
  have hr := toField_ladderSwap (ladderRounds e x1 255).1
    (rfcRounds (LittleEndian.value e) (toField x1) 255).2
  rw [← hswap, hpoints] at hr
  rw [x25519Core, toField_feMul, toField_feInvert, rfcLadder, ← hr]
  rfl

/-! ### The bytes -/

theorem modify_append_last (l : List UByte) (c : UByte) (f : UByte → UByte) :
    (l ++ [c]).modify l.length f = l ++ [f c] := by
  induction l with
  | nil => rfl
  | cons b l ih => simp [ih]

/-- The clamp on bytes is the decoding of the RFC. -/
theorem value_x25519Clamp (n : Bytes32) :
    LittleEndian.value (x25519Clamp n.1) = rfcScalar n.1 := by
  obtain ⟨l, hl⟩ := n
  obtain ⟨b, rest, rfl⟩ := List.exists_cons_of_length_eq_add_one hl
  obtain ⟨mid, c, rfl⟩ : ∃ mid c, rest = mid ++ [c] := by
    rcases List.eq_nil_or_concat rest with rfl | ⟨mid, c, h⟩
    · simp at hl
    · exact ⟨mid, c, by simpa using h⟩
  have hmid : mid.length = 30 := by simpa using hl
  have hclamp : x25519Clamp (b :: (mid ++ [c])) =
      (b &&& 248) :: (mid ++ [c &&& 127 ||| 64]) := by
    have hlast := modify_append_last mid
    rw [hmid] at hlast
    simp [x25519Clamp, hlast]
  have hlow : ∀ b : UByte, (b &&& 248).toNat = b.toNat / 8 * 8 := by decide
  have hhigh : ∀ c : UByte, (c &&& 127 ||| 64).toNat = c.toNat % 64 + 64 := by decide
  have hlt := LittleEndian.value_lt mid
  rw [hmid] at hlt
  dsimp only
  rw [hclamp, rfcScalar]
  simp only [LittleEndian.value_cons, LittleEndian.value_append, LittleEndian.value_nil, hmid,
    hlow, hhigh]
  omega

/-- The bytes of an output are all zero exactly when their disjunction is. -/
theorem foldl_or_eq_zero (l : List UByte) (acc : Nat) :
    l.foldl (fun acc b ↦ acc ||| b.toNat) acc = 0 ↔
      acc = 0 ∧ l = List.replicate l.length 0 := by
  induction l generalizing acc with
  | nil => simp
  | cons b l ih =>
    rw [List.foldl_cons, ih, Nat.or_eq_zero_iff, List.length_cons, List.replicate_succ,
      List.cons_eq_cons, and_assoc]
    rw [BitVec.toNat_eq]
    exact Iff.rfl

/-- **X25519 is that of RFC 7748.** For every scalar and every `u` coordinate the output is that of
the RFC, the return value is -1 exactly when the output is all zero, and 0 otherwise; and after
every number of rounds the coordinates, and what the next round computes from them behind its swap,
stand for the values of the RFC. -/
theorem x25519_eq_rfc7748 (n p : Bytes32) :
    (x25519 n p).1.1 = rfcX25519 n.1 p.1 ∧
      ((x25519 n p).2 = -1 ↔ (x25519 n p).1.1 = List.replicate 32 0) ∧
      ((x25519 n p).2 = 0 ∨ (x25519 n p).2 = -1) ∧
      ∀ j, (ladderRounds (x25519Clamp n.1) (feFrombytes p) j).1.toField =
          (rfcRounds (rfcScalar n.1) (rfcUCoordinate p.1) j).1 ∧
        (ladderTemps (ladderSwap (ladderRounds (x25519Clamp n.1) (feFrombytes p) j).1
            ((ladderRounds (x25519Clamp n.1) (feFrombytes p) j).2 ^^^
              scalarBit (x25519Clamp n.1) (254 - j)))).toField =
          rfcTemps (rfcSwap (rfcRounds (rfcScalar n.1) (rfcUCoordinate p.1) j).1
            ((rfcRounds (rfcScalar n.1) (rfcUCoordinate p.1) j).2 ^^
              (rfcScalar n.1).testBit (254 - j))) := by
  have hu : toField (feFrombytes p) = rfcUCoordinate p.1 := by
    rw [toField, feVal_feFrombytes, rfcUCoordinate]
  refine ⟨?_, ?_, ?_, fun j ↦ ?_⟩
  · change (feTobytes (x25519Core (x25519Clamp n.1) (feFrombytes p))).1 = _
    rw [feTobytes_eq, toField_x25519Core, value_x25519Clamp, hu, rfcX25519]
  · have hor := foldl_or_eq_zero (x25519 n p).1.1 0
    rw [(x25519 n p).1.2] at hor
    rw [← (and_iff_right rfl : (0 = 0 ∧ _) ↔ (x25519 n p).1.1 = List.replicate 32 0), ← hor, x25519]
    dsimp only
    split_ifs with h0
    · simp [h0]
    · simpa using h0
  · rw [x25519]
    dsimp only
    split_ifs
    · exact .inl rfl
    · exact .inr rfl
  · obtain ⟨hpoints, hswap⟩ := ladderRounds_eq (x25519Clamp n.1) (feFrombytes p) j
    have htemps := toField_ladderTemps_round (e := x25519Clamp n.1) hpoints hswap (254 - j)
    rw [value_x25519Clamp, hu] at hpoints htemps
    exact ⟨hpoints, htemps⟩

end AmiNetXDuo.Crypto68k
