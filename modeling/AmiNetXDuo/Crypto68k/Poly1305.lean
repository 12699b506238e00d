import AmiNetXDuo.Basic
import AmiNetXDuo.Lib.LittleEndian
import AmiNetXDuo.Lib.MachineWord
import Mathlib.Data.Nat.ModEq
import Mathlib.Tactic.Positivity

/-!
# Poly1305

The authenticator of `c68k_poly1305.c`: an accumulator of five limbs of 26 bits in 32-bit words, to
which blocks of 16 bytes are added and which is multiplied by the clamped key after each, only
partly carried between blocks.  `poly1305` is the value RFC 8439 section 2.5 gives.

## Main definitions

* `Limbs`, `Poly1305` : five limbs, and the context.
* `polyInitialize`, `polyUpdate`, `polyFinish` : the three calls.
* `poly1305` : the tag of RFC 8439.
* `blockTerms`, `finishTerms` : the products and sums of a block and of the end, as integers, with
  the width of the type that holds them.

## Main results

* `polyBlock_modEq` : one block multiplies and adds modulo `2 ^ 130 - 5`.
* `update_foldl` : the context depends on the message alone, not on how it was divided.
* `polyFinish_eq` : the tag of any division of any message, with no overflow on the way.
-/

namespace AmiNetXDuo.Crypto68k

open MachineWord

/-! ### The code -/

/-- Five limbs of radix `2 ^ 26`, held in 32-bit words. -/
structure Limbs where
  l0 : Nat
  l1 : Nat
  l2 : Nat
  l3 : Nat
  l4 : Nat
  deriving DecidableEq, Repr

/-- `C68K_POLY1305`.  The first `c68k_poly1305_leftover` bytes of `c68k_poly1305_buffer` are kept,
the others hold nothing that is read. -/
@[ext] structure Poly1305 where
  r : Limbs
  h : Limbs
  pad : Nat × Nat × Nat × Nat
  buffer : List UByte
  leftover_lt : buffer.length < 16

/-- `c68k_poly1305_load_le()` at an offset. -/
def loadLe (m : List UByte) (i : Nat) : Nat :=
  (m.getD i 0).toNat ||| (m.getD (i + 1) 0).toNat <<< 8 ||| (m.getD (i + 2) 0).toNat <<< 16 |||
    (m.getD (i + 3) 0).toNat <<< 24

/-- `c68k_poly1305_store_le()`. -/
def storeLe (v : Nat) : List UByte :=
  [BitVec.ofNat 8 v, BitVec.ofNat 8 (v >>> 8), BitVec.ofNat 8 (v >>> 16), BitVec.ofNat 8 (v >>> 24)]

/-- `c68k_poly1305_initialize()`: the clamp is folded into the limb masks. -/
def polyInitialize (key : List UByte) : Poly1305 where
  r :=
    { l0 := loadLe key 0 &&& 0x03ffffff
      l1 := (loadLe key 0 >>> 26 ||| w32 (loadLe key 4 <<< 6)) &&& 0x03ffff03
      l2 := (loadLe key 4 >>> 20 ||| w32 (loadLe key 8 <<< 12)) &&& 0x03ffc0ff
      l3 := (loadLe key 8 >>> 14 ||| w32 (loadLe key 12 <<< 18)) &&& 0x03f03fff
      l4 := loadLe key 12 >>> 8 &&& 0x000fffff }
  h := ⟨0, 0, 0, 0, 0⟩
  pad := (loadLe key 16, loadLe key 20, loadLe key 24, loadLe key 28)
  buffer := []
  leftover_lt := by decide

/-- The limbs of a block of 16 bytes; `hibit` is the `2 ^ 128` term of a full block. -/
def blockLimbs (m : List UByte) (hibit : Nat) : Limbs where
  l0 := loadLe m 0 &&& 0x03ffffff
  l1 := (loadLe m 0 >>> 26 ||| w32 (loadLe m 4 <<< 6)) &&& 0x03ffffff
  l2 := (loadLe m 4 >>> 20 ||| w32 (loadLe m 8 <<< 12)) &&& 0x03ffffff
  l3 := (loadLe m 8 >>> 14 ||| w32 (loadLe m 12 <<< 18)) &&& 0x03ffffff
  l4 := loadLe m 12 >>> 8 ||| hibit

/-- `h += m`. -/
def limbsAdd (h m : Limbs) : Limbs :=
  ⟨w32 (h.l0 + m.l0), w32 (h.l1 + m.l1), w32 (h.l2 + m.l2), w32 (h.l3 + m.l3), w32 (h.l4 + m.l4)⟩

/-- `d0` to `d4`, in 64 bits: the products of the limbs, with the factor 5 in the multiplier for
those that fall off the top. -/
def limbsMul (h r : Limbs) : Limbs :=
  let s1 := w32 (r.l1 * 5)
  let s2 := w32 (r.l2 * 5)
  let s3 := w32 (r.l3 * 5)
  let s4 := w32 (r.l4 * 5)
  ⟨w64 (h.l0 * r.l0 + h.l1 * s4 + h.l2 * s3 + h.l3 * s2 + h.l4 * s1),
    w64 (h.l0 * r.l1 + h.l1 * r.l0 + h.l2 * s4 + h.l3 * s3 + h.l4 * s2),
    w64 (h.l0 * r.l2 + h.l1 * r.l1 + h.l2 * r.l0 + h.l3 * s4 + h.l4 * s3),
    w64 (h.l0 * r.l3 + h.l1 * r.l2 + h.l2 * r.l1 + h.l3 * r.l0 + h.l4 * s4),
    w64 (h.l0 * r.l4 + h.l1 * r.l3 + h.l2 * r.l2 + h.l3 * r.l1 + h.l4 * r.l0)⟩

/-- The partial reduction: one carry through the limbs, and the last one folded round. -/
def limbsCarry (d : Limbs) : Limbs :=
  let c0 := w32 (d.l0 >>> 26)
  let d1 := w64 (d.l1 + c0)
  let c1 := w32 (d1 >>> 26)
  let d2 := w64 (d.l2 + c1)
  let c2 := w32 (d2 >>> 26)
  let d3 := w64 (d.l3 + c2)
  let c3 := w32 (d3 >>> 26)
  let d4 := w64 (d.l4 + c3)
  let c4 := w32 (d4 >>> 26)
  let h0 := w32 ((w32 d.l0 &&& 0x03ffffff) + w32 (c4 * 5))
  ⟨h0 &&& 0x03ffffff, w32 ((w32 d1 &&& 0x03ffffff) + h0 >>> 26), w32 d2 &&& 0x03ffffff,
    w32 d3 &&& 0x03ffffff, w32 d4 &&& 0x03ffffff⟩

/-- One round of `c68k_poly1305_blocks_c()`. -/
def polyBlock (r h : Limbs) (hibit : Nat) (m : List UByte) : Limbs :=
  limbsCarry (limbsMul (limbsAdd h (blockLimbs m hibit)) r)

/-- `c68k_poly1305_blocks_c()`. -/
def polyBlocks (r : Limbs) (hibit : Nat) : Limbs → Nat → List UByte → Limbs
  | h, 0, _ => h
  | h, k + 1, m => polyBlocks r hibit (polyBlock r h hibit m) k (m.drop 16)

/-- The whole blocks of an input, and the bytes after them, which are kept. -/
def polyUpdateBlocks (ctx : Poly1305) (h : Limbs) (input : List UByte) : Poly1305 where
  r := ctx.r
  h := polyBlocks ctx.r (1 <<< 24) h (input.length / 16) input
  pad := ctx.pad
  buffer := input.drop (input.length / 16 * 16)
  leftover_lt := by
    rw [List.length_drop]
    omega

/-- `c68k_poly1305_update()`. -/
def polyUpdate (ctx : Poly1305) (input : List UByte) : Poly1305 :=
  if ctx.buffer.length ≠ 0 then
    let want := min (16 - ctx.buffer.length) input.length
    if h : ctx.buffer.length + want < 16 then
      { ctx with
        buffer := ctx.buffer ++ input.take want
        leftover_lt := by
          rw [List.length_append, List.length_take]
          omega }
    else
      polyUpdateBlocks ctx (polyBlocks ctx.r (1 <<< 24) ctx.h 1 (ctx.buffer ++ input.take want))
        (input.drop want)
  else polyUpdateBlocks ctx ctx.h input

/-- The accumulator with the bytes that are left: they carry their own 1 byte. -/
def polyLast (ctx : Poly1305) : Limbs :=
  if ctx.buffer.length ≠ 0 then
    polyBlocks ctx.r 0 ctx.h 1
      (ctx.buffer ++ [1] ++ List.replicate (16 - (ctx.buffer.length + 1)) 0)
  else ctx.h

/-- The full carry of `c68k_poly1305_finish()`. -/
def limbsCarryFully (h : Limbs) : Limbs :=
  let h2 := w32 (h.l2 + h.l1 >>> 26)
  let h3 := w32 (h.l3 + h2 >>> 26)
  let h4 := w32 (h.l4 + h3 >>> 26)
  let h0 := w32 (h.l0 + w32 ((h4 >>> 26) * 5))
  ⟨h0 &&& 0x03ffffff, w32 ((h.l1 &&& 0x03ffffff) + h0 >>> 26), h2 &&& 0x03ffffff,
    h3 &&& 0x03ffffff, h4 &&& 0x03ffffff⟩

/-- `g = h + 5 - 2 ^ 130`, the borrow in the sign of its last limb. -/
def limbsPlusFive (h : Limbs) : Limbs :=
  let g0 := w32 (h.l0 + 5)
  let g1 := w32 (h.l1 + g0 >>> 26)
  let g2 := w32 (h.l2 + g1 >>> 26)
  let g3 := w32 (h.l3 + g2 >>> 26)
  ⟨g0 &&& 0x03ffffff, g1 &&& 0x03ffffff, g2 &&& 0x03ffffff, g3 &&& 0x03ffffff,
    sub32 (w32 (h.l4 + g3 >>> 26)) (1 <<< 26)⟩

/-- The branch-free choice between `h` and `g`. -/
def limbsSelect (h g : Limbs) : Limbs :=
  let mask := sub32 (g.l4 >>> 31) 1
  let other := 0xffffffff ^^^ mask
  ⟨h.l0 &&& other ||| g.l0 &&& mask, h.l1 &&& other ||| g.l1 &&& mask,
    h.l2 &&& other ||| g.l2 &&& mask, h.l3 &&& other ||| g.l3 &&& mask,
    h.l4 &&& other ||| g.l4 &&& mask⟩

/-- Five limbs packed into four 32-bit words. -/
def limbsPack (h : Limbs) : Nat × Nat × Nat × Nat :=
  (h.l0 ||| w32 (h.l1 <<< 26), h.l1 >>> 6 ||| w32 (h.l2 <<< 20),
    h.l2 >>> 12 ||| w32 (h.l3 <<< 14), h.l3 >>> 18 ||| w32 (h.l4 <<< 8))

/-- `tag = h + s`, with the carries in 64 bits. -/
def padAdd (h s : Nat × Nat × Nat × Nat) : List UByte :=
  let f0 := w64 (h.1 + s.1)
  let f1 := w64 (h.2.1 + s.2.1 + f0 >>> 32)
  let f2 := w64 (h.2.2.1 + s.2.2.1 + f1 >>> 32)
  let f3 := w64 (h.2.2.2 + s.2.2.2 + f2 >>> 32)
  storeLe (w32 f0) ++ storeLe (w32 f1) ++ storeLe (w32 f2) ++ storeLe (w32 f3)

/-- `c68k_poly1305_finish()`: the tag.  The context is wiped. -/
def polyFinish (ctx : Poly1305) : List UByte :=
  let h := limbsCarryFully (polyLast ctx)
  padAdd (limbsPack (limbsSelect h (limbsPlusFive h))) ctx.pad

/-! ### RFC 8439 -/

/-- The modulus `2 ^ 130 - 5`. -/
def polyPrime : Nat := 2 ^ 130 - 5

/-- The clamp of RFC 8439 section 2.5. -/
def clamp (r : Nat) : Nat := r &&& 0x0ffffffc0ffffffc0ffffffc0fffffff

/-- Block `i` of a message with its 1 byte, as a number. -/
def paddedBlock (m : List UByte) (i : Nat) : Nat :=
  LittleEndian.value ((m.drop (16 * i)).take 16 ++ [1])

/-- The accumulator after `k` blocks. -/
def polyAccumulate (r : Nat) (m : List UByte) : Nat → Nat
  | 0 => 0
  | k + 1 => (polyAccumulate r m k + paddedBlock m k) * r % polyPrime

/-- The tag of RFC 8439 section 2.5.1. -/
def poly1305 (key m : List UByte) : List UByte :=
  let r := clamp (LittleEndian.value (key.take 16))
  let s := LittleEndian.value ((key.drop 16).take 16)
  LittleEndian.bytes 16 ((polyAccumulate r m ((m.length + 15) / 16) + s) % 2 ^ 128)

/-! ### Words and limbs -/

/-- The number five limbs stand for. -/
def Limbs.val (a : Limbs) : Nat :=
  a.l0 + a.l1 * 2 ^ 26 + a.l2 * 2 ^ 52 + a.l3 * 2 ^ 78 + a.l4 * 2 ^ 104

theorem and_mask26 (x : Nat) : x &&& 0x03ffffff = x % 2 ^ 26 :=
  Nat.and_two_pow_sub_one_eq_mod x 26

theorem loadLe_eq (m : List UByte) (i : Nat) :
    loadLe m i = (m.getD i 0).toNat + (m.getD (i + 1) 0).toNat * 2 ^ 8 +
      (m.getD (i + 2) 0).toNat * 2 ^ 16 + (m.getD (i + 3) 0).toNat * 2 ^ 24 := by
  have h0 := (m.getD i 0).isLt
  have h1 := (m.getD (i + 1) 0).isLt
  have h2 := (m.getD (i + 2) 0).isLt
  rw [loadLe, or_shiftLeft h0, or_shiftLeft (k := 16) (by omega), or_shiftLeft (k := 24) (by omega)]

theorem loadLe_lt (m : List UByte) (i : Nat) : loadLe m i < 2 ^ 32 := by
  have h0 := (m.getD i 0).isLt
  have h1 := (m.getD (i + 1) 0).isLt
  have h2 := (m.getD (i + 2) 0).isLt
  have h3 := (m.getD (i + 3) 0).isLt
  rw [loadLe_eq]
  omega

/-- A word that lies inside a byte string. -/
theorem loadLe_eq_value {m : List UByte} {i : Nat} (h : i + 4 ≤ m.length) :
    loadLe m i = LittleEndian.value ((m.drop i).take 4) := by
  have hlen : 4 ≤ (m.drop i).length := by
    rw [List.length_drop]
    omega
  have hget (k : Nat) : m.getD (i + k) 0 = (m.drop i).getD k 0 := by
    simp [List.getD_eq_getElem?_getD, List.getElem?_drop]
  have h0 := hget 0
  rw [Nat.add_zero] at h0
  rw [loadLe_eq, h0, hget 1, hget 2, hget 3]
  match m.drop i, hlen with
  | b0 :: b1 :: b2 :: b3 :: bs, _ =>
    simp only [List.getD_cons_zero, List.getD_cons_succ, List.take_succ_cons, List.take_zero,
      LittleEndian.value_cons, LittleEndian.value_nil]
    omega

/-- Four words in a row. -/
theorem value_take_sixteen {m : List UByte} {i : Nat} (h : i + 16 ≤ m.length) :
    LittleEndian.value ((m.drop i).take 16) = loadLe m i + loadLe m (i + 4) * 2 ^ 32 +
      loadLe m (i + 8) * 2 ^ 64 + loadLe m (i + 12) * 2 ^ 96 := by
  have hlen : (m.drop i).length = m.length - i := List.length_drop
  rw [show 16 = 4 + (4 + (4 + 4)) from rfl, List.take_add, List.take_add, List.take_add]
  simp only [List.drop_drop, LittleEndian.value_append, List.length_take, List.length_drop]
  rw [loadLe_eq_value (by omega), loadLe_eq_value (by omega), loadLe_eq_value (by omega),
    loadLe_eq_value (by omega), Nat.min_eq_left (by omega), Nat.min_eq_left (by omega),
    Nat.min_eq_left (by omega)]
  rw [Nat.add_assoc i 4 4, Nat.add_assoc i (4 + 4) 4]
  ring

/-- The bits of two neighbouring words that make one limb. -/
theorem joinWords {a k : Nat} (ha : a < 2 ^ 32) (hk : k ≤ 26) (b : Nat) :
    (a >>> (32 - k) ||| w32 (b <<< k)) = a / 2 ^ (32 - k) + b % 2 ^ (32 - k) * 2 ^ k := by
  have hlt : a / 2 ^ (32 - k) < 2 ^ k := by
    rw [Nat.div_lt_iff_lt_mul (by positivity), ← pow_add, Nat.add_sub_cancel' (by omega)]
    exact ha
  rw [w32_shiftLeft (by omega), Nat.shiftRight_eq_div_pow, or_shiftLeft hlt]

/-- A block as limbs: its bytes, and the `2 ^ 128` term. -/
theorem blockLimbs_val {m : List UByte} (hm : 16 ≤ m.length) {hibit : Nat}
    (hb : hibit = 0 ∨ hibit = 1 <<< 24) :
    (blockLimbs m hibit).val = LittleEndian.value (m.take 16) + hibit * 2 ^ 104 := by
  have h0 := loadLe_lt m 0
  have h4 := loadLe_lt m 4
  have h8 := loadLe_lt m 8
  have h12 := loadLe_lt m 12
  have htop : loadLe m 12 >>> 8 ||| hibit = loadLe m 12 / 2 ^ 8 + hibit := by
    rcases hb with rfl | rfl
    · rw [Nat.or_zero, Nat.shiftRight_eq_div_pow, Nat.add_zero]
    · rw [or_shiftLeft (by rw [Nat.shiftRight_eq_div_pow]; omega), Nat.shiftRight_eq_div_pow]
      rfl
  have hval := value_take_sixteen (m := m) (i := 0) (by omega)
  simp only [List.drop_zero, Nat.zero_add] at hval
  simp only [Limbs.val, blockLimbs, hval, htop, and_mask26, joinWords (k := 6) h0 (by decide),
    joinWords (k := 12) h4 (by decide), joinWords (k := 18) h8 (by decide)]
  omega

/-- The limbs of a block are small. -/
theorem blockLimbs_lt (m : List UByte) {hibit : Nat} (hb : hibit ≤ 2 ^ 24) :
    (blockLimbs m hibit).l0 < 2 ^ 26 ∧ (blockLimbs m hibit).l1 < 2 ^ 26 ∧
      (blockLimbs m hibit).l2 < 2 ^ 26 ∧ (blockLimbs m hibit).l3 < 2 ^ 26 ∧
      (blockLimbs m hibit).l4 < 2 ^ 25 := by
  have h12 := loadLe_lt m 12
  have htop : loadLe m 12 >>> 8 ||| hibit < 2 ^ 25 := by
    refine Nat.or_lt_two_pow ?_ ?_
    · rw [Nat.shiftRight_eq_div_pow]
      omega
    · omega
  refine ⟨?_, ?_, ?_, ?_, htop⟩ <;>
  · simp only [blockLimbs, and_mask26]
    exact Nat.mod_lt _ (by decide)

/-! ### One block -/

/-- The clamped key: five limbs of at most 26 bits. -/
structure Limbs.Clamped (r : Limbs) : Prop where
  l0 : r.l0 < 2 ^ 26
  l1 : r.l1 < 2 ^ 26
  l2 : r.l2 < 2 ^ 26
  l3 : r.l3 < 2 ^ 26
  l4 : r.l4 < 2 ^ 26

/-- The accumulator between blocks: the second limb may keep a small carry. -/
structure Limbs.Partial (h : Limbs) : Prop where
  l0 : h.l0 < 2 ^ 26
  l1 : h.l1 < 2 ^ 26 + 2 ^ 6
  l2 : h.l2 < 2 ^ 26
  l3 : h.l3 < 2 ^ 26
  l4 : h.l4 < 2 ^ 26

/-- The accumulator with a block added. -/
structure Limbs.Wide (h : Limbs) : Prop where
  l0 : h.l0 < 2 ^ 27 + 2 ^ 6
  l1 : h.l1 < 2 ^ 27 + 2 ^ 6
  l2 : h.l2 < 2 ^ 27 + 2 ^ 6
  l3 : h.l3 < 2 ^ 27 + 2 ^ 6
  l4 : h.l4 < 2 ^ 27 + 2 ^ 6

/-- Limbs added as integers. -/
def limbsAddNat (h m : Limbs) : Limbs :=
  ⟨h.l0 + m.l0, h.l1 + m.l1, h.l2 + m.l2, h.l3 + m.l3, h.l4 + m.l4⟩

/-- The products of the limbs as integers. -/
def limbsMulNat (h r : Limbs) : Limbs :=
  ⟨h.l0 * r.l0 + h.l1 * (r.l4 * 5) + h.l2 * (r.l3 * 5) + h.l3 * (r.l2 * 5) + h.l4 * (r.l1 * 5),
    h.l0 * r.l1 + h.l1 * r.l0 + h.l2 * (r.l4 * 5) + h.l3 * (r.l3 * 5) + h.l4 * (r.l2 * 5),
    h.l0 * r.l2 + h.l1 * r.l1 + h.l2 * r.l0 + h.l3 * (r.l4 * 5) + h.l4 * (r.l3 * 5),
    h.l0 * r.l3 + h.l1 * r.l2 + h.l2 * r.l1 + h.l3 * r.l0 + h.l4 * (r.l4 * 5),
    h.l0 * r.l4 + h.l1 * r.l3 + h.l2 * r.l2 + h.l3 * r.l1 + h.l4 * r.l0⟩

theorem limbsAdd_eq {h : Limbs} (hh : h.Partial) (m : List UByte) {hibit : Nat}
    (hb : hibit ≤ 2 ^ 24) :
    limbsAdd h (blockLimbs m hibit) = limbsAddNat h (blockLimbs m hibit) ∧
      (limbsAddNat h (blockLimbs m hibit)).Wide := by
  obtain ⟨b0, b1, b2, b3, b4⟩ := blockLimbs_lt m hb
  obtain ⟨h0, h1, h2, h3, h4⟩ := hh
  constructor
  · simp only [limbsAdd, limbsAddNat]
    rw [w32_of_lt (by omega), w32_of_lt (by omega), w32_of_lt (by omega), w32_of_lt (by omega),
      w32_of_lt (by omega)]
  · constructor <;> simp only [limbsAddNat] <;> omega

/-- Five products of bounded factors. -/
theorem sum_mul_le {a0 a1 a2 a3 a4 b0 b1 b2 b3 b4 A B : Nat} (ha0 : a0 ≤ A) (ha1 : a1 ≤ A)
    (ha2 : a2 ≤ A) (ha3 : a3 ≤ A) (ha4 : a4 ≤ A) (hb0 : b0 ≤ B) (hb1 : b1 ≤ B) (hb2 : b2 ≤ B)
    (hb3 : b3 ≤ B) (hb4 : b4 ≤ B) :
    a0 * b0 + a1 * b1 + a2 * b2 + a3 * b3 + a4 * b4 ≤ 5 * (A * B) := by
  have h0 := Nat.mul_le_mul ha0 hb0
  have h1 := Nat.mul_le_mul ha1 hb1
  have h2 := Nat.mul_le_mul ha2 hb2
  have h3 := Nat.mul_le_mul ha3 hb3
  have h4 := Nat.mul_le_mul ha4 hb4
  omega

/-- The sums of products fit 58 bits, the last one, which has no factor 5, less. -/
theorem limbsMulNat_lt {h r : Limbs} (hh : h.Wide) (hr : r.Clamped) :
    (limbsMulNat h r).l0 < 2 ^ 58 - 2 ^ 32 ∧ (limbsMulNat h r).l1 < 2 ^ 58 - 2 ^ 32 ∧
      (limbsMulNat h r).l2 < 2 ^ 58 - 2 ^ 32 ∧ (limbsMulNat h r).l3 < 2 ^ 58 - 2 ^ 32 ∧
      (limbsMulNat h r).l4 < 2 ^ 55 + 2 ^ 54 - 2 ^ 32 := by
  obtain ⟨h0, h1, h2, h3, h4⟩ := hh
  obtain ⟨r0, r1, r2, r3, r4⟩ := hr
  have hwide (b0 b1 b2 b3 b4 : Nat) (hb0 : b0 ≤ 2 ^ 26 * 5) (hb1 : b1 ≤ 2 ^ 26 * 5)
      (hb2 : b2 ≤ 2 ^ 26 * 5) (hb3 : b3 ≤ 2 ^ 26 * 5) (hb4 : b4 ≤ 2 ^ 26 * 5) :
      h.l0 * b0 + h.l1 * b1 + h.l2 * b2 + h.l3 * b3 + h.l4 * b4 < 2 ^ 58 - 2 ^ 32 :=
    (sum_mul_le h0.le h1.le h2.le h3.le h4.le hb0 hb1 hb2 hb3 hb4).trans_lt (by decide)
  refine ⟨hwide _ _ _ _ _ ?_ ?_ ?_ ?_ ?_, hwide _ _ _ _ _ ?_ ?_ ?_ ?_ ?_,
    hwide _ _ _ _ _ ?_ ?_ ?_ ?_ ?_, hwide _ _ _ _ _ ?_ ?_ ?_ ?_ ?_, ?_⟩
  case refine_21 =>
    exact (sum_mul_le h0.le h1.le h2.le h3.le h4.le r4.le r3.le r2.le r1.le r0.le).trans_lt
      (by decide)
  all_goals omega

theorem limbsMul_eq {h r : Limbs} (hh : h.Wide) (hr : r.Clamped) :
    limbsMul h r = limbsMulNat h r := by
  obtain ⟨d0, d1, d2, d3, d4⟩ := limbsMulNat_lt hh hr
  obtain ⟨r0, r1, r2, r3, r4⟩ := hr
  simp only [limbsMulNat] at d0 d1 d2 d3 d4
  simp only [limbsMul, limbsMulNat, w32_of_lt (show r.l1 * 5 < 2 ^ 32 by omega),
    w32_of_lt (show r.l2 * 5 < 2 ^ 32 by omega), w32_of_lt (show r.l3 * 5 < 2 ^ 32 by omega),
    w32_of_lt (show r.l4 * 5 < 2 ^ 32 by omega)]
  rw [w64_of_lt (by omega), w64_of_lt (by omega), w64_of_lt (by omega), w64_of_lt (by omega),
    w64_of_lt (by omega)]

/-- The products of the limbs are the product, up to multiples of the prime. -/
theorem limbsMulNat_val (h r : Limbs) :
    ∃ q, h.val * r.val = (limbsMulNat h r).val + polyPrime * q := by
  refine ⟨h.l1 * r.l4 + h.l2 * r.l3 + h.l3 * r.l2 + h.l4 * r.l1 +
    (h.l2 * r.l4 + h.l3 * r.l3 + h.l4 * r.l2) * 2 ^ 26 + (h.l3 * r.l4 + h.l4 * r.l3) * 2 ^ 52 +
    h.l4 * r.l4 * 2 ^ 78, ?_⟩
  simp only [Limbs.val, limbsMulNat, polyPrime]
  ring

/-- The low 26 bits of a number that has been cut to 32 bits. -/
theorem mask26_w32 (x : Nat) : w32 x &&& 0x03ffffff = x % 2 ^ 26 := by
  rw [and_mask26, w32, Nat.mod_mod_of_dvd _ (pow_dvd_pow 2 (by decide))]

/-- Every number of the list fits the width beside it. -/
def Fit (l : List (Nat × Nat)) : Prop := ∀ t ∈ l, t.1 < 2 ^ t.2

theorem fit_append {l l' : List (Nat × Nat)} : Fit (l ++ l') ↔ Fit l ∧ Fit l' :=
  List.forall_mem_append

theorem fit_cons {t : Nat × Nat} {l : List (Nat × Nat)} : Fit (t :: l) ↔ t.1 < 2 ^ t.2 ∧ Fit l :=
  List.forall_mem_cons

theorem fit_nil : Fit [] := List.forall_mem_nil _

/-- The sums and carries of the partial reduction. -/
def carryTerms (d : Limbs) : List (Nat × Nat) :=
  let c0 := d.l0 / 2 ^ 26
  let c1 := (d.l1 + c0) / 2 ^ 26
  let c2 := (d.l2 + c1) / 2 ^ 26
  let c3 := (d.l3 + c2) / 2 ^ 26
  let c4 := (d.l4 + c3) / 2 ^ 26
  [(c0, 32), (d.l1 + c0, 64), (c1, 32), (d.l2 + c1, 64), (c2, 32), (d.l3 + c2, 64), (c3, 32),
    (d.l4 + c3, 64), (c4, 32), (c4 * 5, 32), (d.l0 % 2 ^ 26 + c4 * 5, 32),
    ((d.l1 + c0) % 2 ^ 26 + (d.l0 % 2 ^ 26 + c4 * 5) / 2 ^ 26, 32)]

theorem fit_carryTerms {d : Limbs} (d0 : d.l0 < 2 ^ 58 - 2 ^ 32) (d1 : d.l1 < 2 ^ 58 - 2 ^ 32)
    (d2 : d.l2 < 2 ^ 58 - 2 ^ 32) (d3 : d.l3 < 2 ^ 58 - 2 ^ 32)
    (d4 : d.l4 < 2 ^ 55 + 2 ^ 54 - 2 ^ 32) : Fit (carryTerms d) := by
  simp only [carryTerms, fit_cons, fit_nil, and_true]
  omega

/-- One carry through the limbs changes the number by a multiple of the prime. -/
theorem limbsCarry_spec {d : Limbs} (d0 : d.l0 < 2 ^ 58 - 2 ^ 32) (d1 : d.l1 < 2 ^ 58 - 2 ^ 32)
    (d2 : d.l2 < 2 ^ 58 - 2 ^ 32) (d3 : d.l3 < 2 ^ 58 - 2 ^ 32)
    (d4 : d.l4 < 2 ^ 55 + 2 ^ 54 - 2 ^ 32) :
    (limbsCarry d).Partial ∧ ∃ q, d.val = (limbsCarry d).val + polyPrime * q := by
  have hfit := fit_carryTerms d0 d1 d2 d3 d4
  simp only [carryTerms, fit_cons, fit_nil, and_true] at hfit
  -- the carries, as quotients
  generalize hc0 : d.l0 / 2 ^ 26 = c0 at hfit
  generalize hc1 : (d.l1 + c0) / 2 ^ 26 = c1 at hfit
  generalize hc2 : (d.l2 + c1) / 2 ^ 26 = c2 at hfit
  generalize hc3 : (d.l3 + c2) / 2 ^ 26 = c3 at hfit
  generalize hc4 : (d.l4 + c3) / 2 ^ 26 = c4 at hfit
  obtain ⟨f0, f1, f1', f2, f2', f3, f3', f4, f4', f5, f6, f7⟩ := hfit
  have hcarry : limbsCarry d =
      ⟨(d.l0 % 2 ^ 26 + c4 * 5) % 2 ^ 26,
        (d.l1 + c0) % 2 ^ 26 + (d.l0 % 2 ^ 26 + c4 * 5) / 2 ^ 26, (d.l2 + c1) % 2 ^ 26,
        (d.l3 + c2) % 2 ^ 26, (d.l4 + c3) % 2 ^ 26⟩ := by
    simp only [limbsCarry, Nat.shiftRight_eq_div_pow, mask26_w32]
    simp only [hc0, w32_of_lt f0, w64_of_lt f1, hc1, w32_of_lt f1', w64_of_lt f2, hc2,
      w32_of_lt f2', w64_of_lt f3, hc3, w32_of_lt f3', w64_of_lt f4, hc4, w32_of_lt f4',
      w32_of_lt f5, w32_of_lt f6, w32_of_lt f7]
  rw [hcarry]
  refine ⟨?_, c4, ?_⟩
  · constructor <;> dsimp only <;> omega
  · simp only [Limbs.val, polyPrime]
    omega

/-- **One block.** The accumulator stays partly carried, and modulo the prime the block is added
and the sum multiplied by the key. -/
theorem polyBlock_modEq {r h : Limbs} (hr : r.Clamped) (hh : h.Partial) {m : List UByte}
    (hm : 16 ≤ m.length) {hibit : Nat} (hb : hibit = 0 ∨ hibit = 1 <<< 24) :
    (polyBlock r h hibit m).Partial ∧
      (polyBlock r h hibit m).val ≡
        (h.val + (LittleEndian.value (m.take 16) + hibit * 2 ^ 104)) * r.val [MOD polyPrime] := by
  have hb' : hibit ≤ 2 ^ 24 := by
    rcases hb with rfl | rfl <;> decide
  obtain ⟨hadd, hwide⟩ := limbsAdd_eq hh m hb'
  obtain ⟨d0, d1, d2, d3, d4⟩ := limbsMulNat_lt hwide hr
  obtain ⟨hpart, q, hq⟩ := limbsCarry_spec d0 d1 d2 d3 d4
  obtain ⟨q', hq'⟩ := limbsMulNat_val (limbsAddNat h (blockLimbs m hibit)) r
  have hval : (limbsAddNat h (blockLimbs m hibit)).val =
      h.val + (LittleEndian.value (m.take 16) + hibit * 2 ^ 104) := by
    rw [← blockLimbs_val hm hb]
    simp only [Limbs.val, limbsAddNat]
    ring
  rw [polyBlock, hadd, limbsMul_eq hwide hr]
  refine ⟨hpart, ?_⟩
  rw [← hval, hq', hq]
  simp only [Nat.ModEq, Nat.add_mul_mod_self_left]

/-! ### Dividing a message -/

theorem loadLe_take {m : List UByte} {i n : Nat} (h : i + 4 ≤ n) :
    loadLe (m.take n) i = loadLe m i := by
  have hget {j : Nat} (hj : j < n) : (m.take n).getD j 0 = m.getD j 0 := by
    simp [List.getD_eq_getElem?_getD, List.getElem?_take_of_lt hj]
  rw [loadLe, loadLe, hget (by omega), hget (by omega), hget (by omega), hget (by omega)]

theorem polyBlock_take (r h : Limbs) (hibit : Nat) {m : List UByte} {n : Nat} (hn : 16 ≤ n) :
    polyBlock r h hibit (m.take n) = polyBlock r h hibit m := by
  rw [polyBlock, polyBlock, blockLimbs, blockLimbs, loadLe_take (by omega), loadLe_take (by omega),
    loadLe_take (by omega), loadLe_take (by omega)]

/-- Only the bytes of the blocks are read. -/
theorem polyBlocks_take (r : Limbs) (hibit : Nat) {k n : Nat} (h : Limbs) {m : List UByte}
    (hn : 16 * k ≤ n) : polyBlocks r hibit h k (m.take n) = polyBlocks r hibit h k m := by
  induction k generalizing h m n with
  | zero => rfl
  | succ k ih =>
    rw [polyBlocks, polyBlocks, polyBlock_take r h hibit (by omega), List.drop_take,
      ih _ (by omega)]

theorem polyBlocks_append_right (r : Limbs) (hibit : Nat) {k : Nat} (h : Limbs) {m : List UByte}
    (hk : 16 * k ≤ m.length) (x : List UByte) :
    polyBlocks r hibit h k (m ++ x) = polyBlocks r hibit h k m := by
  rw [← polyBlocks_take r hibit h hk, List.take_left]

theorem polyBlocks_add (r : Limbs) (hibit j k : Nat) (h : Limbs) (m : List UByte) :
    polyBlocks r hibit h (j + k) m =
      polyBlocks r hibit (polyBlocks r hibit h j m) k (m.drop (16 * j)) := by
  induction j generalizing h m with
  | zero => simp [polyBlocks]
  | succ j ih =>
    rw [Nat.succ_add, polyBlocks, ih, polyBlocks, List.drop_drop, Nat.mul_succ, Nat.add_comm 16]

theorem polyBlocks_succ (r : Limbs) (hibit k : Nat) (h : Limbs) (m : List UByte) :
    polyBlocks r hibit h (k + 1) m =
      polyBlock r (polyBlocks r hibit h k m) hibit (m.drop (16 * k)) := by
  rw [polyBlocks_add]
  rfl

/-- An update goes on where the message so far has ended. -/
theorem polyUpdate_polyUpdateBlocks (ctx : Poly1305) (h : Limbs) (m x : List UByte) :
    polyUpdate (polyUpdateBlocks ctx h m) x = polyUpdateBlocks ctx h (m ++ x) := by
  obtain ⟨k, hk⟩ : ∃ k, k = m.length / 16 := ⟨_, rfl⟩
  have hlen : (m.drop (k * 16)).length = m.length - k * 16 := List.length_drop
  have hbuf : (polyUpdateBlocks ctx h m).buffer = m.drop (k * 16) := by rw [hk]; rfl
  have hdrop (j : Nat) (hj : j ≤ m.length) : (m ++ x).drop j = m.drop j ++ x :=
    List.drop_append_of_le_length hj
  simp only [polyUpdate, hbuf, hlen]
  split_ifs with hne hlt
  · -- the bytes do not fill a block
    have hx : x.length < 16 - (m.length - k * 16) := by omega
    ext1
    · rfl
    · have hsame : (m ++ x).length / 16 = k := by
        rw [List.length_append]
        omega
      simp only [polyUpdateBlocks, hsame, ← hk]
      rw [polyBlocks_append_right _ _ _ (by omega)]
    · rfl
    · have hsame : (m ++ x).length / 16 = k := by
        rw [List.length_append]
        omega
      simp only [polyUpdateBlocks, hsame]
      rw [hdrop _ (by omega), Nat.min_eq_right (by omega), List.take_length]
  · -- they fill one, which is the next block of the message
    have hwant : min (16 - (m.length - k * 16)) x.length = 16 - (m.length - k * 16) := by omega
    have hx : 16 - (m.length - k * 16) ≤ x.length := by omega
    rw [hwant]
    have hblocks : (m ++ x).length / 16 =
        k + 1 + (x.drop (16 - (m.length - k * 16))).length / 16 := by
      rw [List.length_append, List.length_drop]
      omega
    have hblock : m.drop (k * 16) ++ x.take (16 - (m.length - k * 16)) =
        ((m ++ x).drop (k * 16)).take 16 := by
      have hall : (m.drop (k * 16)).take 16 = m.drop (k * 16) :=
        List.take_of_length_le (by omega)
      rw [hdrop _ (by omega), List.take_append, hall, hlen]
    have hrest (j : Nat) : (x.drop (16 - (m.length - k * 16))).drop j =
        (m ++ x).drop ((k + 1) * 16 + j) := by
      have hnil : m.drop ((k + 1) * 16 + j) = [] := List.drop_of_length_le (by omega)
      rw [List.drop_append, hnil, List.nil_append, List.drop_drop]
      congr 1
      omega
    ext1
    · rfl
    · simp only [polyUpdateBlocks, hblocks, ← hk]
      rw [polyBlocks_add _ _ (k + 1), polyBlocks_add _ _ k 1, hblock,
        polyBlocks_take _ _ _ (by omega), Nat.mul_comm k 16]
      congr 1
      · rw [← Nat.mul_comm k 16]
        congr 1
        exact (polyBlocks_append_right _ _ _ (by omega) x).symm
      · have := hrest 0
        rwa [List.drop_zero, Nat.add_zero, Nat.mul_comm k, Nat.mul_comm (k + 1)] at this
    · rfl
    · simp only [polyUpdateBlocks, hblocks]
      rw [hrest, Nat.add_mul (k + 1)]
  · -- nothing was kept
    have hm : m.length = k * 16 := by omega
    have hblocks : (m ++ x).length / 16 = k + x.length / 16 := by
      rw [List.length_append]
      omega
    ext1
    · rfl
    · simp only [polyUpdateBlocks, hblocks, ← hk]
      rw [polyBlocks_add, polyBlocks_append_right _ _ _ (by omega), ← Nat.mul_comm k, ← hm,
        List.drop_left]
    · rfl
    · simp only [polyUpdateBlocks, hblocks]
      have hnil : m.drop (m.length + x.length / 16 * 16) = [] := List.drop_of_length_le (by omega)
      rw [Nat.add_mul, ← hm, List.drop_append, hnil, List.nil_append]
      congr 1
      omega

theorem polyInitialize_h (key : List UByte) : (polyInitialize key).h = ⟨0, 0, 0, 0, 0⟩ := rfl

/-- **The division of a message does not matter.** -/
theorem update_foldl (ctx : Poly1305) (hctx : ctx.buffer = []) (chunks : List (List UByte)) :
    chunks.foldl polyUpdate ctx = polyUpdateBlocks ctx ctx.h chunks.flatten := by
  suffices hgen : ∀ m, chunks.foldl polyUpdate (polyUpdateBlocks ctx ctx.h m) =
      polyUpdateBlocks ctx ctx.h (m ++ chunks.flatten) by
    have hnil : polyUpdateBlocks ctx ctx.h [] = ctx := by
      ext1
      · rfl
      · rfl
      · rfl
      · exact hctx.symm
    simpa [hnil] using hgen []
  induction chunks with
  | nil => simp
  | cons c cs ih =>
    intro m
    rw [List.foldl_cons, polyUpdate_polyUpdateBlocks, ih, List.flatten_cons, List.append_assoc]

/-! ### The accumulator of a message -/

/-- The accumulator after some blocks of a message, by the code and by RFC 8439. -/
theorem polyBlocks_modEq {r : Limbs} (hr : r.Clamped) (m : List UByte) {k : Nat}
    (hk : 16 * k ≤ m.length) :
    (polyBlocks r (1 <<< 24) ⟨0, 0, 0, 0, 0⟩ k m).Partial ∧
      (polyBlocks r (1 <<< 24) ⟨0, 0, 0, 0, 0⟩ k m).val ≡ polyAccumulate r.val m k
        [MOD polyPrime] := by
  induction k with
  | zero =>
    simp only [polyBlocks, polyAccumulate, Limbs.val, Nat.zero_mul, Nat.add_zero]
    exact ⟨by constructor <;> decide, Nat.ModEq.refl 0⟩
  | succ k ih =>
    obtain ⟨hpart, hmod⟩ := ih (by omega)
    have hlen : 16 ≤ (m.drop (16 * k)).length := by
      rw [List.length_drop]
      omega
    obtain ⟨hpart', hmod'⟩ := polyBlock_modEq hr hpart hlen (.inr rfl)
    rw [polyBlocks_succ]
    refine ⟨hpart', hmod'.trans ?_⟩
    have hpad : LittleEndian.value ((m.drop (16 * k)).take 16) + 1 <<< 24 * 2 ^ 104 =
        paddedBlock m k := by
      rw [paddedBlock, LittleEndian.value_append, List.length_take, Nat.min_eq_left hlen]
      rfl
    rw [hpad, polyAccumulate]
    exact ((hmod.add_right _).mul_right _).trans (Nat.mod_modEq _ _).symm

/-- The accumulator of a whole message. -/
theorem polyLast_modEq (ctx : Poly1305) (hr : ctx.r.Clamped) (m : List UByte) :
    (polyLast (polyUpdateBlocks ctx ⟨0, 0, 0, 0, 0⟩ m)).Partial ∧
      (polyLast (polyUpdateBlocks ctx ⟨0, 0, 0, 0, 0⟩ m)).val ≡
        polyAccumulate ctx.r.val m ((m.length + 15) / 16) [MOD polyPrime] := by
  obtain ⟨k, hk⟩ : ∃ k, k = m.length / 16 := ⟨_, rfl⟩
  obtain ⟨hpart, hmod⟩ := polyBlocks_modEq hr m (k := k) (by omega)
  have hlen : (m.drop (k * 16)).length = m.length - k * 16 := List.length_drop
  simp only [polyLast, polyUpdateBlocks, ← hk, hlen]
  split_ifs with hne
  · -- the bytes that are left, with their own 1 byte
    have hblock : (m.drop (k * 16) ++ [1] ++
        List.replicate (16 - (m.length - k * 16 + 1)) 0).length = 16 := by
      rw [List.length_append, List.length_append, hlen, List.length_replicate,
        List.length_singleton]
      omega
    obtain ⟨hpart', hmod'⟩ := polyBlock_modEq hr hpart hblock.ge (.inl rfl)
    refine ⟨hpart', hmod'.trans ?_⟩
    have hcount : (m.length + 15) / 16 = k + 1 := by omega
    have htake : (m.drop (k * 16)).take 16 = m.drop (k * 16) :=
      List.take_of_length_le (by omega)
    have hpad : LittleEndian.value ((m.drop (k * 16) ++ [1] ++
        List.replicate (16 - (m.length - k * 16 + 1)) 0).take 16) + 0 * 2 ^ 104 =
        paddedBlock m k := by
      rw [List.take_of_length_le hblock.le, LittleEndian.value_append, paddedBlock,
        Nat.mul_comm 16 k, htake]
      simp
    rw [hpad, hcount, polyAccumulate]
    exact ((hmod.add_right _).mul_right _).trans (Nat.mod_modEq _ _).symm
  · have hcount : (m.length + 15) / 16 = k := by omega
    rw [hcount]
    exact ⟨hpart, hmod⟩

/-- A mask of few bits sees the low bits only. -/
theorem and_eq_mod_and {x k n : Nat} (h : k < 2 ^ n) : x &&& k = x % 2 ^ n &&& k := by
  have hlt : x &&& k < 2 ^ n := Nat.and_le_right.trans_lt h
  rw [← Nat.mod_eq_of_lt hlt, Nat.and_mod_two_pow, Nat.mod_eq_of_lt h]

/-- The mask of RFC 8439, limb by limb. -/
theorem clamp_eq (x : Nat) :
    clamp x = (x % 2 ^ 26 &&& 0x03ffffff) + (x / 2 ^ 26 % 2 ^ 26 &&& 0x03ffff03) * 2 ^ 26 +
      (x / 2 ^ 52 % 2 ^ 26 &&& 0x03ffc0ff) * 2 ^ 52 +
      (x / 2 ^ 78 % 2 ^ 26 &&& 0x03f03fff) * 2 ^ 78 +
      (x / 2 ^ 104 &&& 0x000fffff) * 2 ^ 104 := by
  rw [clamp, and_split _ _ 26, and_split (_ / 2 ^ 26) _ 26, and_split (_ / 2 ^ 26 / 2 ^ 26) _ 26,
    and_split (_ / 2 ^ 26 / 2 ^ 26 / 2 ^ 26) _ 26]
  simp only [Nat.div_div_eq_div_mul, Nat.reducePow, Nat.reduceMul, Nat.reduceMod, Nat.reduceDiv]
  ring

/-- The clamped key in limbs. -/
theorem polyInitialize_r {key : List UByte} (h : 32 ≤ key.length) :
    (polyInitialize key).r.Clamped ∧
      (polyInitialize key).r.val = clamp (LittleEndian.value (key.take 16)) := by
  have h0 := loadLe_lt key 0
  have h4 := loadLe_lt key 4
  have h8 := loadLe_lt key 8
  have h12 := loadLe_lt key 12
  have hval := value_take_sixteen (m := key) (i := 0) (by omega)
  simp only [List.drop_zero, Nat.zero_add] at hval
  have hle {x y : Nat} (hy : y < 2 ^ 26) : x &&& y < 2 ^ 26 := Nat.and_le_right.trans_lt hy
  constructor
  · constructor <;> simp only [polyInitialize] <;> exact hle (by decide)
  · -- the words of the key, cut into limbs before the masks
    obtain ⟨x, hx⟩ : ∃ x, x = LittleEndian.value (key.take 16) := ⟨_, rfl⟩
    rw [← hx] at hval ⊢
    have e0 : x % 2 ^ 26 = loadLe key 0 % 2 ^ 26 := by omega
    have e1 : x / 2 ^ 26 % 2 ^ 26 =
        (loadLe key 0 / 2 ^ 26 + loadLe key 4 % 2 ^ 26 * 2 ^ 6) % 2 ^ 26 := by omega
    have e2 : x / 2 ^ 52 % 2 ^ 26 =
        (loadLe key 4 / 2 ^ 20 + loadLe key 8 % 2 ^ 20 * 2 ^ 12) % 2 ^ 26 := by omega
    have e3 : x / 2 ^ 78 % 2 ^ 26 =
        (loadLe key 8 / 2 ^ 14 + loadLe key 12 % 2 ^ 14 * 2 ^ 18) % 2 ^ 26 := by omega
    have e4 : x / 2 ^ 104 = loadLe key 12 / 2 ^ 8 := by omega
    rw [clamp_eq, e0, e1, e2, e3, e4]
    simp only [Limbs.val, polyInitialize, joinWords (k := 6) h0 (by decide),
      joinWords (k := 12) h4 (by decide), joinWords (k := 18) h8 (by decide)]
    rw [Nat.shiftRight_eq_div_pow, and_eq_mod_and (k := 0x03ffffff) (n := 26) (by decide),
      and_eq_mod_and (k := 0x03ffff03) (n := 26) (by decide),
      and_eq_mod_and (k := 0x03ffc0ff) (n := 26) (by decide),
      and_eq_mod_and (k := 0x03f03fff) (n := 26) (by decide)]

/-! ### The end -/

/-- Every limb within its 26 bits. -/
structure Limbs.Full (h : Limbs) : Prop where
  l0 : h.l0 < 2 ^ 26
  l1 : h.l1 < 2 ^ 26
  l2 : h.l2 < 2 ^ 26
  l3 : h.l3 < 2 ^ 26
  l4 : h.l4 < 2 ^ 26

/-- The sums of the carry of the end. -/
def carryFullyTerms (h : Limbs) : List (Nat × Nat) :=
  let c1 := h.l1 / 2 ^ 26
  let c2 := (h.l2 + c1) / 2 ^ 26
  let c3 := (h.l3 + c2) / 2 ^ 26
  let c4 := (h.l4 + c3) / 2 ^ 26
  [(h.l2 + c1, 32), (h.l3 + c2, 32), (h.l4 + c3, 32), (c4 * 5, 32), (h.l0 + c4 * 5, 32),
    (h.l1 % 2 ^ 26 + (h.l0 + c4 * 5) / 2 ^ 26, 32)]

theorem fit_carryFullyTerms {h : Limbs} (hh : h.Partial) : Fit (carryFullyTerms h) := by
  obtain ⟨h0, h1, h2, h3, h4⟩ := hh
  simp only [carryFullyTerms, fit_cons, fit_nil, and_true]
  omega

/-- The carry of the end leaves full limbs: only a second limb that was too large carries out of
the fifth, and then it is small itself. -/
theorem limbsCarryFully_spec {h : Limbs} (hh : h.Partial) :
    (limbsCarryFully h).Full ∧ ∃ q, h.val = (limbsCarryFully h).val + polyPrime * q := by
  have hfit := fit_carryFullyTerms hh
  obtain ⟨h0, h1, h2, h3, h4⟩ := hh
  simp only [carryFullyTerms, fit_cons, fit_nil, and_true] at hfit
  generalize hc1 : h.l1 / 2 ^ 26 = c1 at hfit
  generalize hc2 : (h.l2 + c1) / 2 ^ 26 = c2 at hfit
  generalize hc3 : (h.l3 + c2) / 2 ^ 26 = c3 at hfit
  generalize hc4 : (h.l4 + c3) / 2 ^ 26 = c4 at hfit
  have hcarry : limbsCarryFully h =
      ⟨(h.l0 + c4 * 5) % 2 ^ 26, h.l1 % 2 ^ 26 + (h.l0 + c4 * 5) / 2 ^ 26, (h.l2 + c1) % 2 ^ 26,
        (h.l3 + c2) % 2 ^ 26, (h.l4 + c3) % 2 ^ 26⟩ := by
    obtain ⟨f2, f3, f4, f5, f0, f1⟩ := hfit
    simp only [limbsCarryFully, Nat.shiftRight_eq_div_pow, and_mask26, hc1, w32_of_lt f2, hc2,
      w32_of_lt f3, hc3, w32_of_lt f4, hc4, w32_of_lt f5, w32_of_lt f0, w32_of_lt f1]
  clear hfit
  rw [hcarry]
  refine ⟨?_, c4, ?_⟩
  · constructor <;> dsimp only <;> omega
  · simp only [Limbs.val, polyPrime]
    omega

theorem Limbs.Full.val_lt {h : Limbs} (hh : h.Full) : h.val < 2 ^ 130 := by
  obtain ⟨h0, h1, h2, h3, h4⟩ := hh
  simp only [Limbs.val]
  omega

/-- The sums of `g = h + 5`. -/
def plusFiveTerms (h : Limbs) : List (Nat × Nat) :=
  let c0 := (h.l0 + 5) / 2 ^ 26
  let c1 := (h.l1 + c0) / 2 ^ 26
  let c2 := (h.l2 + c1) / 2 ^ 26
  let c3 := (h.l3 + c2) / 2 ^ 26
  [(h.l0 + 5, 32), (h.l1 + c0, 32), (h.l2 + c1, 32), (h.l3 + c2, 32), (h.l4 + c3, 32)]

theorem fit_plusFiveTerms {h : Limbs} (hh : h.Full) : Fit (plusFiveTerms h) := by
  obtain ⟨h0, h1, h2, h3, h4⟩ := hh
  simp only [plusFiveTerms, fit_cons, fit_nil, and_true]
  omega

/-- `g` is `h + 5`, with `2 ^ 130` taken off when it is there, and otherwise the sign bit set. -/
theorem limbsPlusFive_spec {h : Limbs} (hh : h.Full) :
    (polyPrime ≤ h.val → (limbsPlusFive h).l4 = 0 ∧
      (limbsPlusFive h).Full ∧ (limbsPlusFive h).val + polyPrime = h.val) ∧
    (h.val < polyPrime → 2 ^ 31 ≤ (limbsPlusFive h).l4 ∧ (limbsPlusFive h).l4 < 2 ^ 32) := by
  have hfit := fit_plusFiveTerms hh
  obtain ⟨h0, h1, h2, h3, h4⟩ := hh
  simp only [plusFiveTerms, fit_cons, fit_nil, and_true] at hfit
  generalize hc0 : (h.l0 + 5) / 2 ^ 26 = c0 at hfit
  generalize hc1 : (h.l1 + c0) / 2 ^ 26 = c1 at hfit
  generalize hc2 : (h.l2 + c1) / 2 ^ 26 = c2 at hfit
  generalize hc3 : (h.l3 + c2) / 2 ^ 26 = c3 at hfit
  obtain ⟨f0, f1, f2, f3, f4⟩ := hfit
  have hg : limbsPlusFive h = ⟨(h.l0 + 5) % 2 ^ 26, (h.l1 + c0) % 2 ^ 26, (h.l2 + c1) % 2 ^ 26,
      (h.l3 + c2) % 2 ^ 26, (h.l4 + c3 + 2 ^ 32 - 2 ^ 26) % 2 ^ 32⟩ := by
    simp only [limbsPlusFive, Nat.shiftRight_eq_div_pow, and_mask26, sub32, Nat.one_shiftLeft,
      w32_of_lt f0, hc0, w32_of_lt f1, hc1, w32_of_lt f2, hc2, w32_of_lt f3, hc3, w32_of_lt f4]
  rw [hg]
  constructor
  · intro hle
    simp only [Limbs.val, polyPrime] at hle
    have hl4 : (h.l4 + c3 + 2 ^ 32 - 2 ^ 26) % 2 ^ 32 = 0 := by omega
    refine ⟨hl4, ?_, ?_⟩
    · constructor <;> dsimp only <;> omega
    · simp only [Limbs.val, polyPrime]
      omega
  · intro hlt
    simp only [Limbs.val, polyPrime] at hlt
    constructor
    · dsimp only
      omega
    · dsimp only
      omega

theorem and_ones {x : Nat} (h : x < 2 ^ 26) : x &&& 0xffffffff = x := by
  rw [Nat.and_two_pow_sub_one_eq_mod x 32, Nat.mod_eq_of_lt (h.trans (by decide))]

/-- **The last reduction.** What is chosen is the number modulo the prime, in full limbs. -/
theorem limbsSelect_spec {h : Limbs} (hh : h.Full) :
    (limbsSelect h (limbsPlusFive h)).Full ∧
      (limbsSelect h (limbsPlusFive h)).val = h.val % polyPrime := by
  obtain ⟨hge, hlt⟩ := limbsPlusFive_spec hh
  rcases Nat.lt_or_ge h.val polyPrime with hval | hval
  · have hmask : sub32 ((limbsPlusFive h).l4 >>> 31) 1 = 0 := by
      have hg := hlt hval
      rw [Nat.shiftRight_eq_div_pow, sub32]
      omega
    have hsel : limbsSelect h (limbsPlusFive h) = h := by
      simp only [limbsSelect, hmask, Nat.and_zero, Nat.xor_zero, Nat.or_zero, and_ones hh.l0,
        and_ones hh.l1, and_ones hh.l2, and_ones hh.l3, and_ones hh.l4]
    rw [hsel, Nat.mod_eq_of_lt hval]
    exact ⟨hh, rfl⟩
  · obtain ⟨hl4, hg, hsum⟩ := hge hval
    have hmask : sub32 ((limbsPlusFive h).l4 >>> 31) 1 = 0xffffffff := by
      rw [hl4]
      decide
    have hsel : limbsSelect h (limbsPlusFive h) = limbsPlusFive h := by
      simp only [limbsSelect, hmask, Nat.xor_self, Nat.and_zero, Nat.zero_or, and_ones hg.l0,
        and_ones hg.l1, and_ones hg.l2, and_ones hg.l3, and_ones hg.l4]
    have hlt' : (limbsPlusFive h).val < polyPrime := by
      have := hh.val_lt
      simp only [polyPrime] at hsum ⊢
      omega
    rw [hsel, ← hsum, Nat.add_mod_right, Nat.mod_eq_of_lt hlt']
    exact ⟨hg, rfl⟩

/-- The number four 32-bit words stand for. -/
def wordsVal (w : Nat × Nat × Nat × Nat) : Nat :=
  w.1 + w.2.1 * 2 ^ 32 + w.2.2.1 * 2 ^ 64 + w.2.2.2 * 2 ^ 96

/-- Four numbers that are 32-bit words. -/
def WordsLt (w : Nat × Nat × Nat × Nat) : Prop :=
  w.1 < 2 ^ 32 ∧ w.2.1 < 2 ^ 32 ∧ w.2.2.1 < 2 ^ 32 ∧ w.2.2.2 < 2 ^ 32

/-- The packing loses no bit below `2 ^ 128`. -/
theorem limbsPack_spec {h : Limbs} (hh : h.Full) :
    WordsLt (limbsPack h) ∧ wordsVal (limbsPack h) = h.val % 2 ^ 128 := by
  obtain ⟨h0, h1, h2, h3, h4⟩ := hh
  have hp : limbsPack h = (h.l0 + h.l1 % 2 ^ 6 * 2 ^ 26, h.l1 / 2 ^ 6 + h.l2 % 2 ^ 12 * 2 ^ 20,
      h.l2 / 2 ^ 12 + h.l3 % 2 ^ 18 * 2 ^ 14, h.l3 / 2 ^ 18 + h.l4 % 2 ^ 24 * 2 ^ 8) := by
    simp only [limbsPack, w32_shiftLeft (show 26 ≤ 32 by decide),
      w32_shiftLeft (show 20 ≤ 32 by decide), w32_shiftLeft (show 14 ≤ 32 by decide),
      w32_shiftLeft (show 8 ≤ 32 by decide), Nat.shiftRight_eq_div_pow]
    rw [or_shiftLeft h0, or_shiftLeft (by omega), or_shiftLeft (by omega), or_shiftLeft (by omega)]
  rw [hp]
  constructor
  · simp only [WordsLt]
    omega
  · simp only [wordsVal, Limbs.val]
    omega

theorem storeLe_eq (v : Nat) : storeLe v = LittleEndian.bytes 4 v := by
  simp only [storeLe, LittleEndian.bytes, Nat.shiftRight_eq_div_pow, Nat.div_div_eq_div_mul,
    Nat.reducePow, Nat.reduceMul]

theorem bytes_w32 (v : Nat) : LittleEndian.bytes 4 (w32 v) = LittleEndian.bytes 4 v :=
  LittleEndian.bytes_mod 4 v

/-- The sums of `tag = h + s`. -/
def padTerms (h s : Nat × Nat × Nat × Nat) : List (Nat × Nat) :=
  let f0 := h.1 + s.1
  let f1 := h.2.1 + s.2.1 + f0 / 2 ^ 32
  let f2 := h.2.2.1 + s.2.2.1 + f1 / 2 ^ 32
  [(f0, 64), (f1, 64), (f2, 64), (h.2.2.2 + s.2.2.2 + f2 / 2 ^ 32, 64)]

theorem fit_padTerms {h s : Nat × Nat × Nat × Nat} (hh : WordsLt h) (hs : WordsLt s) :
    Fit (padTerms h s) := by
  obtain ⟨h0, h1, h2, h3⟩ := hh
  obtain ⟨s0, s1, s2, s3⟩ := hs
  simp only [padTerms, fit_cons, fit_nil, and_true]
  omega

/-- The last addition, word by word. -/
theorem padAdd_eq {h s : Nat × Nat × Nat × Nat} (hh : WordsLt h) (hs : WordsLt s) :
    padAdd h s = LittleEndian.bytes 16 ((wordsVal h + wordsVal s) % 2 ^ 128) := by
  have hfit := fit_padTerms hh hs
  simp only [padTerms, fit_cons, fit_nil, and_true] at hfit
  obtain ⟨n, hn⟩ : ∃ n, n = wordsVal h + wordsVal s := ⟨_, rfl⟩
  have hn' := hn
  simp only [wordsVal] at hn'
  generalize hf0 : h.1 + s.1 = f0 at hfit
  generalize hf1 : h.2.1 + s.2.1 + f0 / 2 ^ 32 = f1 at hfit
  generalize hf2 : h.2.2.1 + s.2.2.1 + f1 / 2 ^ 32 = f2 at hfit
  generalize hf3 : h.2.2.2 + s.2.2.2 + f2 / 2 ^ 32 = f3 at hfit
  obtain ⟨e0, e1, e2, e3⟩ := hfit
  have hpad : padAdd h s = LittleEndian.bytes 4 f0 ++ LittleEndian.bytes 4 f1 ++
      LittleEndian.bytes 4 f2 ++ LittleEndian.bytes 4 f3 := by
    simp only [padAdd, Nat.shiftRight_eq_div_pow, hf0, w64_of_lt e0, hf1, w64_of_lt e1, hf2,
      w64_of_lt e2, hf3, w64_of_lt e3, storeLe_eq, bytes_w32]
  have hcongr {a b : Nat} (hab : a % 256 ^ 4 = b % 256 ^ 4) :
      LittleEndian.bytes 4 a = LittleEndian.bytes 4 b := by
    rw [← LittleEndian.bytes_mod, hab, LittleEndian.bytes_mod]
  rw [hpad, ← hn, show 2 ^ 128 = 256 ^ 16 from rfl, LittleEndian.bytes_mod,
    show 16 = 4 + 4 + 4 + 4 from rfl, LittleEndian.bytes_append, LittleEndian.bytes_append,
    LittleEndian.bytes_append, hcongr (a := f0) (b := n) (by omega),
    hcongr (a := f1) (b := n / 256 ^ 4) (by omega),
    hcongr (a := f2) (b := n / 256 ^ (4 + 4)) (by omega),
    hcongr (a := f3) (b := n / 256 ^ (4 + 4 + 4)) (by omega)]

/-! ### What is computed on the way -/

/-- The products that make `d0` to `d4`. -/
def productRows (h r : Limbs) : List (List Nat) :=
  [[h.l0 * r.l0, h.l1 * (r.l4 * 5), h.l2 * (r.l3 * 5), h.l3 * (r.l2 * 5), h.l4 * (r.l1 * 5)],
    [h.l0 * r.l1, h.l1 * r.l0, h.l2 * (r.l4 * 5), h.l3 * (r.l3 * 5), h.l4 * (r.l2 * 5)],
    [h.l0 * r.l2, h.l1 * r.l1, h.l2 * r.l0, h.l3 * (r.l4 * 5), h.l4 * (r.l3 * 5)],
    [h.l0 * r.l3, h.l1 * r.l2, h.l2 * r.l1, h.l3 * r.l0, h.l4 * (r.l4 * 5)],
    [h.l0 * r.l4, h.l1 * r.l3, h.l2 * r.l2, h.l3 * r.l1, h.l4 * r.l0]]

/-- Every product and sum of one block as an integer, with the width of the type that holds it. -/
def blockTerms (r h : Limbs) (m : List UByte) (hibit : Nat) : List (Nat × Nat) :=
  let a := limbsAddNat h (blockLimbs m hibit)
  [(r.l1 * 5, 32), (r.l2 * 5, 32), (r.l3 * 5, 32), (r.l4 * 5, 32), (a.l0, 32), (a.l1, 32),
    (a.l2, 32), (a.l3, 32), (a.l4, 32)] ++
  (productRows a r).flatMap (fun row ↦ row.map (·, 64) ++ row.inits.map (·.sum, 64)) ++
  carryTerms (limbsMulNat a r)

/-- Every sum of `c68k_poly1305_finish()` from its accumulator on. -/
def finishTerms (h : Limbs) (pad : Nat × Nat × Nat × Nat) : List (Nat × Nat) :=
  let full := limbsCarryFully h
  carryFullyTerms h ++ plusFiveTerms full ++
    padTerms (limbsPack (limbsSelect full (limbsPlusFive full))) pad

/-- The members of a sum and its partial sums fit when the sum does. -/
theorem fit_row {row : List Nat} {w : Nat} (h : row.sum < 2 ^ w) :
    Fit (row.map (·, w) ++ row.inits.map (·.sum, w)) := by
  rw [fit_append]
  constructor
  · intro t ht
    obtain ⟨x, hx, rfl⟩ := List.mem_map.mp ht
    exact (List.single_le_sum (fun _ _ ↦ Nat.zero_le _) x hx).trans_lt h
  · intro t ht
    obtain ⟨l, hl, rfl⟩ := List.mem_map.mp ht
    have hle := ((List.mem_inits _ _).mp hl).sublist.sum_le_sum fun _ _ ↦ Nat.zero_le _
    exact hle.trans_lt h

/-- **No overflow in a block.** -/
theorem fit_blockTerms {r h : Limbs} (hr : r.Clamped) (hh : h.Partial) (m : List UByte)
    {hibit : Nat} (hb : hibit ≤ 2 ^ 24) : Fit (blockTerms r h m hibit) := by
  obtain ⟨-, hwide⟩ := limbsAdd_eq hh m hb
  obtain ⟨d0, d1, d2, d3, d4⟩ := limbsMulNat_lt hwide hr
  have hcarry := fit_carryTerms d0 d1 d2 d3 d4
  obtain ⟨r0, r1, r2, r3, r4⟩ := hr
  obtain ⟨a0, a1, a2, a3, a4⟩ := hwide
  simp only [blockTerms, fit_append]
  refine ⟨⟨?_, ?_⟩, hcarry⟩
  · simp only [fit_cons, fit_nil, and_true]
    omega
  · simp only [limbsMulNat] at d0 d1 d2 d3 d4
    simp only [productRows, List.flatMap_cons, List.flatMap_nil, List.append_nil]
    refine fit_append.mpr ⟨fit_row ?_, fit_append.mpr ⟨fit_row ?_, fit_append.mpr ⟨fit_row ?_,
      fit_append.mpr ⟨fit_row ?_, fit_row ?_⟩⟩⟩⟩ <;>
    · simp only [List.sum_cons, List.sum_nil]
      omega

/-- **No overflow at the end.** -/
theorem fit_finishTerms {h : Limbs} (hh : h.Partial) {pad : Nat × Nat × Nat × Nat}
    (hpad : WordsLt pad) : Fit (finishTerms h pad) := by
  obtain ⟨hfull, -⟩ := limbsCarryFully_spec hh
  obtain ⟨hwords, -⟩ := limbsPack_spec (limbsSelect_spec hfull).1
  simp only [finishTerms, fit_append]
  exact ⟨⟨fit_carryFullyTerms hh, fit_plusFiveTerms hfull⟩, fit_padTerms hwords hpad⟩

/-! ### The tag -/

theorem wordsVal_pad {key : List UByte} (h : 32 ≤ key.length) :
    WordsLt (polyInitialize key).pad ∧
      wordsVal (polyInitialize key).pad = LittleEndian.value ((key.drop 16).take 16) := by
  refine ⟨⟨loadLe_lt .., loadLe_lt .., loadLe_lt .., loadLe_lt ..⟩, ?_⟩
  rw [value_take_sixteen (by omega)]
  rfl

/-- **The tag from the accumulator.** -/
theorem polyFinish_of_modEq {ctx : Poly1305} (hpart : (polyLast ctx).Partial) {a s : Nat}
    (ha : (polyLast ctx).val ≡ a [MOD polyPrime]) (ha' : a < polyPrime) (hpad : WordsLt ctx.pad)
    (hs : wordsVal ctx.pad = s) :
    polyFinish ctx = LittleEndian.bytes 16 ((a + s) % 2 ^ 128) := by
  obtain ⟨hfull, q, hq⟩ := limbsCarryFully_spec hpart
  obtain ⟨hsel, hval⟩ := limbsSelect_spec hfull
  obtain ⟨hwords, hpack⟩ := limbsPack_spec hsel
  have hred : (limbsCarryFully (polyLast ctx)).val % polyPrime = a := by
    rw [hq] at ha
    rw [← Nat.mod_eq_of_lt ha', ← ha, Nat.add_mul_mod_self_left]
  rw [polyFinish, padAdd_eq hwords hpad, hpack, hval, hred, hs, Nat.mod_add_mod]

theorem polyAccumulate_lt (r : Nat) (m : List UByte) (k : Nat) :
    polyAccumulate r m k < polyPrime := by
  have hpos : 0 < polyPrime := by decide
  rcases k with _ | k
  · exact hpos
  · exact Nat.mod_lt _ hpos

/-- **The tag of a divided message.** -/
theorem polyFinish_foldl {key : List UByte} (hkey : 32 ≤ key.length)
    (chunks : List (List UByte)) :
    polyFinish (chunks.foldl polyUpdate (polyInitialize key)) = poly1305 key chunks.flatten := by
  obtain ⟨hr, hrval⟩ := polyInitialize_r hkey
  obtain ⟨hpad, hpadval⟩ := wordsVal_pad hkey
  obtain ⟨hpart, hmod⟩ := polyLast_modEq (polyInitialize key) hr chunks.flatten
  rw [update_foldl _ rfl, polyInitialize_h,
    polyFinish_of_modEq hpart hmod (polyAccumulate_lt _ _ _) hpad hpadval, poly1305, hrval]

/-- **Poly1305 is exact.** For every key and every division of every message the tag is the one of
RFC 8439; no product or sum of a block or of the end overflows the type that holds it, whatever
part of the message the accumulator has seen; and the packing of the limbs into words loses no
bit. -/
theorem polyFinish_eq (key : List UByte) (hkey : key.length = 32) (chunks : List (List UByte)) :
    polyFinish (chunks.foldl polyUpdate (polyInitialize key)) = poly1305 key chunks.flatten ∧
    (∀ k block hibit, 16 * k ≤ chunks.flatten.length → hibit = 0 ∨ hibit = 1 <<< 24 →
      Fit (blockTerms (polyInitialize key).r
        (polyBlocks (polyInitialize key).r (1 <<< 24) ⟨0, 0, 0, 0, 0⟩ k chunks.flatten)
        block hibit)) ∧
    Fit (finishTerms (polyLast (chunks.foldl polyUpdate (polyInitialize key)))
      (polyInitialize key).pad) ∧
    ∀ full sel,
      full = limbsCarryFully (polyLast (chunks.foldl polyUpdate (polyInitialize key))) →
      sel = limbsSelect full (limbsPlusFive full) →
      sel.val = full.val % polyPrime ∧ wordsVal (limbsPack sel) = sel.val % 2 ^ 128 := by
  refine ⟨polyFinish_foldl hkey.ge chunks, ?_⟩
  obtain ⟨hr, -⟩ := polyInitialize_r hkey.ge
  obtain ⟨hpad, -⟩ := wordsVal_pad hkey.ge
  obtain ⟨hpart, -⟩ := polyLast_modEq (polyInitialize key) hr chunks.flatten
  rw [update_foldl _ rfl, polyInitialize_h]
  refine ⟨?_, fit_finishTerms hpart hpad, ?_⟩
  · intro k block hibit hk hb
    refine fit_blockTerms hr (polyBlocks_modEq hr _ hk).1 block ?_
    rcases hb with rfl | rfl <;> decide
  · rintro full sel rfl rfl
    obtain ⟨hfull, -⟩ := limbsCarryFully_spec hpart
    obtain ⟨hsel, hval⟩ := limbsSelect_spec hfull
    exact ⟨hval, (limbsPack_spec hsel).2⟩

/-- The one-time key of RFC 8439 section 2.5.2. -/
def rfcKey : List UByte :=
  [0x85, 0xd6, 0xbe, 0x78, 0x57, 0x55, 0x6d, 0x33, 0x7f, 0x44, 0x52, 0xfe, 0x42, 0xd5, 0x06,
    0xa8, 0x01, 0x03, 0x80, 0x8a, 0xfb, 0x0d, 0xb2, 0xfd, 0x4a, 0xbf, 0xf6, 0xaf, 0x41, 0x49,
    0xf5, 0x1b]

theorem polyFinish_rfcKey :
    polyFinish ([[1, 2, 3], [], [4]].foldl polyUpdate (polyInitialize rfcKey)) =
      poly1305 rfcKey [1, 2, 3, 4] :=
  (polyFinish_eq rfcKey rfl [[1, 2, 3], [], [4]]).1

/-- The test vector of RFC 8439 section 2.5.2. -/
example : poly1305 rfcKey
    [0x43, 0x72, 0x79, 0x70, 0x74, 0x6f, 0x67, 0x72, 0x61, 0x70, 0x68, 0x69, 0x63, 0x20, 0x46,
      0x6f, 0x72, 0x75, 0x6d, 0x20, 0x52, 0x65, 0x73, 0x65, 0x61, 0x72, 0x63, 0x68, 0x20, 0x47,
      0x72, 0x6f, 0x75, 0x70] =
    [0xa8, 0x06, 0x1d, 0xc1, 0x30, 0x51, 0x36, 0xc6, 0xc2, 0x2b, 0x8b, 0xaf, 0x0c, 0x01, 0x27,
    0xa9] := by
  decide

end AmiNetXDuo.Crypto68k
