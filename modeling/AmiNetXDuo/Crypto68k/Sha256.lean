import AmiNetXDuo.Basic
import AmiNetXDuo.Lib.Memory
import Mathlib.Data.Nat.NthRoot.Defs
import Mathlib.Tactic.Linarith
import Mathlib.Tactic.SplitIfs

/-!
# SHA-256

The hash of `c68k_sha256.c`: the compression of 64-byte blocks, and the context that buffers what
does not fill a block and counts the bits of the message in two longwords. `fipsSha256` is the hash
of FIPS 180-4, of a message as a whole.

## Main definitions

* `sha256Blocks` : the compression, as the code has it.
* `Sha256`, `sha256Initialize`, `sha256Update`, `sha256DigestCalculate` : the context and its calls.
* `fipsK`, `fipsCompress`, `fipsPad`, `fipsSha256`, `fipsSha224` : FIPS 180-4, sections 4 to 6, its
  constants computed from the roots of primes.

## Main results

* `sha256Compress_eq` : the code's rounds are those of FIPS 180-4.
* `Absorbed.update` : one call of update.
* `sha256_updates` : the digest of a message in whatever pieces it comes.
* `sha256_sha224` : a context for SHA-224 gives another digest than SHA-224.
-/

namespace AmiNetXDuo.Crypto68k

open Memory

/-! ### The compression -/

/-- `c68k_sha256_k`. -/
def sha256K : List ULong :=
  [0x428a2f98, 0x71374491, 0xb5c0fbcf, 0xe9b5dba5, 0x3956c25b, 0x59f111f1, 0x923f82a4, 0xab1c5ed5,
    0xd807aa98, 0x12835b01, 0x243185be, 0x550c7dc3, 0x72be5d74, 0x80deb1fe, 0x9bdc06a7, 0xc19bf174,
    0xe49b69c1, 0xefbe4786, 0x0fc19dc6, 0x240ca1cc, 0x2de92c6f, 0x4a7484aa, 0x5cb0a9dc, 0x76f988da,
    0x983e5152, 0xa831c66d, 0xb00327c8, 0xbf597fc7, 0xc6e00bf3, 0xd5a79147, 0x06ca6351, 0x14292967,
    0x27b70a85, 0x2e1b2138, 0x4d2c6dfc, 0x53380d13, 0x650a7354, 0x766a0abb, 0x81c2c92e, 0x92722c85,
    0xa2bfe8a1, 0xa81a664b, 0xc24b8b70, 0xc76c51a3, 0xd192e819, 0xd6990624, 0xf40e3585, 0x106aa070,
    0x19a4c116, 0x1e376c08, 0x2748774c, 0x34b0bcb5, 0x391c0cb3, 0x4ed8aa4a, 0x5b9cca4f, 0x682e6ff3,
    0x748f82ee, 0x78a5636f, 0x84c87814, 0x8cc70208, 0x90befffa, 0xa4506ceb, 0xbef9a3f7, 0xc67178f2]

/-- `ROTR()`. -/
def rotr (x : ULong) (n : Nat) : ULong := x >>> n ||| x <<< (32 - n)

/-- `BIG_S0()`. -/
def bigS0 (x : ULong) : ULong := rotr x 2 ^^^ rotr x 13 ^^^ rotr x 22

/-- `BIG_S1()`. -/
def bigS1 (x : ULong) : ULong := rotr x 6 ^^^ rotr x 11 ^^^ rotr x 25

/-- `SMALL_S0()`. -/
def smallS0 (x : ULong) : ULong := rotr x 7 ^^^ rotr x 18 ^^^ x >>> 3

/-- `SMALL_S1()`. -/
def smallS1 (x : ULong) : ULong := rotr x 17 ^^^ rotr x 19 ^^^ x >>> 10

/-- The eight words of the state. -/
structure ShaState where
  a : ULong
  b : ULong
  c : ULong
  d : ULong
  e : ULong
  f : ULong
  g : ULong
  h : ULong
  deriving DecidableEq, Repr

/-- The words of two states added. -/
def ShaState.add (s r : ShaState) : ShaState :=
  ⟨s.a + r.a, s.b + r.b, s.c + r.c, s.d + r.d, s.e + r.e, s.f + r.f, s.g + r.g, s.h + r.h⟩

/-- `c68k_sha256_load_be()`, the `t`-th longword of a block. -/
def loadBe (data : List UByte) (t : Nat) : ULong :=
  (data.getD (4 * t) 0).setWidth 32 <<< 24 ||| (data.getD (4 * t + 1) 0).setWidth 32 <<< 16 |||
    (data.getD (4 * t + 2) 0).setWidth 32 <<< 8 ||| (data.getD (4 * t + 3) 0).setWidth 32

/-- The four bytes of a longword, the highest first. -/
def storeBe (v : ULong) : List UByte :=
  [(v >>> 24).setWidth 8, (v >>> 16).setWidth 8, (v >>> 8).setWidth 8, v.setWidth 8]

/-- The bytes of a state. -/
def ShaState.bytes (s : ShaState) : List UByte :=
  [s.a, s.b, s.c, s.d, s.e, s.f, s.g, s.h].flatMap storeBe

/-- The state of SHA-256 before the first block. -/
def sha256Initial : ShaState :=
  ⟨0x6a09e667, 0xbb67ae85, 0x3c6ef372, 0xa54ff53a, 0x510e527f, 0x9b05688c, 0x1f83d9ab, 0x5be0cd19⟩

/-- `CH()`. -/
def shaCh (x y z : ULong) : ULong := z ^^^ (x &&& (y ^^^ z))

/-- `MAJ()`. -/
def shaMaj (x y z : ULong) : ULong := (x &&& y) ||| (z &&& (x ||| y))

/-- `ROUND()`: the new values of its arguments `d` and `h`. -/
def shaRound (w : List ULong) (a b c d e f g h : ULong) (t : Nat) : ULong × ULong :=
  let t1 := h + bigS1 e + shaCh e f g + sha256K.getD t 0 + w.getD t 0
  let t2 := bigS0 a + shaMaj a b c
  (d + t1, t1 + t2)

/-- The eight rounds in the body of the loop, each with the names moved on by one. -/
def shaRounds8 (w : List ULong) (s : ShaState) (t : Nat) : ShaState :=
  let ⟨a, b, c, d, e, f, g, h⟩ := s
  let (d, h) := shaRound w a b c d e f g h t
  let (c, g) := shaRound w h a b c d e f g (t + 1)
  let (b, f) := shaRound w g h a b c d e f (t + 2)
  let (a, e) := shaRound w f g h a b c d e (t + 3)
  let (h, d) := shaRound w e f g h a b c d (t + 4)
  let (g, c) := shaRound w d e f g h a b c (t + 5)
  let (f, b) := shaRound w c d e f g h a b (t + 6)
  let (e, a) := shaRound w b c d e f g h a (t + 7)
  ⟨a, b, c, d, e, f, g, h⟩

/-- The next word of the schedule, from the ones before it. -/
def shaNext (w : List ULong) (t : Nat) : ULong :=
  smallS1 (w.getD (t - 2) 0) + w.getD (t - 7) 0 + smallS0 (w.getD (t - 15) 0) + w.getD (t - 16) 0

/-- The two loops that fill `w`. -/
def shaSchedule (data : List UByte) : List ULong :=
  let w := (List.range 16).foldl (fun w t ↦ w ++ [loadBe data t]) []
  (List.range' 16 48).foldl (fun w t ↦ w ++ [shaNext w t]) w

/-- One block. -/
def sha256Compress (s : ShaState) (data : List UByte) : ShaState :=
  ((List.range' 0 8 8).foldl (shaRounds8 (shaSchedule data)) s).add s

/-- `c68k_sha256_blocks()`. -/
def sha256Blocks (s : ShaState) (data : List UByte) : Nat → ShaState
  | 0 => s
  | blocks + 1 => sha256Blocks (sha256Compress s data) (data.drop 64) blocks

/-! ### The context -/

/-- `C68K_SHA256`. The places of the buffer are its addresses. -/
structure Sha256 where
  state : ShaState
  bitsHi : ULong
  bitsLo : ULong
  used : Nat
  buffer : Nat → UByte

/-- `c68k_sha256_initialize()`, on a context whose buffer has any contents. -/
def sha256Initialize (_algorithm : ULong) (buffer : Nat → UByte) : Sha256 :=
  ⟨sha256Initial, 0, 0, 0, buffer⟩

/-- A piece of the message as it is passed to update, with its length a `UINT`. -/
abbrev ShaPiece : Type := { input : List UByte // input.length < 2 ^ 32 }

/-- The bit count behind a call. -/
def sha256Count (ctx : Sha256) (length : ULong) : Sha256 :=
  let lo := ctx.bitsLo + length <<< 3
  let hi := if lo < ctx.bitsLo then ctx.bitsHi + 1 else ctx.bitsHi
  { ctx with bitsLo := lo, bitsHi := hi + length >>> 29 }

/-- The end of update, with an empty buffer: the blocks of the input, and what is left of it. -/
def sha256Absorb (ctx : Sha256) (input : List UByte) : Sha256 :=
  let whole := input.length / 64
  let rest := input.drop (64 * whole)
  { ctx with
    state := sha256Blocks ctx.state input whole
    buffer := write ctx.buffer 0 rest
    used := rest.length }

/-- `c68k_sha256_update()`. -/
def sha256Update (ctx : Sha256) (piece : ShaPiece) : Sha256 :=
  let input := piece.1
  if input.length = 0 then ctx
  else
    let ctx := sha256Count ctx (BitVec.ofNat 32 input.length)
    if ctx.used = 0 then sha256Absorb ctx input
    else
      let room := 64 - ctx.used
      if input.length < room then
        { ctx with
          buffer := write ctx.buffer ctx.used input
          used := ctx.used + input.length }
      else
        let buffer := write ctx.buffer ctx.used (input.take room)
        sha256Absorb { ctx with
          state := sha256Blocks ctx.state (read buffer 0 64) 1
          buffer := buffer
          used := 0 } (input.drop room)

/-- The buffer with zeros from one place up to another. -/
def zeroFill (buffer : Nat → UByte) (used limit : Nat) : Nat → UByte :=
  write buffer used (List.replicate (limit - used) 0)

/-- The first part of the padding: the one, and zeros up to the end of the block if there is no room
behind it for the length. -/
def sha256Spill (ctx : Sha256) : Sha256 :=
  let buffer := write ctx.buffer ctx.used [0x80]
  let used := ctx.used + 1
  if 64 - 8 < used then
    let buffer := zeroFill buffer used 64
    { ctx with
      state := sha256Blocks ctx.state (read buffer 0 64) 1
      buffer := buffer
      used := 0 }
  else { ctx with buffer := buffer, used := used }

/-- `c68k_sha256_digest_calculate()`. -/
def sha256DigestCalculate (ctx : Sha256) (_algorithm : ULong) : List UByte :=
  let spilled := sha256Spill ctx
  let buffer := zeroFill spilled.buffer spilled.used 56
  let buffer := write buffer 56 (storeBe ctx.bitsHi ++ storeBe ctx.bitsLo)
  (sha256Blocks spilled.state (read buffer 0 64) 1).bytes

/-- A message in pieces through the three calls. -/
def sha256Calls (algorithm : ULong) (buffer : Nat → UByte) (pieces : List ShaPiece) : List UByte :=
  sha256DigestCalculate (pieces.foldl sha256Update (sha256Initialize algorithm buffer)) algorithm

/-! ### FIPS 180-4 -/

/-- The prime numbers that the constants come from, `2` to `311`. -/
def fipsPrimes : List Nat :=
  (List.range' 2 310).filter fun n ↦ (List.range' 2 (n - 2)).all (n % · ≠ 0)

/-- 32 bits of the fraction of a `k`-th root, the last of them the one at place `bits`. -/
def fipsFraction (k bits p : Nat) : ULong := BitVec.ofNat 32 (Nat.nthRoot k (p * 2 ^ (bits * k)))

/-- `K`: the first 32 bits of the fractions of the cube roots of the primes. -/
def fipsK : List ULong := fipsPrimes.map (fipsFraction 3 32)

/-- `Σ₀`. -/
def fipsBigS0 (x : ULong) : ULong := x.rotateRight 2 ^^^ x.rotateRight 13 ^^^ x.rotateRight 22

/-- `Σ₁`. -/
def fipsBigS1 (x : ULong) : ULong := x.rotateRight 6 ^^^ x.rotateRight 11 ^^^ x.rotateRight 25

/-- `σ₀`. -/
def fipsSmallS0 (x : ULong) : ULong := x.rotateRight 7 ^^^ x.rotateRight 18 ^^^ x >>> 3

/-- `σ₁`. -/
def fipsSmallS1 (x : ULong) : ULong := x.rotateRight 17 ^^^ x.rotateRight 19 ^^^ x >>> 10

/-- `Ch`. -/
def fipsCh (x y z : ULong) : ULong := (x &&& y) ^^^ (~~~x &&& z)

/-- `Maj`. -/
def fipsMaj (x y z : ULong) : ULong := (x &&& y) ^^^ (x &&& z) ^^^ (y &&& z)

/-- A word of a block, its bytes in their order. -/
def fipsWord (block : List UByte) (t : Nat) : ULong :=
  block.getD (4 * t) 0 ++ block.getD (4 * t + 1) 0 ++ block.getD (4 * t + 2) 0 ++
    block.getD (4 * t + 3) 0

/-- The first words of the message schedule. -/
def fipsSchedule (block : List UByte) : Nat → List ULong
  | 0 => []
  | t + 1 =>
    let w := fipsSchedule block t
    w ++ [if t < 16 then fipsWord block t
      else fipsSmallS1 (w.getD (t - 2) 0) + w.getD (t - 7) 0 + fipsSmallS0 (w.getD (t - 15) 0) +
        w.getD (t - 16) 0]

/-- One round on the working variables. -/
def fipsRound (w : List ULong) (s : ShaState) (t : Nat) : ShaState :=
  let t1 := s.h + fipsBigS1 s.e + fipsCh s.e s.f s.g + fipsK.getD t 0 + w.getD t 0
  let t2 := fipsBigS0 s.a + fipsMaj s.a s.b s.c
  ⟨t1 + t2, s.a, s.b, s.c, s.d + t1, s.e, s.f, s.g⟩

/-- The hash computation for one block. -/
def fipsCompress (s : ShaState) (block : List UByte) : ShaState :=
  ((List.range 64).foldl (fipsRound (fipsSchedule block 64)) s).add s

/-- The hash computation for the first blocks of a message. -/
def fipsBlocks (s : ShaState) (data : List UByte) : Nat → ShaState
  | 0 => s
  | n + 1 => fipsBlocks (fipsCompress s (data.take 64)) (data.drop 64) n

/-- A number of `k` bytes, the highest byte first. -/
def fipsBytes (k n : Nat) : List UByte :=
  (List.range k).map fun i ↦ BitVec.ofNat 8 (n / 256 ^ (k - 1 - i))

/-- The padded message: a one, the fewest zeros that leave room for the length, and the length in
bits. -/
def fipsPad (message : List UByte) : List UByte :=
  message ++ [0x80] ++ List.replicate ((119 - message.length % 64) % 64) 0 ++
    fipsBytes 8 (8 * message.length)

/-- The state behind a message. -/
def fipsHash (initial : ShaState) (message : List UByte) : ShaState :=
  fipsBlocks initial (fipsPad message) ((fipsPad message).length / 64)

/-- The state of eight words. -/
def fipsState (w : List ULong) : ShaState :=
  ⟨w.getD 0 0, w.getD 1 0, w.getD 2 0, w.getD 3 0, w.getD 4 0, w.getD 5 0, w.getD 6 0, w.getD 7 0⟩

/-- The bytes of a state. -/
def fipsDigest (s : ShaState) : List UByte :=
  [s.a, s.b, s.c, s.d, s.e, s.f, s.g, s.h].flatMap fun v ↦ fipsBytes 4 v.toNat

/-- The initial state of SHA-256: the first 32 bits of the fractions of the square roots of eight
primes. -/
def fipsInitial256 : ShaState := fipsState ((fipsPrimes.take 8).map (fipsFraction 2 32))

/-- The initial state of SHA-224: the second 32 bits, and the next eight primes. -/
def fipsInitial224 : ShaState :=
  fipsState (((fipsPrimes.drop 8).take 8).map (fipsFraction 2 64))

/-- SHA-256. -/
def fipsSha256 (message : List UByte) : List UByte := fipsDigest (fipsHash fipsInitial256 message)

/-- SHA-224: seven of the words. -/
def fipsSha224 (message : List UByte) : List UByte :=
  (fipsDigest (fipsHash fipsInitial224 message)).take 28

/-- The published SHA-224 digest of `abc`. -/
example : fipsSha224 [0x61, 0x62, 0x63] =
    [0x23, 0x09, 0x7d, 0x22, 0x34, 0x05, 0xd8, 0x22, 0x86, 0x42, 0xa4, 0x77, 0xbd, 0xa2, 0x55, 0xb3,
      0x2a, 0xad, 0xbc, 0xe4, 0xbd, 0xa0, 0xb3, 0xf7, 0xe3, 0x6c, 0x9d, 0xa7] := by
  decide +kernel

/-! ### The compression is the standard's -/

theorem sha256K_eq : sha256K = fipsK := by decide +kernel

theorem sha256Initial_eq : sha256Initial = fipsInitial256 := by decide +kernel

theorem rotr_eq (x : ULong) {n : Nat} (h : n < 32) : rotr x n = x.rotateRight n := by
  rw [rotr, BitVec.rotateRight_def, Nat.mod_eq_of_lt h]

/-- The functions on one word. -/
theorem sigma_eq : bigS0 = fipsBigS0 ∧ bigS1 = fipsBigS1 ∧ smallS0 = fipsSmallS0 ∧
    smallS1 = fipsSmallS1 := by
  refine ⟨?_, ?_, ?_, ?_⟩ <;> funext x
  · simp only [bigS0, fipsBigS0, rotr_eq, Nat.reduceLT]
  · simp only [bigS1, fipsBigS1, rotr_eq, Nat.reduceLT]
  · simp only [smallS0, fipsSmallS0, rotr_eq, Nat.reduceLT]
  · simp only [smallS1, fipsSmallS1, rotr_eq, Nat.reduceLT]

theorem loadBe_eq (data : List UByte) (t : Nat) : loadBe data t = fipsWord data t := by
  rw [loadBe, fipsWord]
  generalize data.getD (4 * t) 0 = b0
  generalize data.getD (4 * t + 1) 0 = b1
  generalize data.getD (4 * t + 2) 0 = b2
  generalize data.getD (4 * t + 3) 0 = b3
  ext i hi
  simp only [BitVec.getElem_or, BitVec.getElem_shiftLeft, BitVec.getElem_setWidth]
  grind

theorem shaNext_eq (w : List ULong) (t : Nat) : shaNext w t =
    fipsSmallS1 (w.getD (t - 2) 0) + w.getD (t - 7) 0 + fipsSmallS0 (w.getD (t - 15) 0) +
      w.getD (t - 16) 0 := by
  obtain ⟨-, -, hsmall0, hsmall1⟩ := sigma_eq
  rw [shaNext, hsmall0, hsmall1]

theorem shaCh_eq (x y z : ULong) : shaCh x y z = fipsCh x y z := by
  refine BitVec.eq_of_getLsbD_eq fun i hi ↦ ?_
  simp only [shaCh, fipsCh, BitVec.getLsbD_xor, BitVec.getLsbD_and, BitVec.getLsbD_not, hi,
    decide_true, Bool.true_and]
  cases x.getLsbD i <;> cases y.getLsbD i <;> cases z.getLsbD i <;> rfl

theorem shaMaj_eq (x y z : ULong) : shaMaj x y z = fipsMaj x y z := by
  refine BitVec.eq_of_getLsbD_eq fun i _ ↦ ?_
  simp only [shaMaj, fipsMaj, BitVec.getLsbD_xor, BitVec.getLsbD_and, BitVec.getLsbD_or]
  cases x.getLsbD i <;> cases y.getLsbD i <;> cases z.getLsbD i <;> rfl

/-- The eight rounds with moving names are eight rounds of the standard. -/
theorem shaRounds8_eq (w : List ULong) (s : ShaState) (t : Nat) :
    shaRounds8 w s t =
      [t, t + 1, t + 2, t + 3, t + 4, t + 5, t + 6, t + 7].foldl (fipsRound w) s := by
  obtain ⟨hbig0, hbig1, -, -⟩ := sigma_eq
  simp only [shaRounds8, shaRound, shaCh_eq, shaMaj_eq, hbig0, hbig1, sha256K_eq, List.foldl_cons,
    List.foldl_nil, fipsRound]

theorem loadBe_take (data : List UByte) {t : Nat} (ht : t < 16) :
    loadBe (data.take 64) t = loadBe data t := by
  have h (i : Nat) (hi : i < 64) : (data.take 64).getD i 0 = data.getD i 0 := by
    simp [List.getD_eq_getElem?_getD, hi]
  rw [loadBe, loadBe, h _ (by omega), h _ (by omega), h _ (by omega), h _ (by omega)]

theorem shaSchedule_eq (data : List UByte) : shaSchedule data = fipsSchedule (data.take 64) 64 := by
  have hload (n : Nat) (hn : n ≤ 16) :
      (List.range n).foldl (fun w t ↦ w ++ [loadBe data t]) [] = fipsSchedule (data.take 64) n := by
    induction n with
    | zero => rfl
    | succ n ih =>
      rw [List.range_succ, List.foldl_append, ih (by omega), fipsSchedule, if_pos (by omega),
        ← loadBe_eq, loadBe_take data (by omega)]
      rfl
  have hnext (n : Nat) : (List.range' 16 n).foldl (fun w t ↦ w ++ [shaNext w t])
      (fipsSchedule (data.take 64) 16) = fipsSchedule (data.take 64) (16 + n) := by
    induction n with
    | zero => rfl
    | succ n ih =>
      rw [List.range'_1_concat, List.foldl_append, ih, ← Nat.add_assoc, fipsSchedule,
        if_neg (by omega), ← shaNext_eq]
      rfl
  rw [shaSchedule, hload 16 (Nat.le_refl _)]
  exact hnext 48

/-- **The rounds of the code.** -/
theorem sha256Compress_eq (s : ShaState) (data : List UByte) :
    sha256Compress s data = fipsCompress s (data.take 64) := by
  have hrange : List.range 64 = (List.range' 0 8 8).flatMap
      fun t ↦ [t, t + 1, t + 2, t + 3, t + 4, t + 5, t + 6, t + 7] := by decide
  rw [sha256Compress, fipsCompress, shaSchedule_eq, hrange, List.foldl_flatMap]
  simp only [← shaRounds8_eq]

theorem sha256Blocks_eq (s : ShaState) (data : List UByte) (n : Nat) :
    sha256Blocks s data n = fipsBlocks s data n := by
  induction n generalizing s data with
  | zero => rfl
  | succ n ih => rw [sha256Blocks, fipsBlocks, sha256Compress_eq, ih]

/-- The blocks of a message in two parts. -/
theorem fipsBlocks_append (s : ShaState) {front : List UByte} (data : List UByte) {q : Nat}
    (k : Nat) (hfront : front.length = 64 * q) :
    fipsBlocks s (front ++ data) (q + k) = fipsBlocks (fipsBlocks s front q) data k := by
  induction q generalizing s front with
  | zero =>
    obtain rfl := List.eq_nil_of_length_eq_zero hfront
    rw [Nat.zero_add]
    rfl
  | succ q ih =>
    rw [Nat.succ_add, fipsBlocks, fipsBlocks, List.take_append_of_le_length (by omega),
      List.drop_append_of_le_length (by omega), ih _ (by rw [List.length_drop]; omega)]

/-! ### The buffer and the bit count -/

theorem read_write_front (m : Nat → UByte) (n : Nat) (bs : List UByte) :
    read (write m n bs) 0 (n + bs.length) = read m 0 n ++ bs := by
  have h := read_write_end m 0 n bs
  rwa [Nat.zero_add] at h

/-- The context has taken in a message: whole blocks, and a part of one. -/
structure Absorbed (ctx : Sha256) (front tail : List UByte) : Prop where
  blocks : front.length = 64 * (front.length / 64)
  tail_lt : tail.length < 64
  used : ctx.used = tail.length
  state : ctx.state = fipsBlocks sha256Initial front (front.length / 64)
  buffer : read ctx.buffer 0 ctx.used = tail

/-- The bit count of a message of this many bytes. -/
def Counted (ctx : Sha256) (n : Nat) : Prop :=
  ctx.bitsHi.toNat * 2 ^ 32 + ctx.bitsLo.toNat = 8 * n

/-- The longwords of a count with a carry between them. -/
theorem count_carry {hi lo n length low high carry r : Nat} (h : hi * 2 ^ 32 + lo = 8 * n)
    (hlength : length * 8 = high * 2 ^ 32 + low) (hn : n + length < 2 ^ 61)
    (hr : lo + low = r + carry * 2 ^ 32) :
    (hi + carry + high) * 2 ^ 32 + r = 8 * (n + length) ∧ hi + carry + high < 2 ^ 32 := by
  have hsum : (hi + carry + high) * 2 ^ 32 + r = 8 * (n + length) := by linarith
  exact ⟨hsum, by omega⟩

/-- The count goes on into the upper longword. -/
theorem Counted.count {ctx : Sha256} {n length : Nat} (h : Counted ctx n)
    (hlength : length < 2 ^ 32) (hn : n + length < 2 ^ 61) :
    Counted (sha256Count ctx (BitVec.ofNat 32 length)) (n + length) := by
  have hlo := ctx.bitsLo.isLt
  have hsplit : length * 8 = length / 2 ^ 29 * 2 ^ 32 + length * 8 % 2 ^ 32 := by omega
  obtain ⟨low, hlow⟩ : ∃ low, low = length * 8 % 2 ^ 32 := ⟨_, rfl⟩
  have hlow_lt : low < 2 ^ 32 := hlow ▸ Nat.mod_lt _ (by decide)
  rw [← hlow] at hsplit
  have hshift : (BitVec.ofNat 32 length <<< 3).toNat = low := by
    rw [BitVec.toNat_shiftLeft, BitVec.toNat_ofNat, Nat.mod_eq_of_lt hlength, Nat.shiftLeft_eq,
      hlow]
  have hhigh : (BitVec.ofNat 32 length >>> 29).toNat = length / 2 ^ 29 := by
    rw [BitVec.toNat_ushiftRight, BitVec.toNat_ofNat, Nat.mod_eq_of_lt hlength,
      Nat.shiftRight_eq_div_pow]
  simp only [Counted, sha256Count, BitVec.lt_def, BitVec.toNat_add, hshift]
  rcases Nat.lt_or_ge (ctx.bitsLo.toNat + low) (2 ^ 32) with hfit | hover
  · have hr : ctx.bitsLo.toNat + low = ctx.bitsLo.toNat + low + 0 * 2 ^ 32 := by omega
    obtain ⟨hsum, hlt⟩ := count_carry h hsplit hn hr
    rw [Nat.add_zero] at hsum hlt
    rw [Nat.mod_eq_of_lt hfit, if_neg (by omega), hhigh, Nat.mod_eq_of_lt hlt]
    exact hsum
  · obtain ⟨r, hr⟩ : ∃ r, ctx.bitsLo.toNat + low = r + 1 * 2 ^ 32 :=
      ⟨ctx.bitsLo.toNat + low - 2 ^ 32, by omega⟩
    obtain ⟨hsum, hlt⟩ := count_carry h hsplit hn hr
    have hmod : (ctx.bitsLo.toNat + low) % 2 ^ 32 = r := by omega
    have hone : (1 : ULong).toNat = 1 := rfl
    rw [hmod, if_pos (by omega), BitVec.toNat_add, hhigh, hone, Nat.mod_add_mod,
      Nat.mod_eq_of_lt hlt]
    exact hsum

/-- More blocks behind whole blocks. -/
theorem length_append_blocks {front data : List UByte} {k : Nat}
    (hfront : front.length = 64 * (front.length / 64)) (hdata : data.length = 64 * k) :
    (front ++ data).length = 64 * ((front ++ data).length / 64) ∧
      (front ++ data).length / 64 = front.length / 64 + k := by
  rw [List.length_append]
  omega

/-- The end of update. -/
theorem Absorbed.absorb {ctx : Sha256} {front : List UByte} (h : Absorbed ctx front [])
    (input : List UByte) :
    Absorbed (sha256Absorb ctx input) (front ++ input.take (64 * (input.length / 64)))
      (input.drop (64 * (input.length / 64))) := by
  have htake : (input.take (64 * (input.length / 64))).length = 64 * (input.length / 64) := by
    rw [List.length_take]
    omega
  obtain ⟨hfront, hcount⟩ := length_append_blocks h.blocks htake
  refine ⟨hfront, ?_, rfl, ?_, ?_⟩
  · rw [List.length_drop]
    omega
  · have hblocks := fipsBlocks_append ctx.state (input.drop (64 * (input.length / 64))) 0 htake
    rw [List.take_append_drop, Nat.add_zero] at hblocks
    rw [hcount, fipsBlocks_append _ _ _ h.blocks, ← h.state]
    exact (sha256Blocks_eq ..).trans hblocks
  · have hread := read_write_front ctx.buffer 0 (input.drop (64 * (input.length / 64)))
    rwa [Nat.zero_add] at hread

/-- **One call of update.** The context has then taken in the piece behind the rest. -/
theorem Absorbed.update {ctx : Sha256} {front tail : List UByte} (h : Absorbed ctx front tail)
    (piece : ShaPiece) :
    ∃ front' tail', front' ++ tail' = front ++ tail ++ piece.1 ∧
      Absorbed (sha256Update ctx piece) front' tail' := by
  obtain ⟨input, hinput⟩ := piece
  have hcounted : Absorbed (sha256Count ctx (BitVec.ofNat 32 input.length)) front tail :=
    ⟨h.blocks, h.tail_lt, h.used, h.state, h.buffer⟩
  simp only [sha256Update]
  generalize sha256Count ctx (BitVec.ofNat 32 input.length) = counted at hcounted ⊢
  split_ifs with hempty hused hroom
  · obtain rfl := List.eq_nil_of_length_eq_zero hempty
    exact ⟨front, tail, (List.append_nil _).symm, h⟩
  · obtain rfl := List.eq_nil_of_length_eq_zero (hcounted.used.symm.trans hused)
    refine ⟨_, _, ?_, hcounted.absorb input⟩
    rw [List.append_assoc, List.take_append_drop, List.append_nil]
  · refine ⟨front, tail ++ input, (List.append_assoc ..).symm, hcounted.blocks, ?_, ?_,
      hcounted.state, ?_⟩
    · have hlen := hcounted.used
      rw [List.length_append]
      omega
    · rw [List.length_append, ← hcounted.used]
    · dsimp only
      rw [read_write_front, hcounted.buffer]
  · have hlt := hcounted.tail_lt
    have hlen := hcounted.used
    have htake : (input.take (64 - counted.used)).length = 64 - counted.used := by
      rw [List.length_take]
      omega
    have hblock : read (write counted.buffer counted.used (input.take (64 - counted.used))) 0 64 =
        tail ++ input.take (64 - counted.used) := by
      have hread := read_write_front counted.buffer counted.used (input.take (64 - counted.used))
      rwa [htake, hcounted.buffer, Nat.add_sub_cancel' (by omega)] at hread
    have hdata : (tail ++ input.take (64 - counted.used)).length = 64 * 1 := by
      rw [List.length_append, htake]
      omega
    obtain ⟨hfront, hcount⟩ := length_append_blocks hcounted.blocks hdata
    have hfilled : Absorbed { counted with
        state := sha256Blocks counted.state
          (read (write counted.buffer counted.used (input.take (64 - counted.used))) 0 64) 1
        buffer := write counted.buffer counted.used (input.take (64 - counted.used))
        used := 0 } (front ++ (tail ++ input.take (64 - counted.used))) [] := by
      refine ⟨hfront, Nat.zero_lt_succ 63, rfl, ?_, rfl⟩
      rw [hcount, fipsBlocks_append _ _ _ hcounted.blocks, ← hcounted.state, hblock,
        sha256Blocks_eq]
    refine ⟨_, _, ?_, hfilled.absorb (input.drop (64 - counted.used))⟩
    rw [List.append_assoc, List.take_append_drop]
    simp

theorem Counted.update {ctx : Sha256} {n : Nat} (h : Counted ctx n) (piece : ShaPiece)
    (hn : n + piece.1.length < 2 ^ 61) : Counted (sha256Update ctx piece) (n + piece.1.length) := by
  obtain ⟨input, hinput⟩ := piece
  have hcounted := h.count hinput hn
  simp only [sha256Update]
  split_ifs with hempty
  · rw [hempty]
    exact h
  all_goals exact hcounted

/-! ### The digest -/

theorem storeBe_ofNat (n : Nat) : storeBe (BitVec.ofNat 32 n) = fipsBytes 4 n := by
  have hbyte (k : Nat) (hk : k ≤ 24) :
      (BitVec.ofNat 32 n >>> k).setWidth 8 = BitVec.ofNat 8 (n / 2 ^ k) := by
    refine BitVec.eq_of_getLsbD_eq fun i hi ↦ ?_
    simp only [BitVec.getLsbD_setWidth, BitVec.getLsbD_ushiftRight, BitVec.getLsbD_ofNat, hi,
      show k + i < 32 by omega, decide_true, Bool.true_and, Nat.testBit_div_two_pow, Nat.add_comm]
  have hlast := hbyte 0 (Nat.zero_le _)
  rw [BitVec.ushiftRight_zero] at hlast
  rw [storeBe, hbyte 24 (by decide), hbyte 16 (by decide), hbyte 8 (by decide), hlast]
  rfl

theorem bytes_eq (s : ShaState) : s.bytes = fipsDigest s := by
  have hstore (v : ULong) : storeBe v = fipsBytes 4 v.toNat := by
    rw [← storeBe_ofNat, BitVec.ofNat_toNat, BitVec.setWidth_eq]
  rw [ShaState.bytes, fipsDigest, funext hstore]

/-- The two longwords of the count are its eight bytes. -/
theorem storeBe_append {hi lo : ULong} {n : Nat} (h : hi.toNat * 2 ^ 32 + lo.toNat = n) :
    storeBe hi ++ storeBe lo = fipsBytes 8 n := by
  have hlt := lo.isLt
  have hhi : hi = BitVec.ofNat 32 (n / 256 ^ 4) := by
    refine BitVec.eq_of_toNat_eq ?_
    rw [BitVec.toNat_ofNat]
    omega
  have hlo : lo = BitVec.ofNat 32 n := by
    refine BitVec.eq_of_toNat_eq ?_
    rw [BitVec.toNat_ofNat]
    omega
  rw [hhi, hlo, storeBe_ofNat, storeBe_ofNat]
  simp only [fipsBytes, List.range_succ, List.range_zero, List.map_append, List.map_cons,
    List.map_nil, Nat.div_div_eq_div_mul, ← pow_add]
  rfl

theorem read_zeroFill (buffer : Nat → UByte) {used limit : Nat} (h : used ≤ limit) :
    read (zeroFill buffer used limit) 0 limit =
      read buffer 0 used ++ List.replicate (limit - used) 0 := by
  have hread := read_write_front buffer used (List.replicate (limit - used) (0 : UByte))
  rwa [List.length_replicate, Nat.add_sub_cancel' h] at hread

/-- The hash of whole blocks and the rest of the padded message. -/
theorem fipsHash_eq {front tail block : List UByte} {k : Nat}
    (hfront : front.length = 64 * (front.length / 64))
    (hpad : fipsPad (front ++ tail) = front ++ block) (hblock : block.length = 64 * k) :
    fipsHash sha256Initial (front ++ tail) =
      fipsBlocks (fipsBlocks sha256Initial front (front.length / 64)) block k := by
  rw [fipsHash, hpad, (length_append_blocks hfront hblock).2, fipsBlocks_append _ _ _ hfront]

/-- The last block of the message that is hashed. -/
theorem read_lastBlock {ctx : Sha256} {n used : Nat} {buffer : Nat → UByte} (hcount : Counted ctx n)
    (hused : used ≤ 56) :
    read (write (zeroFill buffer used 56) 56 (storeBe ctx.bitsHi ++ storeBe ctx.bitsLo)) 0 64 =
      read buffer 0 used ++ List.replicate (56 - used) 0 ++ fipsBytes 8 (8 * n) := by
  have hread := read_write_front (zeroFill buffer used 56) 56
    (storeBe ctx.bitsHi ++ storeBe ctx.bitsLo)
  rw [read_zeroFill _ hused] at hread
  rw [← storeBe_append hcount]
  exact hread

/-- **The digest.** A context that has taken in a message gives the hash of the message. -/
theorem Absorbed.digest {ctx : Sha256} {front tail : List UByte} (h : Absorbed ctx front tail)
    (hcount : Counted ctx (front ++ tail).length) (algorithm : ULong) :
    sha256DigestCalculate ctx algorithm = fipsSha256 (front ++ tail) := by
  have hlt := h.tail_lt
  have hused := h.used
  have hblocks := h.blocks
  have hone : read (write ctx.buffer ctx.used [0x80]) 0 (ctx.used + 1) = tail ++ [0x80] := by
    have hread := read_write_front ctx.buffer ctx.used [0x80]
    rwa [h.buffer] at hread
  have hmod : (front ++ tail).length % 64 = tail.length := by
    rw [List.length_append]
    omega
  simp only [sha256DigestCalculate, sha256Spill, fipsSha256, bytes_eq, ← sha256Initial_eq]
  by_cases hspill : 64 - 8 < ctx.used + 1
  · have hfirst : read (zeroFill (write ctx.buffer ctx.used [0x80]) (ctx.used + 1) 64) 0 64 =
        tail ++ [0x80] ++ List.replicate (64 - (ctx.used + 1)) 0 := by
      rw [read_zeroFill _ (by omega), hone]
    have hfirst_length :
        (tail ++ [0x80] ++ List.replicate (64 - (ctx.used + 1)) (0 : UByte)).length = 64 * 1 := by
      simp only [List.length_append, List.length_replicate, List.length_cons, List.length_nil]
      omega
    have hpad : fipsPad (front ++ tail) = front ++ (tail ++ [0x80] ++
        List.replicate (64 - (ctx.used + 1)) 0 ++
          (List.replicate 56 0 ++ fipsBytes 8 (8 * (front ++ tail).length))) := by
      rw [fipsPad, hmod, show (119 - tail.length) % 64 = 64 - (ctx.used + 1) + 56 by omega,
        List.replicate_add]
      simp only [List.append_assoc]
    have hblock : (tail ++ [0x80] ++ List.replicate (64 - (ctx.used + 1)) (0 : UByte) ++
        (List.replicate 56 0 ++ fipsBytes 8 (8 * (front ++ tail).length))).length =
          64 * (1 + 1) := by
      rw [List.length_append, hfirst_length]
      rfl
    rw [if_pos hspill, fipsHash_eq hblocks hpad hblock, fipsBlocks_append _ _ _ hfirst_length,
      ← h.state, ← hfirst, sha256Blocks_eq, sha256Blocks_eq, read_lastBlock hcount (Nat.zero_le _)]
    rfl
  · have hpad : fipsPad (front ++ tail) = front ++ (tail ++ [0x80] ++
        List.replicate (56 - (ctx.used + 1)) 0 ++ fipsBytes 8 (8 * (front ++ tail).length)) := by
      rw [fipsPad, hmod, show (119 - tail.length) % 64 = 56 - (ctx.used + 1) by omega]
      simp only [List.append_assoc]
    have hblock : (tail ++ [0x80] ++ List.replicate (56 - (ctx.used + 1)) 0 ++
        fipsBytes 8 (8 * (front ++ tail).length)).length = 64 * 1 := by
      simp only [List.length_append, List.length_replicate, List.length_cons, List.length_nil,
        fipsBytes, List.length_map, List.length_range]
      omega
    rw [if_neg hspill, fipsHash_eq hblocks hpad hblock, ← h.state, sha256Blocks_eq]
    dsimp only
    rw [read_lastBlock hcount (by omega), hone]

/-- A message in pieces, behind what the context has taken in. -/
theorem Absorbed.updates {ctx : Sha256} {front tail : List UByte} (habs : Absorbed ctx front tail)
    (hcount : Counted ctx (front ++ tail).length) (pieces : List ShaPiece) (algorithm : ULong)
    (hlen : (front ++ tail ++ (pieces.map (·.1)).flatten).length < 2 ^ 61) :
    sha256DigestCalculate (pieces.foldl sha256Update ctx) algorithm =
      fipsSha256 (front ++ tail ++ (pieces.map (·.1)).flatten) := by
  induction pieces generalizing ctx front tail with
  | nil => rw [List.map_nil, List.flatten_nil, List.append_nil, List.foldl_nil, habs.digest hcount]
  | cons piece pieces ih =>
    rw [List.map_cons, List.flatten_cons, ← List.append_assoc] at hlen ⊢
    obtain ⟨front', tail', hsplit, habs'⟩ := habs.update piece
    have hbelow : (front ++ tail).length + piece.1.length < 2 ^ 61 := by
      rw [List.length_append, List.length_append] at hlen
      omega
    have hcount' := hcount.update piece hbelow
    rw [← List.length_append, ← hsplit] at hcount'
    rw [← hsplit] at hlen ⊢
    exact ih habs' hcount' hlen

/-- **A message in pieces.** However a message below `2 ^ 61` bytes is divided, the three calls give
its SHA-256 digest, whatever algorithm they are told. -/
theorem sha256_updates (algorithm : ULong) (buffer : Nat → UByte) (pieces : List ShaPiece)
    (h : (pieces.map (·.1)).flatten.length < 2 ^ 61) :
    sha256Calls algorithm buffer pieces = fipsSha256 (pieces.map (·.1)).flatten := by
  have habs : Absorbed (sha256Initialize algorithm buffer) [] [] :=
    ⟨rfl, Nat.zero_lt_succ 63, rfl, rfl, rfl⟩
  exact habs.updates (by simp [Counted, sha256Initialize]) pieces algorithm h

/-- `abc`, with the `a` in a piece of its own. -/
theorem sha256_updates_abc : sha256Calls 0 (fun _ ↦ 0)
    [⟨[0x61], by decide⟩, ⟨[], by decide⟩, ⟨[0x62, 0x63], by decide⟩] =
      fipsSha256 [0x61, 0x62, 0x63] ∧ fipsSha256 [0x61, 0x62, 0x63] =
    [0xba, 0x78, 0x16, 0xbf, 0x8f, 0x01, 0xcf, 0xea, 0x41, 0x41, 0x40, 0xde, 0x5d, 0xae, 0x22, 0x23,
      0xb0, 0x03, 0x61, 0xa3, 0x96, 0x17, 0x7a, 0x9c, 0xb4, 0x10, 0xff, 0x61, 0xf2, 0x00, 0x15,
      0xad] :=
  ⟨sha256_updates 0 (fun _ ↦ 0) _ (by decide), by decide +kernel⟩

/-- **SHA-224 is not there.** Whatever algorithm the calls are told, the first 28 bytes of the
digest of the empty message are not its SHA-224 digest. -/
theorem sha256_sha224 :
    ¬ ∃ algorithm : ULong, (sha256Calls algorithm (fun _ ↦ 0) []).take 28 = fipsSha224 [] := by
  have hne : (sha256Calls 0 (fun _ ↦ 0) []).take 28 ≠ fipsSha224 [] := by decide +kernel
  rintro ⟨algorithm, h⟩
  -- The algorithm does not reach any of the words.
  exact hne h

end AmiNetXDuo.Crypto68k
