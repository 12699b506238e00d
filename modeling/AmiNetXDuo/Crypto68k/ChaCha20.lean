import AmiNetXDuo.Basic
import AmiNetXDuo.Lib.BigEndian
import AmiNetXDuo.Lib.LittleEndian
import AmiNetXDuo.Lib.Memory
import Mathlib.Logic.Function.Iterate
import Mathlib.Tactic.SplitIfs

/-!
# ChaCha20

The cipher of `c68k_chacha20.c`.  A context keeps the sixteen words of the state and the key stream
block the last call has not used up; a call goes on with the key stream where the one before it has
ended.  `chachaBlock` and `chacha20` are the block function and the cipher of RFC 8439.

## Main definitions

* `coreC` : the twenty rounds, as the code has them.
* `ChaCha20`, `chachaInitialize`, `chachaXor` : the context and its calls, on memory.
* `chachaBlock`, `chacha20` : RFC 8439 sections 2.3 and 2.4.
* `keystream` : a piece of the key stream.

## Main results

* `loadLeWord_eq`, `storeBlock_eq` : the code's bytes and words are the RFC's numbers.
* `storeBlock_coreC` : the code's rounds are those of RFC 8439.
* `chachaXor_spec` : a call combines memory with the next piece of the key stream.
-/

namespace AmiNetXDuo.Crypto68k

/-! ### The code -/

/-- The sixteen words of the state. -/
abbrev ChaChaState : Type := Vector ULong 16

/-- `C68K_ROTL()`. -/
def rotl (v : ULong) (n : Nat) : ULong := v <<< n ||| v >>> (32 - n)

/-- `C68K_QR()` on four words. -/
def qr (a b c d : ULong) : ULong × ULong × ULong × ULong :=
  let a := a + b
  let d := rotl (d ^^^ a) 16
  let c := c + d
  let b := rotl (b ^^^ c) 12
  let a := a + b
  let d := rotl (d ^^^ a) 8
  let c := c + d
  let b := rotl (b ^^^ c) 7
  (a, b, c, d)

/-- `C68K_QR()` on four words of the state. -/
def qrAt (x : ChaChaState) (i j k l : Fin 16) : ChaChaState :=
  let r := qr x[i] x[j] x[k] x[l]
  (((x.set i r.1).set j r.2.1).set k r.2.2.1).set l r.2.2.2

/-- The columns and the diagonals. -/
def doubleRound (x : ChaChaState) : ChaChaState :=
  let x := qrAt x 0 4 8 12
  let x := qrAt x 1 5 9 13
  let x := qrAt x 2 6 10 14
  let x := qrAt x 3 7 11 15
  let x := qrAt x 0 5 10 15
  let x := qrAt x 1 6 11 12
  let x := qrAt x 2 7 8 13
  qrAt x 3 4 9 14

/-- `c68k_chacha20_core_c()`. -/
def coreC (input : ChaChaState) : ChaChaState :=
  Vector.zipWith (· + ·) (Nat.iterate doubleRound 10 input) input

/-- `c68k_chacha20_store_block()`: the words, least significant byte first. -/
def storeBlock (ks : ChaChaState) : List UByte :=
  ks.toList.flatMap fun k : ULong ↦
    [k.setWidth 8, (k >>> 8).setWidth 8, (k >>> 16).setWidth 8, (k >>> 24).setWidth 8]

/-- `c68k_chacha20_load_le()` at an offset. -/
def loadLeWord (m : List UByte) (i : Nat) : ULong :=
  (m.getD i 0).setWidth 32 ||| (m.getD (i + 1) 0).setWidth 32 <<< 8 |||
    (m.getD (i + 2) 0).setWidth 32 <<< 16 ||| (m.getD (i + 3) 0).setWidth 32 <<< 24

/-- `C68K_CHACHA20`. -/
structure ChaCha20 where
  state : ChaChaState
  stream : List UByte
  used : Nat

/-- `c68k_chacha20_initialize()`. -/
def chachaInitialize (key nonce : List UByte) (counter : ULong) : ChaCha20 where
  state := #v[0x61707865, 0x3320646e, 0x79622d32, 0x6b206574,
    loadLeWord key 0, loadLeWord key 4, loadLeWord key 8, loadLeWord key 12,
    loadLeWord key 16, loadLeWord key 20, loadLeWord key 24, loadLeWord key 28,
    counter, loadLeWord nonce 0, loadLeWord nonce 4, loadLeWord nonce 8]
  stream := List.replicate 64 0
  used := 64

/-- `c68k_chacha20_state[12]++`. -/
def nextBlock (s : ChaChaState) : ChaChaState := s.set 12 (s[12] + 1)

/-- The loop over whole blocks of `c68k_chacha20_xor()`, for `k` blocks. -/
def xorBlocks : Nat → ChaChaState → (Nat → UByte) → Nat → Nat → ChaChaState × (Nat → UByte)
  | 0, s, m, _, _ => (s, m)
  | k + 1, s, m, src, dst =>
    xorBlocks k (nextBlock s) (Memory.xorInto m src dst (storeBlock (coreC s))) (src + 64)
      (dst + 64)

/-- The end of `c68k_chacha20_xor()`: a last block that is only partly used is kept. -/
def xorTail (ctx : ChaCha20) (m : Nat → UByte) (src dst length : Nat) :
    ChaCha20 × (Nat → UByte) :=
  if length ≠ 0 then
    let stream := storeBlock (coreC ctx.state)
    (⟨nextBlock ctx.state, stream, length⟩, Memory.xorInto m src dst (stream.take length))
  else (ctx, m)

/-- The whole blocks and the end of `c68k_chacha20_xor()`. -/
def xorRest (ctx : ChaCha20) (m : Nat → UByte) (src dst length : Nat) :
    ChaCha20 × (Nat → UByte) :=
  let r := xorBlocks (length / 64) ctx.state m src dst
  xorTail { ctx with state := r.1 } r.2 (src + length / 64 * 64) (dst + length / 64 * 64)
    (length % 64)

/-- `c68k_chacha20_xor()`. -/
def chachaXor (ctx : ChaCha20) (m : Nat → UByte) (src dst length : Nat) :
    ChaCha20 × (Nat → UByte) :=
  if ctx.used < 64 then
    let want := min (64 - ctx.used) length
    xorRest { ctx with used := ctx.used + want }
      (Memory.xorInto m src dst ((ctx.stream.drop ctx.used).take want)) (src + want) (dst + want)
      (length - want)
  else xorRest ctx m src dst length

/-- `c68k_chacha20_keystream()`: the key stream in a buffer of zeros. -/
def chachaKeystream (ctx : ChaCha20) (length : Nat) : ChaCha20 × List UByte :=
  let r := chachaXor ctx (fun _ ↦ 0) 0 0 length
  (r.1, Memory.read r.2 0 length)

/-! ### RFC 8439 -/

/-- The quarter round of RFC 8439 section 2.1. -/
def quarterRound (a b c d : ULong) : ULong × ULong × ULong × ULong :=
  let a := a + b
  let d := (d ^^^ a).rotateLeft 16
  let c := c + d
  let b := (b ^^^ c).rotateLeft 12
  let a := a + b
  let d := (d ^^^ a).rotateLeft 8
  let c := c + d
  let b := (b ^^^ c).rotateLeft 7
  (a, b, c, d)

/-- `QUARTERROUND(i, j, k, l)` of RFC 8439 section 2.2. -/
def quarterRoundAt (x : ChaChaState) (q : Fin 16 × Fin 16 × Fin 16 × Fin 16) : ChaChaState :=
  let r := quarterRound x[q.1] x[q.2.1] x[q.2.2.1] x[q.2.2.2]
  (((x.set q.1 r.1).set q.2.1 r.2.1).set q.2.2.1 r.2.2.1).set q.2.2.2 r.2.2.2

/-- `inner_block` of RFC 8439 section 2.3.1. -/
def innerBlock (x : ChaChaState) : ChaChaState :=
  [(0, 4, 8, 12), (1, 5, 9, 13), (2, 6, 10, 14), (3, 7, 11, 15),
    (0, 5, 10, 15), (1, 6, 11, 12), (2, 7, 8, 13), (3, 4, 9, 14)].foldl quarterRoundAt x

/-- The serialised block of RFC 8439 section 2.3, from its initial state: the words are numbers
written in little-endian order. -/
def chachaBlock (s : ChaChaState) : List UByte :=
  (Vector.zipWith (· + ·) (Nat.iterate innerBlock 10 s) s).toList.flatMap fun w ↦
    LittleEndian.bytes 4 w.toNat

/-- The bytes of a text. -/
def asciiBytes (text : String) : List UByte := text.toList.map fun c ↦ BitVec.ofNat 8 c.toNat

/-- Word `i` of a byte string: four bytes, read as a little-endian number. -/
def rfcWord (m : List UByte) (i : Nat) : ULong :=
  BitVec.ofNat 32 (LittleEndian.value ((m.drop (4 * i)).take 4))

/-- The constant words of RFC 8439 section 2.3. -/
def rfcConstant (i : Nat) : ULong := rfcWord (asciiBytes "expand 32-byte k") i

/-- The initial state of RFC 8439 section 2.3 for a key, a block count and a nonce. -/
def chachaStart (key nonce : List UByte) (counter : ULong) : ChaChaState :=
  #v[rfcConstant 0, rfcConstant 1, rfcConstant 2, rfcConstant 3,
    rfcWord key 0, rfcWord key 1, rfcWord key 2, rfcWord key 3,
    rfcWord key 4, rfcWord key 5, rfcWord key 6, rfcWord key 7,
    counter, rfcWord nonce 0, rfcWord nonce 1, rfcWord nonce 2]

/-- The block of RFC 8439 section 2.3.2. -/
example :
    BigEndian.value (chachaBlock (chachaStart ((List.range 32).map (BitVec.ofNat 8))
      [0, 0, 0, 9, 0, 0, 0, 0x4a, 0, 0, 0, 0] 1)) =
      0x10f1e7e4d13b5915500fdd1fa32071c4c7d1f4c733c068030422aa9ac3d46c4e * 2 ^ 256 +
        0xd2826446079faa0914c2d705d98b02a2b5129cd1de164eb9cbd083e8a2503c4e := by
  decide +kernel

/-- The cipher of RFC 8439 section 2.4: the message combined with the blocks from `counter` on. -/
def chacha20 (key nonce : List UByte) (counter : Nat) (m : List UByte) : List UByte :=
  List.zipWith (· ^^^ ·) m ((List.range ((m.length + 63) / 64)).flatMap fun j ↦
    chachaBlock (chachaStart key nonce (BitVec.ofNat 32 (counter + j))))

/-! ### The rounds -/

theorem qr_eq (a b c d : ULong) : qr a b c d = quarterRound a b c d := rfl

theorem qrAt_eq (x : ChaChaState) (i j k l : Fin 16) :
    qrAt x i j k l = quarterRoundAt x (i, j, k, l) := by
  rw [qrAt, quarterRoundAt, qr_eq]

theorem doubleRound_eq (x : ChaChaState) : doubleRound x = innerBlock x := by
  simp only [doubleRound, innerBlock, qrAt_eq, List.foldl_cons, List.foldl_nil]

/-- The shifts of the code write a word in little-endian order. -/
theorem storeBlock_eq (ks : ChaChaState) :
    storeBlock ks = ks.toList.flatMap fun w ↦ LittleEndian.bytes 4 w.toNat := by
  refine List.flatMap_congr fun w _ ↦ ?_
  simp only [LittleEndian.bytes, Nat.div_div_eq_div_mul, BitVec.ofNat_toNat,
    List.cons.injEq, and_true, true_and]
  refine ⟨?_, ?_, ?_⟩ <;>
  · apply BitVec.eq_of_toNat_eq
    simp [Nat.shiftRight_eq_div_pow]

/-- And read one. -/
theorem loadLeWord_eq (m : List UByte) (i : Nat) : loadLeWord m (4 * i) = rfcWord m i := by
  have hget {k : Nat} (hk : k < 4) :
      ((m.drop (4 * i)).take 4).getD k 0 = m.getD (4 * i + k) 0 := by
    simp [List.getD_eq_getElem?_getD, List.getElem?_take_of_lt hk, List.getElem?_drop]
  ext j hj
  rw [rfcWord, ← BitVec.getLsbD_eq_getElem, ← BitVec.getLsbD_eq_getElem,
    BitVec.getLsbD_ofNat, LittleEndian.testBit_value, hget (by omega), loadLeWord]
  -- which of the four bytes bit `j` lies in
  have hcase : j / 8 = 0 ∨ j / 8 = 1 ∨ j / 8 = 2 ∨ j / 8 = 3 := by omega
  simp only [BitVec.getLsbD_or, BitVec.getLsbD_shiftLeft, BitVec.getLsbD_setWidth]
  grind

/-- **The code's rounds are those of RFC 8439.** -/
theorem storeBlock_coreC (s : ChaChaState) : storeBlock (coreC s) = chachaBlock s := by
  have h : doubleRound = innerBlock := funext doubleRound_eq
  rw [storeBlock_eq, coreC, chachaBlock, h]

/-- The state the code starts from. -/
theorem chachaInitialize_state (key nonce : List UByte) (counter : ULong) :
    (chachaInitialize key nonce counter).state = chachaStart key nonce counter := by
  simp only [chachaStart, ← loadLeWord_eq]
  rfl

@[simp] theorem length_chachaBlock (s : ChaChaState) : (chachaBlock s).length = 64 := by
  simp [← storeBlock_coreC, storeBlock, List.length_flatMap]

/-! ### The key stream -/

/-- The state of the block that comes `k` blocks later. -/
def advance (s : ChaChaState) (k : Nat) : ChaChaState := s.set 12 (s[12] + BitVec.ofNat 32 k)

@[simp] theorem advance_zero (s : ChaChaState) : advance s 0 = s := by
  simp [advance]

theorem nextBlock_advance (s : ChaChaState) (k : Nat) :
    nextBlock (advance s k) = advance s (k + 1) := by
  simp only [nextBlock, advance, Vector.getElem_set_self, Vector.set_set, BitVec.ofNat_add,
    BitVec.add_assoc]
  rfl

theorem advance_chachaStart (key nonce : List UByte) (c k : Nat) :
    advance (chachaStart key nonce (BitVec.ofNat 32 c)) k =
      chachaStart key nonce (BitVec.ofNat 32 (c + k)) := by
  rw [BitVec.ofNat_add]
  rfl

/-- Bytes `n` to `n + length` of the key stream that starts with the block of `s`. -/
def keystream (s : ChaChaState) (n length : Nat) : List UByte :=
  (List.range length).map fun i ↦ (chachaBlock (advance s ((n + i) / 64))).getD ((n + i) % 64) 0

@[simp] theorem length_keystream (s : ChaChaState) (n length : Nat) :
    (keystream s n length).length = length := by
  simp [keystream]

theorem keystream_add (s : ChaChaState) (n a b : Nat) :
    keystream s n (a + b) = keystream s n a ++ keystream s (n + a) b := by
  simp [keystream, List.range_add, Nat.add_assoc]

/-- A piece of the key stream within one block. -/
theorem keystream_within (s : ChaChaState) (j o length : Nat) (h : o + length ≤ 64) :
    keystream s (64 * j + o) length = ((chachaBlock (advance s j)).drop o).take length := by
  apply List.ext_getElem
  · simp
    omega
  · intro i h₁ h₂
    have hi : i < length := by simpa using h₁
    have hdiv : (64 * j + o + i) / 64 = j := by omega
    have hmod : (64 * j + o + i) % 64 = o + i := by omega
    simp only [keystream, List.getElem_map, List.getElem_range, hdiv, hmod, List.getElem_take,
      List.getElem_drop]
    rw [List.getD_eq_getElem?_getD, List.getElem?_eq_getElem (by rw [length_chachaBlock]; omega),
      Option.getD_some]

theorem keystream_block (s : ChaChaState) (j : Nat) :
    keystream s (64 * j) 64 = chachaBlock (advance s j) := by
  have h := keystream_within s j 0 64 (by decide)
  rwa [Nat.add_zero, List.drop_zero, List.take_of_length_le (by simp)] at h

/-- The key stream in whole blocks. -/
theorem keystream_blocks (s : ChaChaState) (k : Nat) :
    keystream s 0 (64 * k) = (List.range k).flatMap fun j ↦ chachaBlock (advance s j) := by
  induction k with
  | zero => rfl
  | succ k ih =>
    rw [Nat.mul_succ, keystream_add, ih, Nat.zero_add, keystream_block, List.range_succ,
      List.flatMap_append]
    simp

/-! ### One call -/

/-- The context has given out `n` bytes of the key stream of `s`. -/
structure AtByte (s : ChaChaState) (n : Nat) (ctx : ChaCha20) : Prop where
  state : ctx.state = advance s ((n + 63) / 64)
  used : ctx.used = if n % 64 = 0 then 64 else n % 64
  stream : n % 64 ≠ 0 → ctx.stream = chachaBlock (advance s (n / 64))

theorem atByte_chachaInitialize (key nonce : List UByte) (counter : ULong) :
    AtByte (chachaStart key nonce counter) 0 (chachaInitialize key nonce counter) where
  state := (chachaInitialize_state key nonce counter).trans (advance_zero _).symm
  used := rfl
  stream h := absurd rfl h

theorem xorBlocks_eq (s : ChaChaState) (j k : Nat) (m : Nat → UByte) (src dst : Nat) :
    xorBlocks k (advance s j) m src dst =
      (advance s (j + k), Memory.xorInto m src dst (keystream s (64 * j) (64 * k))) := by
  induction k generalizing j m src dst with
  | zero => rfl
  | succ k ih =>
    rw [xorBlocks, nextBlock_advance, ih, storeBlock_coreC, Nat.mul_succ 64 k,
      Nat.add_comm (64 * k) 64, keystream_add, Memory.xorInto_append, keystream_block,
      length_chachaBlock, Nat.mul_succ 64 j, Nat.add_assoc j 1, Nat.add_comm 1 k]

/-- The whole blocks and the end, from the start of a block on. -/
theorem xorRest_spec {s : ChaChaState} {n : Nat} {ctx : ChaCha20} (hctx : AtByte s n ctx)
    (m : Nat → UByte) (src dst length : Nat) (h : n % 64 = 0 ∨ length = 0) :
    AtByte s (n + length) (xorRest ctx m src dst length).1 ∧
      (xorRest ctx m src dst length).2 = Memory.xorInto m src dst (keystream s n length) := by
  rcases h with h | rfl
  swap
  · exact ⟨hctx, rfl⟩
  obtain ⟨j, hj⟩ : ∃ j, n = 64 * j := ⟨n / 64, by omega⟩
  have hstate : ctx.state = advance s j := by
    rw [hctx.state]
    congr 1
    omega
  have hsplit : keystream s n length = keystream s (64 * j) (64 * (length / 64)) ++
      keystream s (64 * (j + length / 64)) (length % 64) := by
    rw [Nat.mul_add, ← keystream_add, Nat.div_add_mod, hj]
  rw [hsplit, Memory.xorInto_append, length_keystream]
  simp only [xorRest, xorTail, hstate, xorBlocks_eq, Nat.mul_comm (length / 64) 64]
  split_ifs with htail
  · have hlt := Nat.mod_lt length (show 64 > 0 by decide)
    have htake := keystream_within s (j + length / 64) 0 (length % 64) (by omega)
    rw [Nat.add_zero, List.drop_zero] at htake
    refine ⟨⟨?_, ?_, fun _ ↦ ?_⟩, ?_⟩
    · dsimp only
      rw [nextBlock_advance]
      congr 1
      omega
    · dsimp only
      rw [if_neg (by omega)]
      omega
    · dsimp only
      rw [storeBlock_coreC]
      congr 2
      omega
    · rw [storeBlock_coreC, htake]
  · have hzero : length % 64 = 0 := not_not.mp htail
    refine ⟨⟨?_, ?_, fun hne ↦ absurd ?_ hne⟩, ?_⟩
    · dsimp only
      congr 1
      omega
    · dsimp only
      rw [hctx.used, if_pos h, if_pos (by omega)]
    · omega
    · rw [hzero]
      rfl

/-- **One call.** It combines memory with the next piece of the key stream, byte by byte. -/
theorem chachaXor_spec {s : ChaChaState} {n : Nat} {ctx : ChaCha20} (hctx : AtByte s n ctx)
    (m : Nat → UByte) (src dst length : Nat) :
    AtByte s (n + length) (chachaXor ctx m src dst length).1 ∧
      (chachaXor ctx m src dst length).2 = Memory.xorInto m src dst (keystream s n length) := by
  simp only [chachaXor]
  split_ifs with hused
  · -- bytes the last call left behind come first
    have hn : n % 64 ≠ 0 := by
      intro h0
      rw [hctx.used, if_pos h0] at hused
      omega
    have hu : ctx.used = n % 64 := by rw [hctx.used, if_neg hn]
    obtain ⟨want, hwant⟩ : ∃ w, w = min (64 - ctx.used) length := ⟨_, rfl⟩
    rw [← hwant]
    have hpiece : (ctx.stream.drop ctx.used).take want = keystream s n want := by
      have h := keystream_within s (n / 64) (n % 64) want (by omega)
      rw [Nat.div_add_mod] at h
      rw [h, hctx.stream hn, hu]
    have hmid : AtByte s (n + want) { ctx with used := ctx.used + want } := by
      refine ⟨?_, ?_, fun hne ↦ ?_⟩
      · dsimp only
        rw [hctx.state]
        congr 1
        omega
      · dsimp only
        rw [hu]
        split_ifs <;> omega
      · dsimp only
        rw [hctx.stream hn]
        congr 2
        omega
    obtain ⟨hat, hmem⟩ := xorRest_spec hmid
      (Memory.xorInto m src dst ((ctx.stream.drop ctx.used).take want)) (src + want) (dst + want)
      (length - want) (by omega)
    have hlen : want + (length - want) = length := by omega
    rw [Nat.add_assoc, hlen] at hat
    refine ⟨hat, ?_⟩
    rw [hmem, hpiece, ← hlen, keystream_add, Memory.xorInto_append, length_keystream]
    congr 2
    omega
  · refine xorRest_spec hctx m src dst length (.inl ?_)
    by_contra hn
    have hu := hctx.used
    rw [if_neg hn] at hu
    omega

end AmiNetXDuo.Crypto68k
