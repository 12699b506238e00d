import AmiNetXDuo.Crypto68k.ChaCha20
import AmiNetXDuo.Crypto68k.Poly1305

/-!
# The ChaCha20-Poly1305 AEAD

The streaming AEAD of `c68k_chacha20.c`: the additional data and then the data come in any number
of calls, the data possibly encrypted or decrypted in place, and the tag at the end covers what
RFC 8439 section 2.8 says it covers.

## Main definitions

* `Aead`, `aeadInitialize`, `aeadAssociate`, `aeadEncrypt`, `aeadDecrypt`, `aeadTag` : the context
  and its calls.
* `XorCall`, `aeadRun` : a call on some memory, and a whole record.
* `rfcAead` : the ciphertext and the tag of RFC 8439.

## Main results

* `dataRun_spec` : what the data calls produce, in whatever pieces the data comes.
* `aeadRun_eq_rfcAead` : a record divided in any way, and its decryption divided in any other way.
-/

namespace AmiNetXDuo.Crypto68k

/-! ### The code -/

/-- `C68K_CHACHA20_POLY1305`. -/
structure Aead where
  cipher : ChaCha20
  mac : Poly1305
  aadLength : Nat
  dataLength : Nat
  dataStarted : Bool

/-- `c68k_chacha20_poly1305_pad16()`. -/
def macPad16 (mac : Poly1305) (soFar : Nat) : Poly1305 :=
  if soFar &&& 15 = 0 then mac else polyUpdate mac (List.replicate (16 - (soFar &&& 15)) 0)

/-- `c68k_chacha20_poly1305_start_data()`. -/
def startData (ctx : Aead) : Aead :=
  if ctx.dataStarted then ctx
  else { ctx with mac := macPad16 ctx.mac ctx.aadLength, dataStarted := true }

/-- `c68k_chacha20_poly1305_initialize()`. -/
def aeadInitialize (key nonce : List UByte) : Aead where
  cipher := chachaInitialize key nonce 1
  mac := polyInitialize (chachaKeystream (chachaInitialize key nonce 0) 32).2
  aadLength := 0
  dataLength := 0
  dataStarted := false

/-- `c68k_chacha20_poly1305_associate()`. -/
def aeadAssociate (ctx : Aead) (aad : List UByte) : Aead :=
  if ctx.dataStarted then ctx
  else
    { ctx with
      mac := polyUpdate ctx.mac aad
      aadLength := (ctx.aadLength + aad.length) % 2 ^ 32 }

/-- A call of `c68k_chacha20_poly1305_encrypt()` or `_decrypt()`: memory as the call finds it, and
its arguments. -/
structure XorCall where
  mem : Nat → UByte
  src : Nat
  dst : Nat
  length : Nat

/-- What a call reads. -/
def XorCall.input (c : XorCall) : List UByte := Memory.read c.mem c.src c.length

/-- The two buffers of a call are one and the same, or apart. -/
def XorCall.Ok (c : XorCall) : Prop :=
  c.src = c.dst ∨ c.src + c.length ≤ c.dst ∨ c.dst + c.length ≤ c.src

/-- `c68k_chacha20_poly1305_encrypt()`: the context, and what is in `out` afterwards. -/
def aeadEncrypt (ctx : Aead) (c : XorCall) : Aead × List UByte :=
  let ctx := startData ctx
  let r := chachaXor ctx.cipher c.mem c.src c.dst c.length
  ({ ctx with
      cipher := r.1
      mac := polyUpdate ctx.mac (Memory.read r.2 c.dst c.length)
      dataLength := (ctx.dataLength + c.length) % 2 ^ 32 },
    Memory.read r.2 c.dst c.length)

/-- `c68k_chacha20_poly1305_decrypt()`: the ciphertext goes into the tag before it is
overwritten. -/
def aeadDecrypt (ctx : Aead) (c : XorCall) : Aead × List UByte :=
  let ctx := startData ctx
  let r := chachaXor ctx.cipher c.mem c.src c.dst c.length
  ({ ctx with
      cipher := r.1
      mac := polyUpdate ctx.mac (Memory.read c.mem c.src c.length)
      dataLength := (ctx.dataLength + c.length) % 2 ^ 32 },
    Memory.read r.2 c.dst c.length)

/-- The block of the two lengths. -/
def lengthsBlock (aadLength dataLength : Nat) : List UByte :=
  storeLe aadLength ++ [0, 0, 0, 0] ++ storeLe dataLength ++ [0, 0, 0, 0]

/-- `c68k_chacha20_poly1305_tag()`. -/
def aeadTag (ctx : Aead) : List UByte :=
  let ctx := startData ctx
  let mac := macPad16 ctx.mac ctx.dataLength
  polyFinish (polyUpdate mac (lengthsBlock ctx.aadLength ctx.dataLength))

/-- The data calls of a record, one after another: the context, and everything they produce. -/
def dataRun (call : Aead → XorCall → Aead × List UByte) (ctx : Aead) :
    List XorCall → Aead × List UByte
  | [] => (ctx, [])
  | c :: cs =>
    let r := call ctx c
    let rest := dataRun call r.1 cs
    (rest.1, r.2 ++ rest.2)

/-- A whole record: what the data calls produce, and the tag. -/
def aeadRun (call : Aead → XorCall → Aead × List UByte) (key nonce : List UByte)
    (aads : List (List UByte)) (calls : List XorCall) : List UByte × List UByte :=
  let r := dataRun call (aads.foldl aeadAssociate (aeadInitialize key nonce)) calls
  (r.2, aeadTag r.1)

/-! ### RFC 8439 -/

/-- `pad16` of RFC 8439 section 2.8.1. -/
def pad16 (x : List UByte) : List UByte :=
  if x.length % 16 = 0 then [] else List.replicate (16 - x.length % 16) 0

/-- The one-time key of RFC 8439 section 2.6. -/
def oneTimeKey (key nonce : List UByte) : List UByte :=
  (chachaBlock (chachaStart key nonce 0)).take 32

/-- The data the tag covers. -/
def macData (aad ct : List UByte) : List UByte :=
  aad ++ pad16 aad ++ ct ++ pad16 ct ++ LittleEndian.bytes 8 aad.length ++
    LittleEndian.bytes 8 ct.length

/-- The AEAD of RFC 8439 section 2.8: ciphertext and tag. -/
def rfcAead (key nonce aad pt : List UByte) : List UByte × List UByte :=
  let ct := chacha20 key nonce 1 pt
  (ct, poly1305 (oneTimeKey key nonce) (macData aad ct))

/-! ### What the tag has covered so far -/

/-- The updates so far make up the message `m`. -/
def MacSeen (key m : List UByte) (mac : Poly1305) : Prop :=
  ∃ chunks : List (List UByte), chunks.flatten = m ∧
    mac = chunks.foldl polyUpdate (polyInitialize key)

theorem MacSeen.update {key m : List UByte} {mac : Poly1305} (h : MacSeen key m mac)
    (x : List UByte) : MacSeen key (m ++ x) (polyUpdate mac x) := by
  obtain ⟨chunks, rfl, rfl⟩ := h
  exact ⟨chunks ++ [x], by simp, by simp⟩

theorem MacSeen.finish {key m : List UByte} {mac : Poly1305} (h : MacSeen key m mac)
    (hkey : 32 ≤ key.length) : polyFinish mac = poly1305 key m := by
  obtain ⟨chunks, rfl, rfl⟩ := h
  exact polyFinish_foldl hkey chunks

theorem MacSeen.pad16 {key m : List UByte} {mac : Poly1305} (h : MacSeen key m mac)
    {x : List UByte} {soFar : Nat} (hx : soFar = x.length) :
    MacSeen key (m ++ Crypto68k.pad16 x) (macPad16 mac soFar) := by
  have hand : soFar &&& 15 = x.length % 16 := by
    rw [hx]
    exact Nat.and_two_pow_sub_one_eq_mod _ 4
  simp only [macPad16, hand, Crypto68k.pad16]
  split_ifs with h0
  · rwa [List.append_nil]
  · exact h.update _

theorem zipWith_xor_zero (ks : List UByte) :
    List.zipWith (· ^^^ ·) (Memory.read (fun _ ↦ 0) 0 ks.length) ks = ks := by
  have hread : Memory.read (fun _ ↦ 0) 0 ks.length = List.replicate ks.length 0 := by
    simp [Memory.read, List.map_const']
  rw [hread]
  induction ks with
  | nil => rfl
  | cons k ks ih =>
    simp only [List.length_cons, List.replicate_succ, List.zipWith_cons_cons]
    rw [ih (by simp [Memory.read, List.map_const'])]
    simp

/-- The one-time key, as the code makes it. -/
theorem macKey_eq (key nonce : List UByte) :
    (chachaKeystream (chachaInitialize key nonce 0) 32).2 = oneTimeKey key nonce := by
  have hxor := (chachaXor_spec (atByte_chachaInitialize key nonce 0) (fun _ ↦ 0) 0 0 32).2
  have hks := keystream_within (chachaStart key nonce 0) 0 0 32 (by decide)
  rw [Nat.mul_zero, Nat.zero_add, List.drop_zero, advance_zero] at hks
  have hread := Memory.read_xorInto (fun _ ↦ 0) (keystream (chachaStart key nonce 0) 0 32)
    (.inl (rfl : 0 = 0))
  rw [zipWith_xor_zero, length_keystream] at hread
  rw [chachaKeystream, hxor, hread, oneTimeKey, hks]

theorem length_oneTimeKey (key nonce : List UByte) : 32 ≤ (oneTimeKey key nonce).length := by
  simp [oneTimeKey]

/-- Additional data `aad` has been seen, and no data yet. -/
structure AadSeen (key nonce aad : List UByte) (ctx : Aead) : Prop where
  cipher : AtByte (chachaStart key nonce 1) 0 ctx.cipher
  mac : MacSeen (oneTimeKey key nonce) aad ctx.mac
  aadLength : ctx.aadLength = aad.length
  dataLength : ctx.dataLength = 0
  dataStarted : ctx.dataStarted = false

/-- All the additional data and the ciphertext `ct` have been seen. -/
structure DataSeen (key nonce aad ct : List UByte) (ctx : Aead) : Prop where
  cipher : AtByte (chachaStart key nonce 1) ct.length ctx.cipher
  mac : MacSeen (oneTimeKey key nonce) (aad ++ pad16 aad ++ ct) ctx.mac
  aadLength : ctx.aadLength = aad.length
  dataLength : ctx.dataLength = ct.length
  dataStarted : ctx.dataStarted = true

theorem aadSeen_aeadInitialize (key nonce : List UByte) :
    AadSeen key nonce [] (aeadInitialize key nonce) where
  cipher := atByte_chachaInitialize key nonce 1
  mac := ⟨[], rfl, by rw [List.foldl_nil, ← macKey_eq]; rfl⟩
  aadLength := rfl
  dataLength := rfl
  dataStarted := rfl

theorem AadSeen.associate {key nonce aad : List UByte} {ctx : Aead} (h : AadSeen key nonce aad ctx)
    {x : List UByte} (hx : (aad ++ x).length < 2 ^ 32) :
    AadSeen key nonce (aad ++ x) (aeadAssociate ctx x) := by
  rw [aeadAssociate, if_neg (by simp [h.dataStarted])]
  refine ⟨h.cipher, h.mac.update x, ?_, h.dataLength, h.dataStarted⟩
  dsimp only
  rw [h.aadLength, ← List.length_append, Nat.mod_eq_of_lt hx]

/-- All the additional data, in whatever pieces it comes. -/
theorem aadSeen_foldl (key nonce : List UByte) (aads : List (List UByte))
    (h : aads.flatten.length < 2 ^ 32) :
    AadSeen key nonce aads.flatten (aads.foldl aeadAssociate (aeadInitialize key nonce)) := by
  suffices hgen : ∀ (aad : List UByte) (ctx : Aead), AadSeen key nonce aad ctx →
      (aad ++ aads.flatten).length < 2 ^ 32 →
      AadSeen key nonce (aad ++ aads.flatten) (aads.foldl aeadAssociate ctx) from
    hgen [] _ (aadSeen_aeadInitialize key nonce) h
  clear h
  induction aads with
  | nil =>
    intro aad ctx hctx _
    rwa [List.flatten_nil, List.append_nil]
  | cons x aads ih =>
    intro aad ctx hctx hlen
    rw [List.flatten_cons, ← List.append_assoc] at hlen ⊢
    refine ih _ _ (hctx.associate ?_) hlen
    rw [List.length_append] at hlen
    omega

/-- The data has been started, if only by the next call. -/
def Started (key nonce aad ct : List UByte) (ctx : Aead) : Prop :=
  AadSeen key nonce aad ctx ∧ ct = [] ∨ DataSeen key nonce aad ct ctx

/-- The start of the data, made once. -/
theorem Started.startData {key nonce aad ct : List UByte} {ctx : Aead}
    (h : Started key nonce aad ct ctx) : DataSeen key nonce aad ct (startData ctx) := by
  rcases h with ⟨h, rfl⟩ | h
  · rw [Crypto68k.startData, if_neg (by simp [h.dataStarted])]
    refine ⟨h.cipher, ?_, h.aadLength, h.dataLength, rfl⟩
    rw [List.append_nil]
    exact h.mac.pad16 h.aadLength
  · rwa [Crypto68k.startData, if_pos h.dataStarted]

/-! ### The data calls -/

/-- The data call of either direction. -/
def dataCall (encrypting : Bool) : Aead → XorCall → Aead × List UByte :=
  if encrypting then aeadEncrypt else aeadDecrypt

/-- The ciphertext among what a call reads and what it writes. -/
def cipherSide (encrypting : Bool) (input output : List UByte) : List UByte :=
  if encrypting then output else input

/-- What a data call leaves behind, in either direction: the tag is fed the ciphertext. -/
theorem dataCall_eq (encrypting : Bool) (ctx : Aead) (c : XorCall) :
    dataCall encrypting ctx c =
      let r := chachaXor (startData ctx).cipher c.mem c.src c.dst c.length
      let output := Memory.read r.2 c.dst c.length
      ({ startData ctx with
          cipher := r.1
          mac := polyUpdate (startData ctx).mac (cipherSide encrypting c.input output)
          dataLength := ((startData ctx).dataLength + c.length) % 2 ^ 32 }, output) := by
  cases encrypting <;> rfl

@[simp] theorem XorCall.length_input (c : XorCall) : c.input.length = c.length := by
  simp [XorCall.input]

/-- **One data call.** Its output is its input under the next piece of the key stream. -/
theorem Started.dataCall {key nonce aad ct : List UByte} {ctx : Aead}
    (h : Started key nonce aad ct ctx) (encrypting : Bool) {c : XorCall} (hc : c.Ok)
    (hlen : ct.length + c.length < 2 ^ 32) :
    let r := dataCall encrypting ctx c
    r.2 = List.zipWith (· ^^^ ·) c.input
        (keystream (chachaStart key nonce 1) ct.length c.length) ∧
      DataSeen key nonce aad (ct ++ cipherSide encrypting c.input r.2) r.1 := by
  have hd := h.startData
  obtain ⟨hcipher, hmem⟩ := chachaXor_spec hd.cipher c.mem c.src c.dst c.length
  have hread := Memory.read_xorInto c.mem (keystream (chachaStart key nonce 1) ct.length c.length)
    (by simpa [XorCall.Ok] using hc)
  rw [length_keystream] at hread
  have hout : (Crypto68k.dataCall encrypting ctx c).2 = List.zipWith (· ^^^ ·) c.input
      (keystream (chachaStart key nonce 1) ct.length c.length) := by
    rw [dataCall_eq]
    dsimp only
    rw [hmem, hread]
    rfl
  have hside : (cipherSide encrypting c.input (Crypto68k.dataCall encrypting ctx c).2).length =
      c.length := by
    rw [hout, cipherSide]
    split_ifs <;> simp
  refine ⟨hout, ?_⟩
  have hct : (ct ++ cipherSide encrypting c.input (Crypto68k.dataCall encrypting ctx c).2).length =
      ct.length + c.length := by rw [List.length_append, hside]
  rw [dataCall_eq] at hct ⊢
  refine ⟨?_, ?_, hd.aadLength, ?_, hd.dataStarted⟩
  · rw [hct]
    exact hcipher
  · rw [← List.append_assoc]
    exact hd.mac.update _
  · rw [hct]
    dsimp only
    rw [hd.dataLength, Nat.mod_eq_of_lt hlen]

/-- Two pieces one after another, under one key stream. -/
theorem zipWith_keystream_append (s : ChaChaState) (n : Nat) (x y : List UByte) :
    List.zipWith (· ^^^ ·) (x ++ y) (keystream s n (x ++ y).length) =
      List.zipWith (· ^^^ ·) x (keystream s n x.length) ++
        List.zipWith (· ^^^ ·) y (keystream s (n + x.length) y.length) := by
  rw [List.length_append, keystream_add, List.zipWith_append (by simp)]

theorem cipherSide_append (encrypting : Bool) (x y x' y' : List UByte) :
    cipherSide encrypting (x ++ y) (x' ++ y') =
      cipherSide encrypting x x' ++ cipherSide encrypting y y' := by
  cases encrypting <;> rfl

/-- **The data, in whatever pieces it comes.** -/
theorem dataRun_spec (encrypting : Bool) {key nonce aad : List UByte} {calls : List XorCall}
    (hok : ∀ c ∈ calls, c.Ok) {ct : List UByte} {ctx : Aead} (h : Started key nonce aad ct ctx)
    (hlen : ct.length + (calls.flatMap XorCall.input).length < 2 ^ 32) :
    let r := dataRun (dataCall encrypting) ctx calls
    let input := calls.flatMap XorCall.input
    r.2 = List.zipWith (· ^^^ ·) input
        (keystream (chachaStart key nonce 1) ct.length input.length) ∧
      Started key nonce aad (ct ++ cipherSide encrypting input r.2) r.1 := by
  induction calls generalizing ct ctx with
  | nil =>
    refine ⟨rfl, ?_⟩
    have hside : cipherSide encrypting [] [] = [] := by cases encrypting <;> rfl
    rw [List.flatMap_nil, dataRun, hside, List.append_nil]
    exact h
  | cons c calls ih =>
    rw [List.flatMap_cons, List.length_append, XorCall.length_input] at hlen
    obtain ⟨hout, hseen⟩ := h.dataCall encrypting (hok c List.mem_cons_self) (by omega)
    have hside : (cipherSide encrypting c.input (dataCall encrypting ctx c).2).length =
        c.input.length := by
      rw [hout, cipherSide]
      split_ifs <;> simp
    obtain ⟨hrest, hfinal⟩ := ih (fun d hd ↦ hok d (List.mem_cons_of_mem c hd)) (.inr hseen)
      (by rw [List.length_append, hside, XorCall.length_input]; omega)
    rw [List.length_append, hside] at hrest
    dsimp only [dataRun]
    rw [List.flatMap_cons, zipWith_keystream_append, cipherSide_append, ← List.append_assoc,
      XorCall.length_input, ← hout]
    rw [XorCall.length_input] at hrest
    exact ⟨congrArg _ hrest, hfinal⟩

/-! ### The tag -/

/-- The lengths as the code stores them, in the eight bytes each has. -/
theorem lengthsBlock_eq {a d : Nat} (ha : a < 2 ^ 32) (hd : d < 2 ^ 32) :
    lengthsBlock a d = LittleEndian.bytes 8 a ++ LittleEndian.bytes 8 d := by
  have hbytes : ∀ v < 2 ^ 32, storeLe v ++ [0, 0, 0, 0] = LittleEndian.bytes 8 v := by
    intro v hv
    rw [storeLe_eq, LittleEndian.bytes_append 4 4 v, Nat.div_eq_of_lt (by simpa using hv)]
    rfl
  rw [lengthsBlock, hbytes a ha, List.append_assoc, hbytes d hd]

theorem Started.aeadTag {key nonce aad ct : List UByte} {ctx : Aead}
    (h : Started key nonce aad ct ctx) (haad : aad.length < 2 ^ 32) (hct : ct.length < 2 ^ 32) :
    aeadTag ctx = poly1305 (oneTimeKey key nonce) (macData aad ct) := by
  have hd := h.startData
  have hlengths := lengthsBlock_eq haad hct
  rw [← hd.aadLength, ← hd.dataLength] at hlengths
  have hmac := (hd.mac.pad16 hd.dataLength).update
    (lengthsBlock (Crypto68k.startData ctx).aadLength (Crypto68k.startData ctx).dataLength)
  have hfinish := hmac.finish (length_oneTimeKey key nonce)
  rw [hlengths, hd.aadLength, hd.dataLength, ← List.append_assoc] at hfinish
  rw [Crypto68k.aeadTag, hlengths, hd.aadLength, hd.dataLength]
  exact hfinish

/-! ### Whole records -/

/-- The RFC's cipher, in the key stream's terms. -/
theorem chacha20_eq (key nonce m : List UByte) :
    chacha20 key nonce 1 m =
      List.zipWith (· ^^^ ·) m (keystream (chachaStart key nonce 1) 0 m.length) := by
  obtain ⟨k, hk⟩ : ∃ k, k = (m.length + 63) / 64 := ⟨_, rfl⟩
  obtain ⟨rest, hrest⟩ : ∃ rest, 64 * k = m.length + rest := ⟨64 * k - m.length, by omega⟩
  have hblocks : ((List.range k).flatMap fun j ↦
      chachaBlock (chachaStart key nonce (BitVec.ofNat 32 (1 + j)))) =
      keystream (chachaStart key nonce 1) 0 (64 * k) := by
    rw [keystream_blocks]
    exact List.flatMap_congr fun j _ ↦ congrArg chachaBlock (advance_chachaStart key nonce 1 j).symm
  rw [chacha20, ← hk, hblocks, hrest, keystream_add]
  nth_rewrite 1 [← List.append_nil m]
  rw [List.zipWith_append (by simp), List.zipWith_nil_left, List.append_nil]

theorem length_chacha20 (key nonce m : List UByte) :
    (chacha20 key nonce 1 m).length = m.length := by
  simp [chacha20_eq]

/-- The cipher undoes itself. -/
theorem zipWith_xor_zipWith_xor {x ks : List UByte} (h : x.length = ks.length) :
    List.zipWith (· ^^^ ·) (List.zipWith (· ^^^ ·) x ks) ks = x := by
  induction x generalizing ks with
  | nil => rfl
  | cons b x ih =>
    cases ks with
    | nil => cases h
    | cons k ks =>
      rw [List.zipWith_cons_cons, List.zipWith_cons_cons, ih (by simpa using h),
        BitVec.xor_assoc, BitVec.xor_self, BitVec.xor_zero]

/-- **A record.** Both directions, in any pieces: the output is the input under the cipher, and
the tag is the one of the ciphertext. -/
theorem aeadRun_spec (encrypting : Bool) (key nonce : List UByte) {aads : List (List UByte)}
    {calls : List XorCall} (hok : ∀ c ∈ calls, c.Ok) (haad : aads.flatten.length < 2 ^ 32)
    (hlen : (calls.flatMap XorCall.input).length < 2 ^ 32) :
    let input := calls.flatMap XorCall.input
    let output := chacha20 key nonce 1 input
    aeadRun (dataCall encrypting) key nonce aads calls =
      (output, poly1305 (oneTimeKey key nonce)
        (macData aads.flatten (cipherSide encrypting input output))) := by
  obtain ⟨hout, hstarted⟩ := dataRun_spec encrypting hok
    (.inl ⟨aadSeen_foldl key nonce aads haad, rfl⟩) (by rwa [List.length_nil, Nat.zero_add])
  rw [List.length_nil, ← chacha20_eq] at hout
  rw [hout, List.nil_append] at hstarted
  have hside : (cipherSide encrypting (calls.flatMap XorCall.input)
      (chacha20 key nonce 1 (calls.flatMap XorCall.input))).length < 2 ^ 32 := by
    rw [cipherSide]
    split_ifs
    · rwa [length_chacha20]
    · exact hlen
  rw [aeadRun]
  dsimp only
  rw [hout, hstarted.aeadTag haad hside]

/-- **The AEAD of RFC 8439, whatever the calls.** A record encrypted in any pieces gives the RFC's
ciphertext and tag; that ciphertext decrypted in any other pieces gives back the plaintext and the
same tag. -/
theorem aeadRun_eq_rfcAead (key nonce aad pt : List UByte) (haad : aad.length < 2 ^ 32)
    (hpt : pt.length < 2 ^ 32) :
    (∀ (aads : List (List UByte)) (calls : List XorCall), aads.flatten = aad →
      calls.flatMap XorCall.input = pt → (∀ c ∈ calls, c.Ok) →
      aeadRun aeadEncrypt key nonce aads calls = rfcAead key nonce aad pt) ∧
    (∀ (aads : List (List UByte)) (calls : List XorCall), aads.flatten = aad →
      calls.flatMap XorCall.input = (rfcAead key nonce aad pt).1 → (∀ c ∈ calls, c.Ok) →
      aeadRun aeadDecrypt key nonce aads calls = (pt, (rfcAead key nonce aad pt).2)) := by
  constructor
  · intro aads calls ha hc hok
    subst ha hc
    exact aeadRun_spec true key nonce hok haad hpt
  · intro aads calls ha hc hok
    subst ha
    have hinput : calls.flatMap XorCall.input = chacha20 key nonce 1 pt := hc
    have hrun := aeadRun_spec false key nonce hok haad (by rwa [hinput, length_chacha20])
    have hback : chacha20 key nonce 1 (chacha20 key nonce 1 pt) = pt := by
      rw [chacha20_eq, length_chacha20, chacha20_eq, zipWith_xor_zipWith_xor (by simp)]
    rw [hinput] at hrun
    dsimp only at hrun
    rw [hback] at hrun
    exact hrun

/-- An in-place call on memory that holds `x` from address 0 on. -/
def XorCall.inPlace (x : List UByte) : XorCall where
  mem := fun i ↦ x.getD i 0
  src := 0
  dst := 0
  length := x.length

theorem XorCall.input_inPlace (x : List UByte) : (XorCall.inPlace x).input = x := by
  apply List.ext_getElem
  · simp [XorCall.inPlace]
  · intro i _ hi
    simp [XorCall.input, XorCall.inPlace, Memory.read, hi]

/-- The key, the nonce, the additional data and the plaintext of RFC 8439 section 2.8.2. -/
def aeadKey : List UByte := (List.range 32).map fun i ↦ BitVec.ofNat 8 (0x80 + i)

@[inherit_doc aeadKey]
def aeadNonce : List UByte := [7, 0, 0, 0, 0x40, 0x41, 0x42, 0x43, 0x44, 0x45, 0x46, 0x47]

@[inherit_doc aeadKey]
def aeadAad : List UByte := [0x50, 0x51, 0x52, 0x53, 0xc0, 0xc1, 0xc2, 0xc3, 0xc4, 0xc5, 0xc6, 0xc7]

@[inherit_doc aeadKey]
def aeadPlaintext : List UByte :=
  asciiBytes ("Ladies and Gentlemen of the class of '99: If I could offer you only one tip for " ++
    "the future, sunscreen would be it.")

/-- The record of RFC 8439 section 2.8.2, encrypted in place in two calls and an empty one, and
decrypted in one: the tag and the first and last bytes of the ciphertext are the published ones. -/
theorem aeadRun_published :
    let sealed := rfcAead aeadKey aeadNonce aeadAad aeadPlaintext
    aeadRun aeadEncrypt aeadKey aeadNonce [aeadAad.take 5, [], aeadAad.drop 5]
        [.inPlace (aeadPlaintext.take 70), .inPlace [], .inPlace (aeadPlaintext.drop 70)] = sealed ∧
    aeadRun aeadDecrypt aeadKey aeadNonce [aeadAad] [.inPlace sealed.1] =
      (aeadPlaintext, sealed.2) ∧
    BigEndian.value (sealed.1.take 16) = 0xd31a8d34648e60db7b86afbc53ef7ec2 ∧
    BigEndian.value (sealed.1.drop 98) = 0xdef08e4b7a9de576d26586cec64b6116 ∧
    BigEndian.value sealed.2 = 0x1ae10b594f09e26a7e902ecbd0600691 := by
  obtain ⟨henc, hdec⟩ := aeadRun_eq_rfcAead aeadKey aeadNonce aeadAad aeadPlaintext (by decide)
    (by decide +kernel)
  refine ⟨henc _ _ rfl ?_ ?_, hdec _ _ (List.append_nil _) ?_ ?_, by decide +kernel⟩
  · simp only [List.flatMap_cons, List.flatMap_nil, XorCall.input_inPlace, List.nil_append,
      List.append_nil, List.take_append_drop]
  · simp [XorCall.Ok, XorCall.inPlace]
  · rw [List.flatMap_singleton, XorCall.input_inPlace]
  · simp [XorCall.Ok, XorCall.inPlace]

end AmiNetXDuo.Crypto68k
