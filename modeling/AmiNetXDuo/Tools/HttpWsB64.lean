import AmiNetXDuo.Config.Text

/-!
# The base64 of the WebSocket handshake

The key of a WebSocket handshake is sixteen bytes in base64 (`httpws.c`). The encoder takes three
bytes to four characters and pads the last group; the decoder shifts six bits for each character
into a register and gives out a byte whenever eight are there. It refuses what the encoder cannot
have written: characters behind the padding, a length that is not a multiple of four, and bits left
over that are not zero.

## Main definitions

* `b64Encode`, `httpWsB64Encode` : the groups, and the encoder with its buffer.
* `b64Step`, `b64Loop`, `b64Finish`, `httpWsB64Decode` : one character, all of them, the checks
  behind the last one, and the decoder.
* `B64State.Holds` : what is in the register between two characters.

## Main results

* `b64Loop_encode` : the decoder on a text of the encoder.
* `b64Encode_of_loop` : a text that the decoder accepts is the encoder's.
* `httpWsB64_exact` : both, for the functions with their buffers.
-/

namespace AmiNetXDuo.Tools

open AmiNetXDuo.Config (bytes cString)

/-! ### The encoder -/

/-- `ws_b64`. -/
def wsB64 : List UInt8 := bytes "ABCDEFGHIJKLMNOPQRSTUVWXYZabcdefghijklmnopqrstuvwxyz0123456789+/"

/-- The padding. -/
def padChar : UInt8 := '='.toUInt8

/-- `ws_b64[v & 0x3f]`. -/
def b64Char (v : ℕ) : UInt8 := wsB64.getD (v &&& 0x3f) 0

/-- The four characters of a group of `count` bytes. -/
def b64Quartet (v count : ℕ) : List UInt8 :=
  [b64Char (v >>> 18), b64Char (v >>> 12), if 1 < count then b64Char (v >>> 6) else padChar,
    if 2 < count then b64Char v else padChar]

/-- The loop of `http_ws_b64_encode`. -/
def b64Encode : List UInt8 → List UInt8
  | [] => []
  | [a] => b64Quartet (a.toNat <<< 16) 1
  | [a, b] => b64Quartet (a.toNat <<< 16 ||| b.toNat <<< 8) 2
  | a :: b :: c :: src =>
    b64Quartet (a.toNat <<< 16 ||| b.toNat <<< 8 ||| c.toNat) 3 ++ b64Encode src

/-- `http_ws_b64_encode`: the text in front of the terminating zero, `none` when the buffer is too
small. The length needed is a `ULONG`. -/
def httpWsB64Encode (src : List UInt8) (outlen : ℕ) : Option (List UInt8) :=
  let need := (src.length + 2) % 2 ^ 32 / 3 * 4 % 2 ^ 32
  if outlen ≤ need then none else some (b64Encode src)

/-! ### The decoder -/

/-- `ws_b64_value`; `none` is the source's -1. -/
def wsB64Value (c : UInt8) : Option ℕ :=
  if 'A'.toUInt8 ≤ c ∧ c ≤ 'Z'.toUInt8 then some (c.toNat - 'A'.toNat)
  else if 'a'.toUInt8 ≤ c ∧ c ≤ 'z'.toUInt8 then some (c.toNat - 'a'.toNat + 26)
  else if '0'.toUInt8 ≤ c ∧ c ≤ '9'.toUInt8 then some (c.toNat - '0'.toNat + 52)
  else if c = '+'.toUInt8 then some 62
  else if c = '/'.toUInt8 then some 63
  else none

/-- The variables of `http_ws_b64_decode`; `n` is the length of `out`. -/
structure B64State where
  acc : ℕ
  bits : ℕ
  out : List UInt8
  pad : ℕ
  got : ℕ
  deriving DecidableEq, Repr

/-- One character; `none` is the source's -1. -/
def b64Step (outlen : ℕ) (s : B64State) (c : UInt8) : Option B64State :=
  if c = padChar then
    if 2 < s.pad + 1 then none else some { s with pad := s.pad + 1, got := s.got + 1 }
  else if 0 < s.pad then none
  else match wsB64Value c with
    | none => none
    | some v =>
      let acc := (s.acc <<< 6 ||| v) % 2 ^ 32
      let bits := s.bits + 6
      if 8 ≤ bits then
        if outlen ≤ s.out.length then none
        else some ⟨acc, bits - 8, s.out ++ [UInt8.ofNat (acc >>> (bits - 8) &&& 0xff)], s.pad,
          s.got + 1⟩
      else some ⟨acc, bits, s.out, s.pad, s.got + 1⟩

/-- The loop over the characters. -/
def b64Loop (outlen : ℕ) : B64State → List UInt8 → Option B64State
  | s, [] => some s
  | s, c :: text => (b64Step outlen s c).bind (b64Loop outlen · text)

/-- What is checked behind the last character. -/
def b64Finish (s : B64State) : Option (List UInt8) :=
  if s.got % 4 ≠ 0 then none
  else if 0 < s.bits ∧ s.acc <<< (8 - s.bits) &&& 0xff ≠ 0 then none
  else some s.out

/-- `http_ws_b64_decode` without its result: what it has written when it did not give up. -/
def b64Decode (text : List UInt8) (outlen : ℕ) : Option (List UInt8) :=
  (b64Loop outlen ⟨0, 0, [], 0, 0⟩ (cString text)).bind b64Finish

/-- `http_ws_b64_decode`: the result, which is a `LONG`, and what has been written when the decoder
did not give up. -/
def httpWsB64Decode (text : List UInt8) (outlen : ℕ) : ℤ × List UInt8 :=
  match b64Decode text outlen with
  | none => (-1, [])
  | some out => ((BitVec.ofNat 32 out.length).toInt, out)

/-! ### Characters and their values -/

theorem wsB64Value_b64Char (v : ℕ) : wsB64Value (b64Char v) = some (v % 64) := by
  have htable : ∀ i < 64, wsB64Value (wsB64.getD i 0) = some i := by decide +kernel
  rw [b64Char, show v &&& 0x3f = v % 64 from Nat.and_two_pow_sub_one_eq_mod v 6]
  exact htable _ (Nat.mod_lt _ (by decide))

theorem ne_pad_of_value {c : UInt8} {v : ℕ} (h : wsB64Value c = some v) : c ≠ padChar := by
  rintro rfl
  rw [show wsB64Value padChar = none by decide] at h
  cases h

/-- A character of the alphabet is the one that stands for its value. -/
theorem b64Char_of_value {c : UInt8} {v : ℕ} (h : wsB64Value c = some v) :
    v < 64 ∧ b64Char v = c := by
  have htable : ∀ n < 256, ∀ v ∈ wsB64Value (UInt8.ofNat n),
      v < 64 ∧ b64Char v = UInt8.ofNat n := by
    decide +kernel
  have hc := htable c.toNat c.toNat_lt v
  rw [UInt8.ofNat_toNat] at hc
  exact hc h

theorem b64Char_mod (v : ℕ) : b64Char (v % 64) = b64Char v := by
  rw [b64Char, b64Char, show v &&& 0x3f = v % 64 from Nat.and_two_pow_sub_one_eq_mod v 6,
    show v % 64 &&& 0x3f = v % 64 % 64 from Nat.and_two_pow_sub_one_eq_mod _ 6, Nat.mod_mod]

/-! ### The register -/

/-- Between two characters: `r` is what the last `bits` bits of the register say. -/
structure B64State.Holds (s : B64State) (bits r : ℕ) (out : List UInt8) (got : ℕ) : Prop where
  bits_eq : s.bits = bits
  acc_mod : s.acc % 2 ^ bits = r
  out_eq : s.out = out
  got_eq : s.got = got
  pad_eq : s.pad = 0

/-- The register with six bits more. -/
theorem shiftIn_eq {acc v : ℕ} (hv : v < 64) : acc <<< 6 ||| v = acc * 64 + v := by
  rw [← Nat.shiftLeft_add_eq_or_of_lt (show v < 2 ^ 6 from hv), Nat.shiftLeft_eq]

variable {outlen : ℕ} {s : B64State} {c : UInt8} {v r got : ℕ} {out : List UInt8}

/-- The first character of a group. -/
theorem b64Step_first (outlen : ℕ) (h : s.Holds 0 0 out got) (hv : wsB64Value c = some v) :
    ∃ s', b64Step outlen s c = some s' ∧ s'.Holds 6 v out (got + 1) := by
  have hc := ne_pad_of_value hv
  have hlt := (b64Char_of_value hv).1
  refine ⟨⟨(s.acc <<< 6 ||| v) % 2 ^ 32, 6, s.out, s.pad, s.got + 1⟩, ?_, ?_⟩
  · rw [b64Step, if_neg hc, if_neg (by simp [h.pad_eq]), hv]
    simp [h.bits_eq]
  · refine ⟨rfl, ?_, h.out_eq, by simp [h.got_eq], h.pad_eq⟩
    simp only [shiftIn_eq hlt]
    omega

/-- The bits of the register that a byte and the rest are made of. -/
theorem register_mod (acc : ℕ) {b : ℕ} (hb : b ≤ 4) (v : ℕ) :
    (acc * 64 + v) % 2 ^ 32 % 2 ^ b = (acc % 2 ^ (b + 2) * 64 + v) % 2 ^ b ∧
      (acc * 64 + v) % 2 ^ 32 / 2 ^ b % 256 = (acc % 2 ^ (b + 2) * 64 + v) / 2 ^ b % 256 := by
  obtain rfl | rfl | rfl | rfl | rfl : b = 0 ∨ b = 1 ∨ b = 2 ∨ b = 3 ∨ b = 4 := by omega
  all_goals omega

/-- Any other character, with which a byte is complete. -/
theorem b64Step_byte {b : ℕ} (h : s.Holds (b + 2) r out got) (hb : b ≤ 4)
    (hv : wsB64Value c = some v) (hroom : out.length < outlen) :
    ∃ s', b64Step outlen s c = some s' ∧
      s'.Holds b ((r * 64 + v) % 2 ^ b) (out ++ [UInt8.ofNat ((r * 64 + v) / 2 ^ b)])
        (got + 1) := by
  have hc := ne_pad_of_value hv
  obtain ⟨hrest, hbyte⟩ := register_mod s.acc hb v
  rw [h.acc_mod] at hrest hbyte
  refine ⟨⟨(s.acc * 64 + v) % 2 ^ 32, b, out ++ [UInt8.ofNat ((r * 64 + v) / 2 ^ b)], 0, got + 1⟩,
    ?_, rfl, hrest, rfl, rfl, rfl⟩
  have hchar : UInt8.ofNat (((s.acc * 64 + v) % 2 ^ 32) >>> b &&& 0xff) =
      UInt8.ofNat ((r * 64 + v) / 2 ^ b) := by
    rw [Nat.shiftRight_eq_div_pow,
      show ∀ n, n &&& 0xff = n % 256 from fun n ↦ Nat.and_two_pow_sub_one_eq_mod n 8, hbyte]
    exact UInt8.ofNat_mod_size
  rw [b64Step, if_neg hc, if_neg (by simp [h.pad_eq]), hv]
  simp only [h.bits_eq, h.out_eq, h.pad_eq, h.got_eq, shiftIn_eq (b64Char_of_value hv).1]
  rw [if_pos (by omega), if_neg (by omega), show b + 2 + 6 - 8 = b by omega, hchar]

/-- There has to be room for the byte. -/
theorem length_lt_of_b64Step {b : ℕ} (h : s.Holds (b + 2) r out got) (hc : c ≠ padChar)
    {s' : B64State} (hstep : b64Step outlen s c = some s') : out.length < outlen := by
  by_contra hroom
  rw [b64Step, if_neg hc, if_neg (by simp [h.pad_eq])] at hstep
  cases hv : wsB64Value c with
  | none => simp [hv] at hstep
  | some v =>
    simp only [hv, h.bits_eq, h.out_eq] at hstep
    rw [if_pos (by omega), if_pos (by omega)] at hstep
    cases hstep

/-! ### Groups -/

/-- The value of a group of two bytes. -/
theorem pair_eq (a b : UInt8) :
    a.toNat <<< 16 ||| b.toNat <<< 8 = (a.toNat * 256 + b.toNat) * 256 := by
  have hb := b.toNat_lt
  rw [show 16 = 8 + 8 from rfl, Nat.shiftLeft_add, ← Nat.shiftLeft_or_distrib,
    ← Nat.shiftLeft_add_eq_or_of_lt (show b.toNat < 2 ^ 8 from hb), Nat.shiftLeft_eq a.toNat,
    Nat.shiftLeft_eq]

/-- The value of a group of three bytes. -/
theorem group_eq (a b c : UInt8) :
    a.toNat <<< 16 ||| b.toNat <<< 8 ||| c.toNat = a.toNat * 65536 + b.toNat * 256 + c.toNat := by
  have hc := c.toNat_lt
  rw [pair_eq, show ∀ n, n * 256 = n <<< 8 from fun n ↦ (Nat.shiftLeft_eq n 8).symm,
    ← Nat.shiftLeft_add_eq_or_of_lt (show c.toNat < 2 ^ 8 from hc), Nat.shiftLeft_eq]
  omega

/-- The first two characters of a group, which make one byte. -/
theorem b64Loop_two {c₀ c₁ : UInt8} {v₀ v₁ : ℕ} (h : s.Holds 0 0 out got)
    (h₀ : wsB64Value c₀ = some v₀) (h₁ : wsB64Value c₁ = some v₁) (hroom : out.length < outlen)
    (text : List UInt8) :
    ∃ s', b64Loop outlen s (c₀ :: c₁ :: text) = b64Loop outlen s' text ∧
      s'.Holds 4 (v₁ % 16) (out ++ [UInt8.ofNat ((v₀ * 64 + v₁) / 16)]) (got + 2) := by
  obtain ⟨s₁, hs₁, hh₁⟩ := b64Step_first outlen h h₀
  obtain ⟨s₂, hs₂, hh₂⟩ := b64Step_byte hh₁ (Nat.le_refl 4) h₁ hroom
  refine ⟨s₂, by simp [b64Loop, hs₁, hs₂], ?_⟩
  rwa [show (v₀ * 64 + v₁) % 2 ^ 4 = v₁ % 16 by omega] at hh₂

/-- The first three characters of a group, which make two bytes. -/
theorem b64Loop_three {c₀ c₁ c₂ : UInt8} {v₀ v₁ v₂ : ℕ} (h : s.Holds 0 0 out got)
    (h₀ : wsB64Value c₀ = some v₀) (h₁ : wsB64Value c₁ = some v₁) (h₂ : wsB64Value c₂ = some v₂)
    (hroom : out.length + 1 < outlen) (text : List UInt8) :
    ∃ s', b64Loop outlen s (c₀ :: c₁ :: c₂ :: text) = b64Loop outlen s' text ∧
      s'.Holds 2 (v₂ % 4) (out ++ [UInt8.ofNat ((v₀ * 64 + v₁) / 16),
        UInt8.ofNat ((v₁ % 16 * 64 + v₂) / 4)]) (got + 3) := by
  have hroom₂ : out.length < outlen := by omega
  obtain ⟨s₂, hs₂, hh₂⟩ := b64Loop_two h h₀ h₁ hroom₂ (c₂ :: text)
  obtain ⟨s₃, hs₃, hh₃⟩ := b64Step_byte (b := 2) hh₂ (by omega) h₂ (by simpa using hroom)
  refine ⟨s₃, by rw [hs₂, b64Loop, hs₃, Option.bind_some], ?_⟩
  rw [show (v₁ % 16 * 64 + v₂) % 2 ^ 2 = v₂ % 4 by omega, List.append_assoc] at hh₃
  exact hh₃

/-- A whole group of characters. -/
theorem b64Loop_group {c₀ c₁ c₂ c₃ : UInt8} {v₀ v₁ v₂ v₃ : ℕ} (h : s.Holds 0 0 out got)
    (h₀ : wsB64Value c₀ = some v₀) (h₁ : wsB64Value c₁ = some v₁) (h₂ : wsB64Value c₂ = some v₂)
    (h₃ : wsB64Value c₃ = some v₃) (hroom : out.length + 2 < outlen) (text : List UInt8) :
    ∃ s', b64Loop outlen s (c₀ :: c₁ :: c₂ :: c₃ :: text) = b64Loop outlen s' text ∧
      s'.Holds 0 0 (out ++ [UInt8.ofNat ((v₀ * 64 + v₁) / 16),
        UInt8.ofNat ((v₁ % 16 * 64 + v₂) / 4), UInt8.ofNat (v₂ % 4 * 64 + v₃)]) (got + 4) := by
  have hroom₃ : out.length + 1 < outlen := by omega
  obtain ⟨s₃, hs₃, hh₃⟩ := b64Loop_three h h₀ h₁ h₂ hroom₃ (c₃ :: text)
  obtain ⟨s₄, hs₄, hh₄⟩ := b64Step_byte (b := 0) hh₃ (by omega) h₃ (by simpa using hroom)
  refine ⟨s₄, by rw [hs₃, b64Loop, hs₄, Option.bind_some], ?_⟩
  rw [Nat.pow_zero, Nat.mod_one, Nat.div_one, List.append_assoc] at hh₄
  exact hh₄

/-- The padding, of a group that lacks one or two characters. -/
theorem b64Loop_pad (h : s.pad + 1 ≤ 2) (text : List UInt8) :
    b64Loop outlen s (padChar :: text) =
      b64Loop outlen { s with pad := s.pad + 1, got := s.got + 1 } text := by
  rw [b64Loop, b64Step, if_pos rfl, if_neg (by omega)]
  rfl

/-- The last check: whole groups, and nothing left in the register. -/
theorem b64Finish_eq_some_iff {s : B64State} (hbits : s.bits ≤ 8) {b : List UInt8} :
    b64Finish s = some b ↔ s.got % 4 = 0 ∧ s.acc % 2 ^ s.bits = 0 ∧ s.out = b := by
  have hleft : s.acc <<< (8 - s.bits) &&& 0xff = s.acc % 2 ^ s.bits * 2 ^ (8 - s.bits) := by
    rw [show ∀ n, n &&& 0xff = n % 2 ^ 8 from fun n ↦ Nat.and_two_pow_sub_one_eq_mod n 8,
      Nat.shiftLeft_eq, ← Nat.mul_mod_mul_right, ← Nat.pow_add, Nat.add_sub_cancel' hbits]
  have hzero : s.acc <<< (8 - s.bits) &&& 0xff = 0 ↔ s.acc % 2 ^ s.bits = 0 := by
    rw [hleft, Nat.mul_eq_zero, or_iff_left (by simp)]
  simp only [b64Finish, ne_eq, hzero]
  by_cases hgot : s.got % 4 = 0
  · by_cases hrest : s.acc % 2 ^ s.bits = 0
    · simp [hgot, hrest]
    · have hpos : 0 < s.bits := by
        rw [Nat.pos_iff_ne_zero]
        intro hnone
        exact hrest (by rw [hnone, Nat.pow_zero, Nat.mod_one])
      simp [hgot, hrest, hpos]
  · simp [hgot]

/-! ### A text of the encoder -/

/-- The bytes behind the values of four characters. -/
theorem group_bytes {n : ℕ} (hn : n < 2 ^ 24) :
    ((n >>> 18) % 64 * 64 + (n >>> 12) % 64) / 16 = n / 65536 ∧
      ((n >>> 12) % 64 % 16 * 64 + (n >>> 6) % 64) / 4 = n / 256 % 256 ∧
      (n >>> 6) % 64 % 4 * 64 + n % 64 = n % 256 := by
  simp only [Nat.shiftRight_eq_div_pow]
  omega

/-- A whole group of the encoder. -/
theorem b64Loop_quartet {n : ℕ} (hn : n < 2 ^ 24) (h : s.Holds 0 0 out got)
    (hroom : out.length + 2 < outlen) (text : List UInt8) :
    ∃ s', b64Loop outlen s (b64Quartet n 3 ++ text) = b64Loop outlen s' text ∧
      s'.Holds 0 0 (out ++ [UInt8.ofNat (n / 65536), UInt8.ofNat (n / 256 % 256),
        UInt8.ofNat (n % 256)]) (got + 4) := by
  obtain ⟨s', hs', hh'⟩ := b64Loop_group h (wsB64Value_b64Char (n >>> 18))
    (wsB64Value_b64Char (n >>> 12)) (wsB64Value_b64Char (n >>> 6)) (wsB64Value_b64Char n) hroom text
  obtain ⟨hfirst, hsecond, hthird⟩ := group_bytes hn
  rw [hfirst, hsecond, hthird] at hh'
  exact ⟨s', hs', hh'⟩

/-- The padding of a last group, or none behind a whole one, when nothing is left in the
register. -/
theorem b64Finish_pads {bits k : ℕ} (h : s.Holds bits 0 out got) (hbits : bits ≤ 8) (hk : k ≤ 2)
    (hgot : (got + k) % 4 = 0) :
    (b64Loop outlen s (List.replicate k padChar)).bind b64Finish = some out := by
  have hpads : b64Loop outlen s (List.replicate k padChar) =
      some { s with pad := s.pad + k, got := s.got + k } := by
    obtain rfl | rfl | rfl : k = 0 ∨ k = 1 ∨ k = 2 := by omega
    · rfl
    · exact b64Loop_pad (by simp [h.pad_eq]) []
    · exact (b64Loop_pad (by simp [h.pad_eq]) [padChar]).trans (b64Loop_pad (by simp [h.pad_eq]) [])
  rw [hpads, Option.bind_some, b64Finish_eq_some_iff (by simpa [h.bits_eq] using hbits)]
  simp [h.bits_eq, h.acc_mod, h.got_eq, h.out_eq, hgot]

/-- A last group of one byte. -/
theorem b64Finish_quartet_one {a : ℕ} (ha : a < 256) (h : s.Holds 0 0 out got)
    (hgot : got % 4 = 0) (hroom : out.length < outlen) :
    (b64Loop outlen s (b64Quartet (a * 65536) 1)).bind b64Finish =
      some (out ++ [UInt8.ofNat a]) := by
  obtain ⟨s₂, hs₂, hh₂⟩ := b64Loop_two h (wsB64Value_b64Char ((a * 65536) >>> 18))
    (wsB64Value_b64Char ((a * 65536) >>> 12)) hroom [padChar, padChar]
  obtain ⟨hbyte, -, -⟩ := group_bytes (show a * 65536 < 2 ^ 24 by omega)
  have hrest : (a * 65536) >>> 12 % 64 % 16 = 0 := by
    rw [Nat.shiftRight_eq_div_pow]
    omega
  rw [hrest, hbyte, Nat.mul_div_cancel _ (by decide)] at hh₂
  exact (congrArg (·.bind b64Finish) hs₂).trans
    (b64Finish_pads (k := 2) hh₂ (by decide) (by decide) (by omega))

/-- A last group of two bytes. -/
theorem b64Finish_quartet_two {n : ℕ} (hn : n < 65536) (h : s.Holds 0 0 out got)
    (hgot : got % 4 = 0) (hroom : out.length + 1 < outlen) :
    (b64Loop outlen s (b64Quartet (n * 256) 2)).bind b64Finish =
      some (out ++ [UInt8.ofNat (n / 256), UInt8.ofNat (n % 256)]) := by
  obtain ⟨s₃, hs₃, hh₃⟩ := b64Loop_three h (wsB64Value_b64Char ((n * 256) >>> 18))
    (wsB64Value_b64Char ((n * 256) >>> 12)) (wsB64Value_b64Char ((n * 256) >>> 6)) hroom [padChar]
  obtain ⟨hfirst, hsecond, -⟩ := group_bytes (show n * 256 < 2 ^ 24 by omega)
  have hrest : (n * 256) >>> 6 % 64 % 4 = 0 := by
    rw [Nat.shiftRight_eq_div_pow]
    omega
  rw [hrest, hfirst, hsecond, show n * 256 / 65536 = n / 256 by omega,
    show n * 256 / 256 % 256 = n % 256 by omega] at hh₃
  exact (congrArg (·.bind b64Finish) hs₃).trans
    (b64Finish_pads (k := 1) hh₃ (by decide) (by decide) (by omega))

/-- **A text of the encoder.** It is taken, and gives the bytes. -/
theorem b64Loop_encode (b : List UInt8) (h : s.Holds 0 0 out got) (hgot : got % 4 = 0)
    (hroom : out.length + b.length ≤ outlen) :
    (b64Loop outlen s (b64Encode b)).bind b64Finish = some (out ++ b) := by
  induction b using b64Encode.induct generalizing s out got with
  | case1 =>
    rw [List.append_nil]
    exact b64Finish_pads (k := 0) h (by decide) (by decide) hgot
  | case2 a =>
    rw [b64Encode, Nat.shiftLeft_eq]
    have hlast := b64Finish_quartet_one a.toNat_lt h hgot (show out.length < outlen from hroom)
    rwa [UInt8.ofNat_toNat] at hlast
  | case3 a b =>
    have ha := a.toNat_lt
    have hb := b.toNat_lt
    have hlast := b64Finish_quartet_two (show a.toNat * 256 + b.toNat < 65536 by omega) h hgot
      (show out.length + 1 < outlen from hroom)
    rw [show (a.toNat * 256 + b.toNat) / 256 = a.toNat by omega,
      show (a.toNat * 256 + b.toNat) % 256 = b.toNat by omega, UInt8.ofNat_toNat,
      UInt8.ofNat_toNat] at hlast
    rw [b64Encode, pair_eq]
    exact hlast
  | case4 a b c src ih =>
    have ha := a.toNat_lt
    have hb := b.toNat_lt
    have hc := c.toNat_lt
    rw [List.length_cons, List.length_cons, List.length_cons] at hroom
    obtain ⟨s', hs', hh'⟩ := b64Loop_quartet
      (show a.toNat * 65536 + b.toNat * 256 + c.toNat < 2 ^ 24 by omega) h
      (show out.length + 2 < outlen by omega) (b64Encode src)
    rw [show (a.toNat * 65536 + b.toNat * 256 + c.toNat) / 65536 = a.toNat by omega,
      show (a.toNat * 65536 + b.toNat * 256 + c.toNat) / 256 % 256 = b.toNat by omega,
      show (a.toNat * 65536 + b.toNat * 256 + c.toNat) % 256 = c.toNat by omega,
      UInt8.ofNat_toNat, UInt8.ofNat_toNat, UInt8.ofNat_toNat] at hh'
    rw [b64Encode, group_eq, hs', ih hh' (by omega) (by simp; omega), List.append_assoc]
    rfl

/-! ### A text that is accepted -/

/-- Behind the padding there is only padding. -/
theorem b64Loop_padded {text : List UInt8} {s' : B64State} (hpad : 0 < s.pad)
    (h : b64Loop outlen s text = some s') :
    ∃ k, text = List.replicate k padChar ∧ (0 < k → s.pad + k ≤ 2) ∧
      s' = { s with pad := s.pad + k, got := s.got + k } := by
  induction text generalizing s with
  | nil => exact ⟨0, rfl, by omega, (Option.some.inj h).symm⟩
  | cons c text ih =>
    have hc : c = padChar := by
      by_contra hne
      rw [b64Loop, b64Step, if_neg hne, if_pos hpad] at h
      cases h
    subst hc
    have hroom : s.pad + 1 ≤ 2 := by
      by_contra hfull
      rw [b64Loop, b64Step, if_pos rfl, if_pos (by omega)] at h
      cases h
    rw [b64Loop_pad hroom] at h
    obtain ⟨k, rfl, hk, rfl⟩ := ih (Nat.succ_pos _) h
    refine ⟨k + 1, rfl, fun _ ↦ ?_, ?_⟩
    · rcases Nat.eq_zero_or_pos k with rfl | hpos
      · omega
      · have := hk hpos
        simp only at this
        omega
    · simp only [Nat.add_assoc, Nat.add_comm 1 k]

/-- What can follow: the padding and the end, or a character that is taken. -/
theorem accepted_cases {bits : ℕ} {text b : List UInt8} (h : s.Holds bits r out got)
    (hbits : bits ≤ 8) (hacc : (b64Loop outlen s text).bind b64Finish = some b) :
    (∃ k ≤ 2, text = List.replicate k padChar ∧ (got + k) % 4 = 0 ∧ r = 0 ∧ b = out) ∨
      ∃ c v rest s', text = c :: rest ∧ wsB64Value c = some v ∧ b64Step outlen s c = some s' := by
  obtain ⟨last, hloop, hlast⟩ := Option.bind_eq_some_iff.mp hacc
  cases text with
  | nil =>
    obtain rfl := Option.some.inj hloop
    rw [b64Finish_eq_some_iff (h.bits_eq ▸ hbits), h.bits_eq, h.acc_mod, h.got_eq, h.out_eq]
      at hlast
    exact .inl ⟨0, by omega, rfl, hlast.1, hlast.2.1, hlast.2.2.symm⟩
  | cons c rest =>
    by_cases hc : c = padChar
    · subst hc
      rw [b64Loop_pad (by simp [h.pad_eq])] at hloop
      obtain ⟨k, rfl, hk, rfl⟩ := b64Loop_padded (Nat.succ_pos _) hloop
      simp only [h.pad_eq] at hk
      rw [b64Finish_eq_some_iff (by simpa [h.bits_eq] using hbits)] at hlast
      simp only [h.bits_eq, h.acc_mod, h.got_eq, h.out_eq] at hlast
      obtain ⟨hgot, hrest, hout⟩ := hlast
      refine .inl ⟨k + 1, ?_, rfl, by omega, hrest, hout.symm⟩
      rcases Nat.eq_zero_or_pos k with rfl | hpos
      · omega
      · have := hk hpos
        omega
    · obtain ⟨s', hstep, -⟩ := Option.bind_eq_some_iff.mp hloop
      cases hv : wsB64Value c with
      | none =>
        rw [b64Step, if_neg hc, if_neg (by simp [h.pad_eq]), hv] at hstep
        cases hstep
      | some v => exact .inr ⟨c, v, rest, s', rfl, hv, hstep⟩

/-- The first character of a group, or the end. -/
theorem accepted_first {text b : List UInt8} (h : s.Holds 0 0 out got)
    (hacc : (b64Loop outlen s text).bind b64Finish = some b) :
    (∃ k ≤ 2, text = List.replicate k padChar ∧ (got + k) % 4 = 0 ∧ b = out) ∨
      ∃ c v rest s', text = c :: rest ∧ wsB64Value c = some v ∧ s'.Holds 6 v out (got + 1) ∧
        (b64Loop outlen s' rest).bind b64Finish = some b := by
  obtain ⟨k, hk, htext, hgot, -, hout⟩ | ⟨c, v, rest, s', rfl, hv, hstep⟩ :=
    accepted_cases h (by omega) hacc
  · exact .inl ⟨k, hk, htext, hgot, hout⟩
  · obtain ⟨s₁, hs₁, hh₁⟩ := b64Step_first outlen h hv
    rw [b64Loop, hs₁, Option.bind_some] at hacc
    exact .inr ⟨c, v, rest, s₁, rfl, hv, hh₁, hacc⟩

/-- Any other character of a group, or the end. -/
theorem accepted_byte {n : ℕ} {text b : List UInt8} (h : s.Holds (n + 2) r out got) (hn : n ≤ 4)
    (hacc : (b64Loop outlen s text).bind b64Finish = some b) :
    (∃ k ≤ 2, text = List.replicate k padChar ∧ (got + k) % 4 = 0 ∧ r = 0 ∧ b = out) ∨
      ∃ c v rest s', text = c :: rest ∧ wsB64Value c = some v ∧
        s'.Holds n ((r * 64 + v) % 2 ^ n) (out ++ [UInt8.ofNat ((r * 64 + v) / 2 ^ n)]) (got + 1) ∧
        (b64Loop outlen s' rest).bind b64Finish = some b := by
  obtain hend | ⟨c, v, rest, s', rfl, hv, hstep⟩ := accepted_cases h (by omega) hacc
  · exact .inl hend
  · have hroom := length_lt_of_b64Step h (ne_pad_of_value hv) hstep
    obtain ⟨s₁, hs₁, hh₁⟩ := b64Step_byte h hn hv hroom
    rw [b64Loop, hs₁, Option.bind_some] at hacc
    exact .inr ⟨c, v, rest, s₁, rfl, hv, hh₁, hacc⟩

theorem toNat_ofNat_byte {n : ℕ} (h : n < 256) : (UInt8.ofNat n).toNat = n :=
  UInt8.toNat_ofNat_of_lt' h

/-- The characters of a group with four values. -/
theorem b64Quartet_eq {v₀ v₁ v₂ v₃ n : ℕ} (h₀ : v₀ < 64) (h₁ : v₁ < 64) (h₂ : v₂ < 64)
    (h₃ : v₃ < 64) (count : ℕ) (hn : n = ((v₀ * 64 + v₁) * 64 + v₂) * 64 + v₃) :
    b64Quartet n count = [b64Char v₀, b64Char v₁, if 1 < count then b64Char v₂ else padChar,
      if 2 < count then b64Char v₃ else padChar] := by
  rw [b64Quartet, ← b64Char_mod (n >>> 18), ← b64Char_mod (n >>> 12), ← b64Char_mod (n >>> 6),
    ← b64Char_mod n]
  simp only [Nat.shiftRight_eq_div_pow]
  rw [show n / 2 ^ 18 % 64 = v₀ by omega, show n / 2 ^ 12 % 64 = v₁ by omega,
    show n / 2 ^ 6 % 64 = v₂ by omega, show n % 64 = v₃ by omega]

theorem b64Encode_one {v₀ v₁ : ℕ} (h₀ : v₀ < 64) (h₁ : v₁ < 64) (hrest : v₁ % 16 = 0) :
    b64Encode [UInt8.ofNat ((v₀ * 64 + v₁) / 16)] =
      [b64Char v₀, b64Char v₁, padChar, padChar] := by
  rw [b64Encode, toNat_ofNat_byte (by omega), Nat.shiftLeft_eq]
  exact b64Quartet_eq h₀ h₁ (show 0 < 64 by decide) (show 0 < 64 by decide) 1 (by omega)

theorem b64Encode_two {v₀ v₁ v₂ : ℕ} (h₀ : v₀ < 64) (h₁ : v₁ < 64) (h₂ : v₂ < 64)
    (hrest : v₂ % 4 = 0) :
    b64Encode [UInt8.ofNat ((v₀ * 64 + v₁) / 16), UInt8.ofNat ((v₁ % 16 * 64 + v₂) / 4)] =
      [b64Char v₀, b64Char v₁, b64Char v₂, padChar] := by
  rw [b64Encode, pair_eq, toNat_ofNat_byte (by omega), toNat_ofNat_byte (by omega)]
  exact b64Quartet_eq h₀ h₁ h₂ (show 0 < 64 by decide) 2 (by omega)

theorem b64Encode_three {v₀ v₁ v₂ v₃ : ℕ} (h₀ : v₀ < 64) (h₁ : v₁ < 64) (h₂ : v₂ < 64)
    (h₃ : v₃ < 64) (src : List UInt8) :
    b64Encode (UInt8.ofNat ((v₀ * 64 + v₁) / 16) :: UInt8.ofNat ((v₁ % 16 * 64 + v₂) / 4) ::
        UInt8.ofNat (v₂ % 4 * 64 + v₃) :: src) =
      b64Char v₀ :: b64Char v₁ :: b64Char v₂ :: b64Char v₃ :: b64Encode src := by
  rw [b64Encode, group_eq, toNat_ofNat_byte (by omega), toNat_ofNat_byte (by omega),
    toNat_ofNat_byte (by omega), b64Quartet_eq h₀ h₁ h₂ h₃ 3 (by omega)]
  rfl

/-- **A text that is accepted.** It is the encoder's text of the bytes that were written. -/
theorem b64Encode_of_loop {text b : List UInt8} (h : s.Holds 0 0 out got) (hgot : got % 4 = 0)
    (hacc : (b64Loop outlen s text).bind b64Finish = some b) :
    ∃ src, b = out ++ src ∧ text = b64Encode src := by
  induction hn : text.length using Nat.strong_induction_on generalizing text s out got with
  | _ n ih =>
    -- the padding can only stand where a group lacks one or two characters
    obtain ⟨k, hk, rfl, hend, rfl⟩ | ⟨c₀, v₀, text, s₁, rfl, hv₀, hh₁, hacc⟩ :=
      accepted_first h hacc
    · obtain rfl : k = 0 := by omega
      exact ⟨[], by simp, rfl⟩
    obtain ⟨hlt₀, hc₀⟩ := b64Char_of_value hv₀
    obtain ⟨k, hk, rfl, hend, -, rfl⟩ | ⟨c₁, v₁, text, s₂, rfl, hv₁, hh₂, hacc⟩ :=
      accepted_byte (n := 4) hh₁ (by omega) hacc
    · omega
    obtain ⟨hlt₁, hc₁⟩ := b64Char_of_value hv₁
    rw [show (v₀ * 64 + v₁) % 2 ^ 4 = v₁ % 16 by omega] at hh₂
    obtain ⟨k, hk, rfl, hend, hrest, rfl⟩ | ⟨c₂, v₂, text, s₃, rfl, hv₂, hh₃, hacc⟩ :=
      accepted_byte (n := 2) hh₂ (by omega) hacc
    · obtain rfl : k = 2 := by omega
      refine ⟨_, rfl, ?_⟩
      rw [show (2 : ℕ) ^ 4 = 16 from rfl, b64Encode_one hlt₀ hlt₁ hrest, hc₀, hc₁]
      rfl
    obtain ⟨hlt₂, hc₂⟩ := b64Char_of_value hv₂
    rw [show (v₁ % 16 * 64 + v₂) % 2 ^ 2 = v₂ % 4 by omega] at hh₃
    obtain ⟨k, hk, rfl, hend, hrest, rfl⟩ | ⟨c₃, v₃, text, s₄, rfl, hv₃, hh₄, hacc⟩ :=
      accepted_byte (n := 0) hh₃ (by omega) hacc
    · obtain rfl : k = 1 := by omega
      refine ⟨_, List.append_assoc .., ?_⟩
      rw [List.singleton_append, show (2 : ℕ) ^ 4 = 16 from rfl, show (2 : ℕ) ^ 2 = 4 from rfl,
        b64Encode_two hlt₀ hlt₁ hlt₂ hrest, hc₀, hc₁, hc₂]
      rfl
    obtain ⟨hlt₃, hc₃⟩ := b64Char_of_value hv₃
    rw [Nat.pow_zero, Nat.mod_one, Nat.div_one] at hh₄
    obtain ⟨src, rfl, rfl⟩ := ih text.length (by simp at hn; omega) hh₄ (by omega) hacc rfl
    refine ⟨UInt8.ofNat ((v₀ * 64 + v₁) / 16) :: UInt8.ofNat ((v₁ % 16 * 64 + v₂) / 4) ::
      UInt8.ofNat (v₂ % 4 * 64 + v₃) :: src, by simp, ?_⟩
    rw [b64Encode_three hlt₀ hlt₁ hlt₂ hlt₃, hc₀, hc₁, hc₂, hc₃]

/-! ### The functions with their buffers -/

theorem zero_notMem_b64Encode (b : List UInt8) : 0 ∉ b64Encode b := by
  have hchar (v : ℕ) : (0 : UInt8) ≠ b64Char v := by
    intro h
    have hvalue := wsB64Value_b64Char v
    rw [← h, show wsB64Value 0 = none by decide] at hvalue
    cases hvalue
  have hpad : (0 : UInt8) ≠ padChar := by decide
  have hquartet (v count : ℕ) : 0 ∉ b64Quartet v count := by
    simp only [b64Quartet, List.mem_cons, List.not_mem_nil, or_false, not_or]
    refine ⟨hchar _, hchar _, ?_, ?_⟩
    · split_ifs
      · exact hchar _
      · exact hpad
    · split_ifs
      · exact hchar _
      · exact hpad
  induction b using b64Encode.induct with
  | case1 => simp [b64Encode]
  | case2 a => exact hquartet _ _
  | case3 a b => exact hquartet _ _
  | case4 a b c src ih =>
    rw [b64Encode, List.mem_append, not_or]
    exact ⟨hquartet _ _, ih⟩

/-- The decoder starts with nothing in the register. -/
theorem holds_start : (⟨0, 0, [], 0, 0⟩ : B64State).Holds 0 0 [] 0 := ⟨rfl, rfl, rfl, rfl, rfl⟩

/-- The length the encoder asks for, when it fits. -/
theorem httpWsB64Encode_eq {b : List UInt8} {outlen : ℕ} (hneed : (b.length + 2) / 3 * 4 < outlen)
    (houtlen : outlen ≤ 2 ^ 32) : httpWsB64Encode b outlen = some (b64Encode b) := by
  have hlength : (b.length + 2) % 2 ^ 32 = b.length + 2 := Nat.mod_eq_of_lt (by omega)
  rw [httpWsB64Encode, hlength, if_neg]
  omega

/-- **Base64 of the WebSocket handshake.** The decoder gives back the bytes of every text of the
encoder, where the bytes and the buffer of the text fit into the address space together; and a text
that it accepts as the bytes `b` is the encoder's text of `b`. -/
theorem httpWsB64_exact :
    (∀ (b : List UInt8) (outlen room : ℕ), b.length + outlen ≤ 2 ^ 32 →
      (b.length + 2) / 3 * 4 < outlen → b.length ≤ room →
      ∃ text, httpWsB64Encode b outlen = some text ∧
        httpWsB64Decode text room = ((b.length : ℤ), b)) ∧
    ∀ (text b : List UInt8) (room outlen : ℕ), httpWsB64Decode text room = ((b.length : ℤ), b) →
      (b.length + 2) / 3 * 4 < outlen → outlen ≤ 2 ^ 32 →
      httpWsB64Encode b outlen = some (cString text) := by
  constructor
  · intro b outlen room hspace hneed hroom
    refine ⟨b64Encode b, httpWsB64Encode_eq hneed (by omega), ?_⟩
    have hstring : cString (b64Encode b) = b64Encode b :=
      List.takeWhile_eq_self_iff.mpr fun c hc ↦ by
        have hzero : c ≠ 0 := fun h ↦ zero_notMem_b64Encode b (h ▸ hc)
        simpa using hzero
    have hlong : (BitVec.ofNat 32 b.length).toInt = b.length := by
      rw [BitVec.toInt_ofNat', Int.bmod_eq_of_le]
      · omega
      · omega
    have hdecode : b64Decode (b64Encode b) room = some b := by
      rw [b64Decode, hstring]
      exact b64Loop_encode b holds_start rfl (by simpa using hroom)
    rw [httpWsB64Decode, hdecode]
    simp only [hlong]
  · intro text b room outlen hdecode hneed houtlen
    rw [httpWsB64Encode_eq hneed houtlen]
    cases hrun : b64Decode text room with
    | none =>
      rw [httpWsB64Decode, hrun] at hdecode
      have hresult := congrArg Prod.fst hdecode
      simp only at hresult
      omega
    | some out =>
      rw [httpWsB64Decode, hrun] at hdecode
      obtain rfl : out = b := congrArg Prod.snd hdecode
      obtain ⟨src, rfl, htext⟩ := b64Encode_of_loop holds_start rfl hrun
      rw [htext]

/-- Four bytes, so that the last group is padded. -/
theorem httpWsB64_exact_four :
    (∃ text, httpWsB64Encode [0, 255, 16, 1] 16 = some text ∧
      httpWsB64Decode text 4 = (4, [0, 255, 16, 1])) ∧
    httpWsB64Encode [0, 255, 16, 1] 16 = some (cString (bytes "AP8QAQ==")) :=
  ⟨httpWsB64_exact.1 [0, 255, 16, 1] 16 4 (by decide) (by decide) (by decide),
    httpWsB64_exact.2 (bytes "AP8QAQ==") [0, 255, 16, 1] 4 16 (by decide +kernel) (by decide)
      (by decide)⟩

end AmiNetXDuo.Tools
