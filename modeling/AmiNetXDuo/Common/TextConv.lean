import Mathlib.Data.List.Basic

/-!
# UTF-8 and the local codeset

The exact conversion of `textconv.c`, which names use: every character has to be in the codeset of
the machine. It works in place, behind what it has read.

A codeset gives a character to each byte from `0xA0` on; the bytes from `0x80` to `0x9F` are the C1
controls in every codeset.

## Main definitions

* `TxtCodeset`, `TxtDec` : a codeset, and the decoder's state.
* `txtUtf8ToLocalExact` : the conversion.

## Main results

* `txtUtf8ToLocalExact_mem` : a byte that comes out is a byte that went in, or is not ASCII.
-/

namespace AmiNetXDuo.Common

/-- `txt_codeset`, the fields that an exact conversion uses. -/
structure TxtCodeset where
  /-- `upper`, the code points of the bytes from `0x80` on. -/
  upper : Option (Fin 128 → UInt16)
  utf8 : Bool

/-- `txt_dec`. -/
structure TxtDec where
  cp : Nat
  need : Nat
  len : Nat
  deriving DecidableEq, Repr

/-- The `TXT_` codes of a failed conversion. -/
inductive TxtError
  | badUtf8
  | unmappable
  | tooLong
  deriving DecidableEq, Repr

/-- `tc_byte()`: the byte for a code point from `0xA0` on. -/
def tcByte (cs : Option TxtCodeset) (cp : Nat) : Option UInt8 :=
  match cs.bind TxtCodeset.upper with
  | none => if 0xA0 ≤ cp ∧ cp ≤ 0xFF then some (UInt8.ofNat cp) else none
  | some upper =>
    ((List.finRange 128).find? fun i ↦ decide (0x20 ≤ i.1) && decide ((upper i).toNat = cp)).map
      fun i ↦ UInt8.ofNat (0x80 + i.1)

/-- `tc_valid()`. -/
def tcValid (d : TxtDec) : Bool :=
  decide (([0, 0, 0x80, 0x800, 0x10000].getD d.len 0) ≤ d.cp) && decide (d.cp ≤ 0x10FFFF) &&
    !(decide (0xD800 ≤ d.cp) && decide (d.cp ≤ 0xDFFF))

/-- `tc_lead()`. -/
def tcLead (b : UInt8) : Option TxtDec :=
  if 0xC2 ≤ b ∧ b ≤ 0xDF then some ⟨(b &&& 0x1F).toNat, 1, 2⟩
  else if 0xE0 ≤ b ∧ b ≤ 0xEF then some ⟨(b &&& 0x0F).toNat, 2, 3⟩
  else if 0xF0 ≤ b ∧ b ≤ 0xF4 then some ⟨(b &&& 0x07).toNat, 3, 4⟩
  else none

/-- What one byte does to the conversion: how many bytes go out, and the decoder's state. -/
inductive TxtStep
  /-- The sequence is not complete. -/
  | more (d : TxtDec)
  /-- One byte goes out. -/
  | byte (d : TxtDec) (b : UInt8)
  /-- The sequence goes out as it came. -/
  | same (d : TxtDec)
  | error (e : TxtError)
  deriving DecidableEq, Repr

/-- The end of a sequence. -/
def txtExactDone (cs : Option TxtCodeset) (d : TxtDec) : TxtStep :=
  if tcValid d = false then .error .badUtf8
  else if cs.any TxtCodeset.utf8 then .same d
  else if d.cp < 0xA0 then .byte d (UInt8.ofNat d.cp)
  else
    match tcByte cs d.cp with
    | none => .error .unmappable
    | some b => .byte d b

/-- One byte of `txt_utf8_to_local_exact()`. -/
def txtExactStep (cs : Option TxtCodeset) (d : TxtDec) (b : UInt8) : TxtStep :=
  if 0 < d.need then
    if b &&& 0xC0 ≠ 0x80 then .error .badUtf8
    else
      let d : TxtDec := ⟨d.cp * 64 + (b &&& 0x3F).toNat, d.need - 1, d.len⟩
      if 0 < d.need then .more d else txtExactDone cs d
  else if 0x80 ≤ b then
    match tcLead b with
    | none => .error .badUtf8
    | some d => .more d
  else .byte d b

/-- A run of bytes written over those of a buffer, one after the other, where each is read from the
buffer when it is its turn. -/
def copyWithin : Nat → List UInt8 → Nat → Nat → List UInt8
  | 0, buf, _, _ => buf
  | n + 1, buf, dst, src => copyWithin n (buf.set dst (buf.getD src 0)) (dst + 1) (src + 1)

/-- The loop of `txt_utf8_to_local_exact()` in place: with `n` bytes to come at `i`, and `o` bytes
written. -/
def txtExactLoop (cs : Option TxtCodeset) (cap : Nat) : Nat → List UInt8 → Nat → Nat → TxtDec →
    Except TxtError (List UInt8)
  | 0, buf, _, o, d => if 0 < d.need then .error .badUtf8 else .ok (buf.take o)
  | n + 1, buf, i, o, d =>
    match txtExactStep cs d (buf.getD i 0) with
    | .error e => .error e
    | .more d => txtExactLoop cs cap n buf (i + 1) o d
    | .byte d b =>
      if cap ≤ o then .error .tooLong
      else txtExactLoop cs cap n (buf.set o b) (i + 1) (o + 1) d
    | .same d =>
      if cap < o + d.len then .error .tooLong
      else txtExactLoop cs cap n (copyWithin d.len buf o (i + 1 - d.len)) (i + 1) (o + d.len) d

/-- `txt_utf8_to_local_exact()` in place, for a buffer of as many bytes as there are. -/
def txtUtf8ToLocalExact (cs : Option TxtCodeset) (buf : List UInt8) :
    Except TxtError (List UInt8) :=
  txtExactLoop cs buf.length buf.length buf 0 0 ⟨0, 0, 0⟩

/-! ### What comes out -/

section Bytes

variable {cs : Option TxtCodeset}

theorem tcByte_ge {cp : Nat} {b : UInt8} (h : tcByte cs cp = some b) : 0x80 ≤ b := by
  rw [tcByte] at h
  split at h
  · split_ifs at h with hcp
    obtain rfl := Option.some.inj h
    rw [UInt8.le_iff_toNat_le, UInt8.toNat_ofNat']
    simp
    omega
  · obtain ⟨i, -, rfl⟩ := Option.map_eq_some_iff.mp h
    have hi := i.2
    rw [UInt8.le_iff_toNat_le, UInt8.toNat_ofNat']
    simp
    omega

/-- Before the byte at `i`, a sequence that is not complete has the length its first byte says. -/
def TxtDec.Ok (i : Nat) (d : TxtDec) : Prop :=
  0 < d.need → (2 ≤ d.len ∧ d.len ≤ 4) ∧ d.len ≤ i + d.need

theorem tcLead_ok {b : UInt8} {d : TxtDec} (h : tcLead b = some d) (i : Nat) : d.Ok (i + 1) := by
  rw [tcLead] at h
  split_ifs at h <;> obtain rfl := Option.some.inj h <;> intro _ <;> simp

theorem tcValid_ge {d : TxtDec} (hlen : 2 ≤ d.len ∧ d.len ≤ 4) (h : tcValid d = true) :
    0x80 ≤ d.cp := by
  simp only [tcValid, Bool.and_eq_true, decide_eq_true_eq] at h
  have hleast : ∀ n < 5, 2 ≤ n → 0x80 ≤ [0, 0, 0x80, 0x800, 0x10000].getD n 0 := by decide
  exact Nat.le_trans (hleast d.len (by omega) hlen.1) h.1.1

/-- After the byte `b` at `i`: a byte that goes out is the one that came in, or is not ASCII. -/
def TxtStep.Ok (i : Nat) (b : UInt8) : TxtStep → Prop
  | .error _ => True
  | .more d => d.Ok (i + 1)
  | .byte d c => d.need = 0 ∧ (c = b ∨ 0x80 ≤ c)
  | .same d => d.need = 0 ∧ d.len ≤ i + 1

theorem txtExactDone_ok {d : TxtDec} {i : Nat} (hneed : d.need = 0)
    (hlen : (2 ≤ d.len ∧ d.len ≤ 4) ∧ d.len ≤ i + 1) (b : UInt8) :
    (txtExactDone cs d).Ok i b := by
  rw [txtExactDone]
  by_cases hvalid : tcValid d = false
  · rw [if_pos hvalid]
    trivial
  rw [if_neg hvalid]
  have hcp := tcValid_ge hlen.1 (by simpa using hvalid)
  by_cases hsame : cs.any TxtCodeset.utf8 = true
  · rw [if_pos hsame]
    exact ⟨hneed, hlen.2⟩
  rw [if_neg hsame]
  by_cases hc1 : d.cp < 0xA0
  · rw [if_pos hc1]
    refine ⟨hneed, .inr ?_⟩
    rw [UInt8.le_iff_toNat_le, UInt8.toNat_ofNat']
    simp
    omega
  rw [if_neg hc1]
  cases hbyte : tcByte cs d.cp with
  | none => trivial
  | some c => exact ⟨hneed, .inr (tcByte_ge hbyte)⟩

theorem txtExactStep_ok {d : TxtDec} {i : Nat} (hd : d.Ok i) (b : UInt8) :
    (txtExactStep cs d b).Ok i b := by
  rw [txtExactStep]
  by_cases hneed : 0 < d.need
  · rw [if_pos hneed]
    obtain ⟨hlen, hseen⟩ := hd hneed
    by_cases hb : b &&& 0xC0 ≠ 0x80
    · rw [if_pos hb]
      trivial
    rw [if_neg hb]
    dsimp only
    by_cases hmore : 0 < d.need - 1
    · rw [if_pos hmore]
      exact fun _ ↦ ⟨hlen, by dsimp only; omega⟩
    · rw [if_neg hmore]
      have hdone : d.need - 1 = 0 := by omega
      have hwhole : d.len ≤ i + 1 := by omega
      exact txtExactDone_ok (d := ⟨d.cp * 64 + (b &&& 0x3F).toNat, d.need - 1, d.len⟩) hdone
        ⟨hlen, hwhole⟩ b
  · rw [if_neg hneed]
    split_ifs
    · cases hlead : tcLead b with
      | none => trivial
      | some d' => exact tcLead_ok hlead i
    · exact ⟨by omega, .inl rfl⟩

variable {P : UInt8 → Prop}

theorem forall_mem_set {buf : List UInt8} {b : UInt8} (h : ∀ c ∈ buf, P c) (hb : P b) (i : Nat) :
    ∀ c ∈ buf.set i b, P c := by
  intro c hc
  rcases List.mem_or_eq_of_mem_set hc with hc | rfl
  · exact h c hc
  · exact hb

theorem getD_of_forall_mem {buf : List UInt8} (h : ∀ c ∈ buf, P c) {i : Nat} (hi : i < buf.length) :
    P (buf.getD i 0) := by
  rw [List.getD_eq_getElem?_getD, List.getElem?_eq_getElem hi]
  exact h _ (List.getElem_mem hi)

theorem copyWithin_mem {n : Nat} {buf : List UInt8} {dst src : Nat} (h : ∀ c ∈ buf, P c)
    (hsrc : src + n ≤ buf.length) :
    (copyWithin n buf dst src).length = buf.length ∧ ∀ c ∈ copyWithin n buf dst src, P c := by
  induction n generalizing buf dst src with
  | zero => exact ⟨rfl, h⟩
  | succ n ih =>
    have hset := forall_mem_set h (getD_of_forall_mem h (by omega : src < buf.length)) dst
    have hsrc' : src + 1 + n ≤ (buf.set dst (buf.getD src 0)).length := by
      rw [List.length_set]
      omega
    obtain ⟨hlen, hmem⟩ := @ih _ (dst + 1) (src + 1) hset hsrc'
    exact ⟨hlen.trans (List.length_set ..), hmem⟩

/-- The loop, with the bytes that may be in the buffer: those that are not ASCII are among them. -/
theorem txtExactLoop_mem (hP : ∀ c, 0x80 ≤ c → P c) {cap n i o : Nat} {buf out : List UInt8}
    {d : TxtDec} (hd : d.Ok i) (hbuf : ∀ c ∈ buf, P c) (hn : i + n = buf.length)
    (h : txtExactLoop cs cap n buf i o d = .ok out) :
    (∀ c ∈ out, P c) ∧ out.length ≤ buf.length := by
  induction n generalizing buf i o d with
  | zero =>
    rw [txtExactLoop] at h
    split_ifs at h
    obtain rfl := Except.ok.inj h
    exact ⟨fun c hc ↦ hbuf c (List.mem_of_mem_take hc), by simp only [List.length_take]; omega⟩
  | succ n ih =>
    rw [txtExactLoop] at h
    have hb : P (buf.getD i 0) := getD_of_forall_mem hbuf (by omega)
    have hok := @txtExactStep_ok cs d i hd (buf.getD i 0)
    cases hstep : txtExactStep cs d (buf.getD i 0) with
    | error e =>
      rw [hstep] at h
      cases h
    | more d' =>
      rw [hstep] at h hok
      exact ih hok hbuf (by omega) h
    | byte d' c =>
      rw [hstep] at h hok
      dsimp only at h
      split_ifs at h
      have hc : P c := hok.2.elim (fun heq ↦ heq ▸ hb) (hP c)
      have hset := ih (by simp [TxtDec.Ok, hok.1]) (forall_mem_set hbuf hc o) (by simp; omega) h
      exact ⟨hset.1, by simpa using hset.2⟩
    | same d' =>
      rw [hstep] at h hok
      dsimp only at h
      split_ifs at h
      have hlen := hok.2
      have hsrc : i + 1 - d'.len + d'.len ≤ buf.length := by omega
      have hcopy := @copyWithin_mem P d'.len buf o (i + 1 - d'.len) hbuf hsrc
      have hrest := ih (by simp [TxtDec.Ok, hok.1]) hcopy.2 (by rw [hcopy.1]; omega) h
      exact ⟨hrest.1, hcopy.1 ▸ hrest.2⟩

/-- **What an exact conversion gives.** Each byte that comes out is one of those that went in, or is
not ASCII; and they are not more. -/
theorem txtUtf8ToLocalExact_mem {buf out : List UInt8} (h : txtUtf8ToLocalExact cs buf = .ok out) :
    (∀ c ∈ out, c ∈ buf ∨ 0x80 ≤ c) ∧ out.length ≤ buf.length :=
  txtExactLoop_mem (fun _ ↦ .inr) (by simp [TxtDec.Ok]) (fun _ ↦ .inl) (by simp) h

end Bytes

end AmiNetXDuo.Common
