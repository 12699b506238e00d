import AmiNetXDuo.Basic
import AmiNetXDuo.Lib.MachineWord
import AmiNetXDuo.Lib.StreamMachine

/-!
# The decoder of chunked bodies

The state machine of `httpframe.c` that takes a chunked request body apart. Everything it is in the
middle of is in the `HttpChunk`, so it may be fed the body in pieces of any size. The loop copies
the data of a chunk in bulk; it is shown to do what a machine does that reads one byte at a time.

A body is measured against the grammar of RFC 9112, section 7.1. The decoder drops every CR of a
size line, wherever it stands, reads the line as a C string, and looks neither into a chunk
extension nor into a trailer. So it also takes bodies that the grammar does not have.

## Main definitions

* `HttpChunk`, `httpChunkFeed` : the decoder, with the calls of its sink.
* `chunkMachine` : the decoder as a machine on bytes.
* `ChunkedBody` : the grammar, with the data a body stands for.
* `ChunkLines` : the lines of a body, cut at each LF outside the data.
* `StrictPiece` : the lines that the grammar has.

## Main results

* `httpChunkFeed_eq` : the loop is the machine.
* `httpChunkFeedAll_eq` : the cuts of a stream are invisible.
* `ChunkLines.chunkedBody_iff` : the grammar by lines.
* `chunkedBody_of_done` : a stream that is read to its end is a chunked body, and the sink has its
  data, exactly when each of its lines is one of the grammar.
* `chunkedBody_strayCr` : in general a stream that is read to its end is no chunked body.
-/

namespace AmiNetXDuo.Tools

open MachineWord

/-! ### The decoder -/

/-- `HTTP_CHUNK_OFF` and the states behind it. -/
inductive ChunkState
  | off
  | size
  | data
  | crlf
  | trailer
  | done
  | error
  deriving DecidableEq, Repr

/-- `HTTP_CHUNK_LINE`. -/
def httpChunkLine : Nat := 40

/-- `HttpChunk`. -/
structure HttpChunk where
  state : ChunkState
  n : Nat
  left : Nat
  total : ULong
  line : Vector UInt8 httpChunkLine
  deriving DecidableEq, Repr

/-- The carriage return. -/
def cr : UInt8 := 0x0D

/-- The line feed. -/
def lf : UInt8 := 0x0A

/-- `http_chunk_start()`. -/
def httpChunkStart (ch : HttpChunk) : HttpChunk :=
  ⟨.size, 0, 0, 0, ch.line.setIfInBounds 0 0⟩

/-- The value of a hex digit. -/
def hexDigit (c : UInt8) : Option Nat :=
  if 0x30 ≤ c ∧ c ≤ 0x39 then some (c.toNat - 0x30)
  else if 0x61 ≤ c ∧ c ≤ 0x66 then some (c.toNat - 0x61 + 10)
  else if 0x41 ≤ c ∧ c ≤ 0x46 then some (c.toNat - 0x41 + 10)
  else none

/-- The loop of `hf_chunk_size()`, on the bytes from `p` on. -/
def hfChunkSizeLoop (size digits significant : Nat) : List UInt8 → Option Nat
  | [] => if digits = 0 then none else some size
  | c :: p =>
    match hexDigit c with
    | some d =>
      let significant := if 0 < significant ∨ d ≠ 0 then significant + 1 else significant
      if 8 < significant then none
      else hfChunkSizeLoop (w32 (size <<< 4) ||| d) (digits + 1) significant p
    | none => if digits = 0 then none else if c = 0 ∨ c = 0x3B then some size else none

/-- `hf_chunk_size()`. -/
def hfChunkSize (p : List UInt8) : Option Nat := hfChunkSizeLoop 0 0 0 p

/-- The tests of a size line that is complete: it is not empty, and it has a size. -/
def chunkLineSize (line : List UInt8) : Option Nat :=
  if line.head? = some 0 then none else hfChunkSize line

/-- `HTTP_CHUNK_SIZE`: a byte of a size line. -/
def chunkSizeByte (ch : HttpChunk) (c : UInt8) : HttpChunk :=
  if c ≠ lf then
    if c = cr then ch
    else if httpChunkLine ≤ ch.n + 1 then { ch with state := .error }
    else { ch with line := ch.line.setIfInBounds ch.n c, n := ch.n + 1 }
  else
    let line := ch.line.setIfInBounds ch.n 0
    match chunkLineSize line.toList with
    | none => { ch with line := line, n := 0, state := .error }
    | some left =>
      { ch with line := line, n := 0, left := left, state := if 0 < left then .data else .trailer }

/-- `HTTP_CHUNK_CRLF`: a byte behind the data. -/
def chunkCrlfByte (ch : HttpChunk) (c : UInt8) : HttpChunk :=
  if c = lf then { ch with state := .size }
  else if c ≠ cr then { ch with state := .error }
  else ch

/-- `HTTP_CHUNK_TRAILER`: a byte of the trailer lines. -/
def chunkTrailerByte (ch : HttpChunk) (c : UInt8) : HttpChunk :=
  if c = lf then { ch with state := if ch.n = 0 then .done else ch.state, n := 0 }
  else if c ≠ cr then { ch with n := 1 }
  else ch

/-- `HTTP_CHUNK_DATA`: `take` bytes of data. -/
def chunkDataTake (ch : HttpChunk) (take : Nat) : HttpChunk :=
  { ch with left := ch.left - take, total := ch.total + BitVec.ofNat 32 take,
            state := if ch.left - take = 0 then .crlf else .data }

/-- The condition of the loop on the state. -/
def chunkStopped (ch : HttpChunk) : Bool := ch.state = .done || ch.state = .error

/-- `http_chunk_feed()`: the state, the calls of the sink and the number of bytes consumed. -/
def httpChunkFeed (ch : HttpChunk) (data : List UInt8) : HttpChunk × List (List UInt8) × Nat :=
  match data with
  | [] => (ch, [], 0)
  | c :: rest =>
    if chunkStopped ch then (ch, [], 0)
    else
      match hs : ch.state with
      | .data =>
        let take := min (rest.length + 1) ch.left
        let r := httpChunkFeed (chunkDataTake ch take) ((c :: rest).drop take)
        (r.1, if 0 < take then (c :: rest).take take :: r.2.1 else r.2.1, r.2.2 + take)
      | .size => let r := httpChunkFeed (chunkSizeByte ch c) rest; (r.1, r.2.1, r.2.2 + 1)
      | .crlf => let r := httpChunkFeed (chunkCrlfByte ch c) rest; (r.1, r.2.1, r.2.2 + 1)
      | _ => let r := httpChunkFeed (chunkTrailerByte ch c) rest; (r.1, r.2.1, r.2.2 + 1)
termination_by 2 * data.length + if ch.state = .data then 1 else 0
decreasing_by
  all_goals simp_all [chunkDataTake]
  all_goals split_ifs <;> omega

/-- Consecutive calls of `http_chunk_feed()`, with what the sink was given in all and how much was
consumed in all. -/
def httpChunkFeedAll (ch : HttpChunk) : List (List UInt8) → HttpChunk × List UInt8 × Nat
  | [] => (ch, [], 0)
  | piece :: pieces =>
    let r := httpChunkFeed ch piece
    let r' := httpChunkFeedAll r.1 pieces
    (r'.1, r.2.1.flatten ++ r'.2.1, r.2.2 + r'.2.2)

/-! ### One byte at a time -/

/-- What one byte does. Data of length zero is left without reading the byte. -/
def chunkByte (ch : HttpChunk) (c : UInt8) : HttpChunk × List UInt8 :=
  match ch.state with
  | .size => (chunkSizeByte ch c, [])
  | .data =>
    if ch.left = 0 then (chunkCrlfByte (chunkDataTake ch 0) c, []) else (chunkDataTake ch 1, [c])
  | .crlf => (chunkCrlfByte ch c, [])
  | _ => (chunkTrailerByte ch c, [])

/-- The decoder as a machine that reads bytes. -/
def chunkMachine : StreamMachine HttpChunk UInt8 UInt8 := ⟨chunkByte, chunkStopped⟩

theorem chunkStopped_of_data {ch : HttpChunk} (h : ch.state = .data) : chunkStopped ch = false := by
  simp [chunkStopped, h]

theorem chunkDataTake_add (ch : HttpChunk) (a b : Nat) :
    chunkDataTake (chunkDataTake ch a) b = chunkDataTake ch (a + b) := by
  simp only [chunkDataTake, Nat.sub_sub, BitVec.ofNat_add, BitVec.add_assoc]

/-- Data is read byte by byte as it is read in bulk. -/
theorem chunkMachine_feed_data {ch : HttpChunk} (h : ch.state = .data) (d rest : List UInt8)
    (hd : d ≠ []) (hle : d.length ≤ ch.left) :
    chunkMachine.feed ch (d ++ rest) =
      ((chunkMachine.feed (chunkDataTake ch d.length) rest).1,
        d ++ (chunkMachine.feed (chunkDataTake ch d.length) rest).2.1,
        (chunkMachine.feed (chunkDataTake ch d.length) rest).2.2 + d.length) := by
  induction d generalizing ch with
  | nil => exact absurd rfl hd
  | cons c d ih =>
    rw [List.length_cons] at hle
    have hstep : chunkMachine.step ch c = (chunkDataTake ch 1, [c]) := by
      have hleft : ch.left ≠ 0 := by omega
      simp only [chunkMachine, chunkByte, h, hleft, if_false]
    rw [List.cons_append, StreamMachine.feed_cons (chunkStopped_of_data h), hstep]
    cases d with
    | nil => simp only [List.nil_append, List.length_singleton, List.singleton_append]
    | cons c' d =>
      have hdata : (chunkDataTake ch 1).state = .data := by
        rw [List.length_cons] at hle
        exact if_neg (by omega)
      rw [ih hdata (List.cons_ne_nil _ _) (by simp only [chunkDataTake]; omega),
        chunkDataTake_add ch 1]
      simp only [List.length_cons, List.cons_append, List.nil_append, Nat.add_comm 1, Nat.add_assoc]

/-- Data of length zero is left at once. -/
theorem chunkMachine_feed_noData {ch : HttpChunk} (h : ch.state = .data) (hleft : ch.left = 0)
    (c : UInt8) (rest : List UInt8) :
    chunkMachine.feed (chunkDataTake ch 0) (c :: rest) = chunkMachine.feed ch (c :: rest) := by
  have hcrlf : (chunkDataTake ch 0).state = .crlf := if_pos (by omega)
  have hstep : chunkMachine.step (chunkDataTake ch 0) c = chunkMachine.step ch c := by
    simp only [chunkMachine, chunkByte, h, hcrlf, hleft, if_true]
  have hrun : chunkMachine.halted (chunkDataTake ch 0) = false := by
    simp [chunkMachine, chunkStopped, hcrlf]
  rw [StreamMachine.feed_cons hrun, StreamMachine.feed_cons (chunkStopped_of_data h), hstep]

/-- **The loop is the machine**: it leaves the same state, its sink has been given the same bytes,
and as much was consumed. -/
theorem httpChunkFeed_eq (ch : HttpChunk) (data : List UInt8) :
    ((httpChunkFeed ch data).1, (httpChunkFeed ch data).2.1.flatten, (httpChunkFeed ch data).2.2) =
      chunkMachine.feed ch data := by
  -- A byte outside the data emits nothing, and the loop goes on behind it.
  have hbyte {ch ch' : HttpChunk} {c : UInt8} {rest : List UInt8} (hrun : ¬chunkStopped ch = true)
      (hstep : chunkByte ch c = (ch', []))
      (ih : ((httpChunkFeed ch' rest).1, (httpChunkFeed ch' rest).2.1.flatten,
        (httpChunkFeed ch' rest).2.2) = chunkMachine.feed ch' rest) :
      ((httpChunkFeed ch' rest).1, (httpChunkFeed ch' rest).2.1.flatten,
        (httpChunkFeed ch' rest).2.2 + 1) = chunkMachine.feed ch (c :: rest) := by
    rw [StreamMachine.feed_cons (Bool.eq_false_iff.mpr hrun),
      show chunkMachine.step ch c = (ch', []) from hstep, ← ih]
    rfl
  fun_induction httpChunkFeed ch data with
  | case1 ch => rfl
  | case2 ch c rest hstop => rw [StreamMachine.feed_halted hstop]; rfl
  | case3 ch c rest hrun hs take r ih =>
    rcases Nat.eq_zero_or_pos ch.left with hleft | hleft
    · have htake : take = 0 := by omega
      rw [← chunkMachine_feed_noData hs hleft]
      simpa only [htake, Nat.lt_irrefl, if_false, Nat.add_zero, List.drop_zero, r] using ih
    · have hpos : 0 < take := by omega
      have hlen : ((c :: rest).take take).length = take := by
        rw [List.length_take, List.length_cons]
        omega
      have hfeed := chunkMachine_feed_data hs ((c :: rest).take take) ((c :: rest).drop take)
        (by rw [← List.length_pos_iff_ne_nil]; omega) (by omega)
      rw [List.take_append_drop, hlen, ← ih] at hfeed
      rw [hfeed]
      simp only [if_pos hpos, List.flatten_cons, r]
  | case4 ch c rest hrun hs r ih => exact hbyte hrun (by simp only [chunkByte, hs]) ih
  | case5 ch c rest hrun hs r ih => exact hbyte hrun (by simp only [chunkByte, hs]) ih
  | case6 ch c rest hrun hsize hdata hcrlf r ih =>
    refine hbyte hrun ?_ ih
    unfold chunkByte
    split <;> simp_all

/-- **The cuts of a stream are invisible**: fed in any pieces, the decoder is left in the same
state, its sink has been given the same bytes, and as much was consumed, as for the stream in one
call. -/
theorem httpChunkFeedAll_eq (ch : HttpChunk) (pieces : List (List UInt8)) :
    httpChunkFeedAll ch pieces =
      ((httpChunkFeed ch pieces.flatten).1, (httpChunkFeed ch pieces.flatten).2.1.flatten,
        (httpChunkFeed ch pieces.flatten).2.2) := by
  rw [httpChunkFeed_eq, ← StreamMachine.feedAll_eq_feed_flatten]
  induction pieces generalizing ch with
  | nil => rfl
  | cons piece pieces ih =>
    rw [httpChunkFeedAll, StreamMachine.feedAll, ← httpChunkFeed_eq, ih]

/-! ### The grammar of RFC 9112 -/

/-- `tchar`: a visible character that is no delimiter. -/
def IsTchar (c : UInt8) : Prop :=
  0x21 ≤ c ∧ c ≤ 0x7E ∧ c ∉ [0x22, 0x28, 0x29, 0x2C, 0x2F, 0x3A, 0x3B, 0x3C, 0x3D, 0x3E, 0x3F, 0x40,
    0x5B, 0x5C, 0x5D, 0x7B, 0x7D]

/-- `token`. -/
structure IsToken (t : List UInt8) : Prop where
  nonempty : t ≠ []
  chars : ∀ c ∈ t, IsTchar c

/-- `BWS`. -/
def IsBlank (w : List UInt8) : Prop := ∀ c ∈ w, c = 0x20 ∨ c = 0x09

/-- A visible character, an octet from 0x80 on, a space or a tab. -/
def IsText (c : UInt8) : Prop := 0x20 ≤ c ∧ c ≠ 0x7F ∨ c = 0x09

/-- What stands between the quotes of a `quoted-string`: `qdtext` and `quoted-pair`. -/
inductive QuotedText : List UInt8 → Prop
  | nil : QuotedText []
  | text {c : UInt8} {q : List UInt8} (hc : IsText c) (hquote : c ≠ 0x22) (hback : c ≠ 0x5C)
      (hq : QuotedText q) : QuotedText (c :: q)
  | pair {c : UInt8} {q : List UInt8} (hc : IsText c) (hq : QuotedText q) :
      QuotedText (0x5C :: c :: q)

/-- `chunk-ext-val`. -/
def IsExtVal (v : List UInt8) : Prop := IsToken v ∨ ∃ q, QuotedText q ∧ v = 0x22 :: (q ++ [0x22])

/-- `chunk-ext`. -/
inductive ChunkExt : List UInt8 → Prop
  | nil : ChunkExt []
  | name {w w' name e : List UInt8} (hw : IsBlank w) (hw' : IsBlank w') (hname : IsToken name)
      (he : ChunkExt e) : ChunkExt (w ++ 0x3B :: (w' ++ (name ++ e)))
  | value {w w' name w₁ w₂ v e : List UInt8} (hw : IsBlank w) (hw' : IsBlank w')
      (hname : IsToken name) (hw₁ : IsBlank w₁) (hw₂ : IsBlank w₂) (hv : IsExtVal v)
      (he : ChunkExt e) :
      ChunkExt (w ++ 0x3B :: (w' ++ (name ++ (w₁ ++ 0x3D :: (w₂ ++ (v ++ e))))))

/-- The end of a line: CRLF, or the LF alone. -/
def LineEnd (e : List UInt8) : Prop := e = [cr, lf] ∨ e = [lf]

/-- The number hex digits stand for. -/
def hexValue (digits : List UInt8) : Nat :=
  digits.foldl (fun v c ↦ v * 16 + (hexDigit c).getD 0) 0

/-- A line `chunk-size [ chunk-ext ] CRLF` with its size. -/
def SizeLine (l : List UInt8) (size : Nat) : Prop :=
  ∃ digits ext e, digits ≠ [] ∧ (∀ c ∈ digits, (hexDigit c).isSome) ∧ ChunkExt ext ∧ LineEnd e ∧
    l = digits ++ (ext ++ e) ∧ hexValue digits = size

/-- `field-line`. -/
def FieldLine (l : List UInt8) : Prop :=
  ∃ name value, IsToken name ∧ (∀ c ∈ value, IsText c) ∧ l = name ++ 0x3A :: value

/-- `trailer-section CRLF`. -/
inductive TrailerPart : List UInt8 → Prop
  | blank {e : List UInt8} (he : LineEnd e) : TrailerPart e
  | field {l e rest : List UInt8} (hl : FieldLine l) (he : LineEnd e) (hrest : TrailerPart rest) :
      TrailerPart (l ++ e ++ rest)

/-- `chunked-body`, with its decoded data. The size zero, which only zeros stand for, is the last
chunk's. -/
inductive ChunkedBody : List UInt8 → List UInt8 → Prop
  | last {l t : List UInt8} (hl : SizeLine l 0) (ht : TrailerPart t) : ChunkedBody (l ++ t) []
  | chunk {l d e rest data : List UInt8} (hd : d ≠ []) (hl : SizeLine l d.length) (he : LineEnd e)
      (hrest : ChunkedBody rest data) : ChunkedBody (l ++ (d ++ (e ++ rest))) (d ++ data)

/-- Neither a NUL nor part of a line end. -/
def InLine (c : UInt8) : Prop := c ≠ 0 ∧ c ≠ cr ∧ c ≠ lf

theorem IsText.inLine {c : UInt8} (h : IsText c) : InLine c := by
  refine ⟨?_, ?_, ?_⟩ <;> rintro rfl <;> revert h <;> unfold IsText <;> decide

theorem IsTchar.isText {c : UInt8} (h : IsTchar c) : IsText c := by
  refine Or.inl ⟨UInt8.le_trans (by decide) h.1, ?_⟩
  rintro rfl
  exact absurd h.2.1 (by decide)

theorem IsToken.inLine {t : List UInt8} (h : IsToken t) : ∀ c ∈ t, InLine c :=
  fun c hc ↦ (h.chars c hc).isText.inLine

theorem IsBlank.inLine {w : List UInt8} (h : IsBlank w) : ∀ c ∈ w, InLine c := by
  intro c hc
  rcases h c hc with rfl | rfl <;> exact ⟨by decide, by decide, by decide⟩

theorem QuotedText.inLine {q : List UInt8} (h : QuotedText q) : ∀ c ∈ q, InLine c := by
  induction h with
  | nil => exact List.forall_mem_nil _
  | text hc _ _ _ ih => exact List.forall_mem_cons.mpr ⟨hc.inLine, ih⟩
  | pair hc _ ih =>
    exact List.forall_mem_cons.mpr ⟨⟨by decide, by decide, by decide⟩,
      List.forall_mem_cons.mpr ⟨hc.inLine, ih⟩⟩

theorem IsExtVal.inLine {v : List UInt8} (h : IsExtVal v) : ∀ c ∈ v, InLine c := by
  have hquote : InLine 0x22 := ⟨by decide, by decide, by decide⟩
  rcases h with ht | ⟨q, hq, rfl⟩
  · exact ht.inLine
  · exact List.forall_mem_cons.mpr ⟨hquote, List.forall_mem_append.mpr
      ⟨hq.inLine, List.forall_mem_singleton.mpr hquote⟩⟩

/-- A chunk extension stays inside its line. -/
theorem ChunkExt.inLine {e : List UInt8} (h : ChunkExt e) : ∀ c ∈ e, InLine c := by
  induction h with
  | nil => exact List.forall_mem_nil _
  | name hw hw' hname _ ih =>
    simp only [List.forall_mem_append, List.forall_mem_cons]
    exact ⟨hw.inLine, ⟨by decide, by decide, by decide⟩, hw'.inLine, hname.inLine, ih⟩
  | value hw hw' hname hw₁ hw₂ hv _ ih =>
    simp only [List.forall_mem_append, List.forall_mem_cons]
    exact ⟨hw.inLine, ⟨by decide, by decide, by decide⟩, hw'.inLine, hname.inLine, hw₁.inLine,
      ⟨by decide, by decide, by decide⟩, hw₂.inLine, hv.inLine, ih⟩

/-- A hex digit stays inside its line. -/
theorem inLine_of_hexDigit {c : UInt8} (h : (hexDigit c).isSome) : InLine c := by
  refine ⟨?_, ?_, ?_⟩ <;> rintro rfl <;> exact absurd h (by decide)

/-- The digits of a size line end where its extension starts. -/
theorem ChunkExt.head_hexDigit {e : List UInt8} (h : ChunkExt e) {rest : List UInt8}
    (hrest : ∀ c ∈ rest.head?, hexDigit c = none) : ∀ c ∈ (e ++ rest).head?, hexDigit c = none := by
  have hhead {w rest : List UInt8} (hw : IsBlank w) :
      ∀ c ∈ (w ++ 0x3B :: rest).head?, hexDigit c = none := by
    intro c hc
    cases w with
    | nil =>
      obtain rfl : 0x3B = c := Option.some.inj hc
      decide
    | cons b w =>
      obtain rfl : b = c := Option.some.inj hc
      rcases hw b List.mem_cons_self with rfl | rfl <;> decide
  cases h with
  | nil => exact hrest
  | name hw => rw [List.append_assoc]; exact hhead hw
  | value hw => rw [List.append_assoc]; exact hhead hw

/-! ### The size that is read -/

theorem hexDigit_lt {c : UInt8} {d : Nat} (h : hexDigit c = some d) : d < 16 := by
  simp only [hexDigit, UInt8.le_iff_toNat_le] at h
  split_ifs at h with h₁ h₂ h₃ <;> cases h <;> simp at * <;> omega

/-- One more digit, where the number so far leaves room for it. -/
theorem shift_digit {size d : Nat} (hd : d < 16) (h : size < 2 ^ 28) :
    w32 (size <<< 4) ||| d = size * 16 + d := by
  have hw : w32 (size <<< 4) = size <<< 4 := by
    rw [Nat.shiftLeft_eq]
    exact w32_of_lt (by omega)
  rw [hw, ← Nat.shiftLeft_add_eq_or_of_lt (show d < 2 ^ 4 from hd), Nat.shiftLeft_eq]

/-- The digits of a line give their number, whatever stands behind them. -/
theorem hfChunkSizeLoop_digits {digits rest : List UInt8}
    (hdigits : ∀ c ∈ digits, (hexDigit c).isSome) (hrest : ∀ c ∈ rest.head?, hexDigit c = none)
    {size n significant v : Nat} (hsize : size < 16 ^ significant)
    (h : hfChunkSizeLoop size n significant (digits ++ rest) = some v) :
    digits.foldl (fun v c ↦ v * 16 + (hexDigit c).getD 0) size = v := by
  induction digits generalizing size n significant with
  | nil =>
    cases rest with
    | nil =>
      simp only [List.nil_append, hfChunkSizeLoop] at h
      split_ifs at h with hn
      exact Option.some.inj h
    | cons c rest =>
      simp only [List.nil_append, hfChunkSizeLoop, hrest c rfl] at h
      split_ifs at h with hn hc
      exact Option.some.inj h
  | cons c digits ih =>
    obtain ⟨hc, hdigits⟩ := List.forall_mem_cons.mp hdigits
    obtain ⟨d, hd⟩ := Option.isSome_iff_exists.mp hc
    have hlt : d < 16 := hexDigit_lt hd
    rw [List.foldl_cons, hd, Option.getD_some]
    rw [List.cons_append, hfChunkSizeLoop, hd] at h
    dsimp only at h
    split_ifs at h with hsig hmany hmany
    -- A digit that counts: at most seven came before it.
    · have hpow : 16 ^ significant ≤ 2 ^ 28 := by
        calc 16 ^ significant ≤ 16 ^ 7 := Nat.pow_le_pow_right (by decide) (by omega)
          _ = 2 ^ 28 := by decide
      rw [shift_digit hlt (by omega)] at h
      exact ih hdigits (by rw [Nat.pow_succ]; omega) h
    -- A leading zero.
    · obtain ⟨rfl, rfl⟩ : significant = 0 ∧ d = 0 := by omega
      obtain rfl : size = 0 := by simpa using hsize
      exact ih hdigits hsize h

/-- The bytes of a size line that are stored. -/
def withoutCr (l : List UInt8) : List UInt8 := l.filter (· ≠ cr)

/-- The size that a line without its LF is read as: at most 39 bytes of it are stored, and they are
read as a C string. -/
def lineSize (l : List UInt8) : Option Nat :=
  if httpChunkLine ≤ (withoutCr l).length then none else chunkLineSize (withoutCr l ++ [0])

/-- The size of a size line of the grammar is the one that is read. -/
theorem SizeLine.eq_lineSize {l : List UInt8} {size k : Nat} (hl : SizeLine (l ++ [lf]) size)
    (h : lineSize l = some k) : size = k := by
  obtain ⟨digits, ext, e, -, hdigits, hext, he, heq, rfl⟩ := hl
  have hkeep : withoutCr (digits ++ ext) = digits ++ ext := by
    refine List.filter_eq_self.mpr fun c hc ↦ decide_eq_true ?_
    rcases List.mem_append.mp hc with hc | hc
    · exact (inLine_of_hexDigit (hdigits c hc)).2.1
    · exact (hext.inLine c hc).2.1
  have hstored : withoutCr l = digits ++ ext := by
    rcases he with rfl | rfl
    · have hl : l ++ [lf] = ((digits ++ ext) ++ [cr]) ++ [lf] := by
        rw [heq]
        simp only [List.append_assoc, List.cons_append, List.nil_append]
      rw [List.append_cancel_right hl, withoutCr, List.filter_append, ← withoutCr, hkeep]
      exact List.append_nil _
    · rw [List.append_cancel_right (heq.trans (List.append_assoc digits ext [lf]).symm), hkeep]
  rw [lineSize, hstored, chunkLineSize] at h
  split_ifs at h
  rw [List.append_assoc] at h
  refine hfChunkSizeLoop_digits hdigits (hext.head_hexDigit ?_) (by decide) h
  intro c hc
  obtain rfl : 0 = c := Option.some.inj hc
  decide

/-! ### The lines of a body -/

/-- A line of a body, without its LF: a size line, what stands behind the data of a chunk, and a
trailer line. -/
inductive ChunkPiece
  | size (l : List UInt8)
  | behind (e : List UInt8)
  | trailer (l : List UInt8)

/-- The lines of a trailer: it ends with the first line that has nothing but CRs. -/
inductive TrailerLines : List UInt8 → List ChunkPiece → Prop
  | blank {e : List UInt8} (he : ∀ c ∈ e, c = cr) : TrailerLines (e ++ [lf]) [.trailer e]
  | line {l rest : List UInt8} {pieces : List ChunkPiece} (hl : lf ∉ l) (hne : ¬∀ c ∈ l, c = cr)
      (hrest : TrailerLines rest pieces) : TrailerLines (l ++ lf :: rest) (.trailer l :: pieces)

/-- **The lines of a body**, cut at each LF outside the data, and the data. The bytes behind the
data of a chunk are CRs up to the LF; nothing else is asked of the spelling of a line but the size
that is read. -/
inductive ChunkLines : List UInt8 → List UInt8 → List ChunkPiece → Prop
  | last {l t : List UInt8} {pieces : List ChunkPiece} (hl : lf ∉ l) (hsize : lineSize l = some 0)
      (ht : TrailerLines t pieces) : ChunkLines (l ++ lf :: t) [] (.size l :: pieces)
  | chunk {l d e rest data : List UInt8} {pieces : List ChunkPiece} (hl : lf ∉ l)
      (hsize : lineSize l = some d.length) (hd : d ≠ []) (he : ∀ c ∈ e, c = cr)
      (hrest : ChunkLines rest data pieces) :
      ChunkLines (l ++ lf :: (d ++ (e ++ lf :: rest))) (d ++ data)
        (.size l :: .behind e :: pieces)

/-- The line is what the grammar has in its place. -/
def StrictPiece : ChunkPiece → Prop
  | .size l => ∃ size, SizeLine (l ++ [lf]) size
  | .behind e => LineEnd (e ++ [lf])
  | .trailer l => LineEnd (l ++ [lf]) ∨ ∃ f e, FieldLine f ∧ LineEnd e ∧ l ++ [lf] = f ++ e

/-! ### Lines and the grammar -/

section Grammar

variable {cur : List UInt8}

/-- A field line is more than a line end. -/
theorem FieldLine.not_blank {f e : List UInt8} (hf : FieldLine f) (heq : cur ++ [lf] = f ++ e) :
    ¬∀ b ∈ cur, b = cr := by
  obtain ⟨name, value, hname, -, rfl⟩ := hf
  obtain ⟨b, name', rfl⟩ := List.exists_cons_of_ne_nil hname.nonempty
  have hb : InLine b := hname.inLine b List.mem_cons_self
  intro hcr
  cases cur with
  | nil => exact hb.2.2 (List.cons.inj heq).1.symm
  | cons b' cur =>
    obtain rfl : b' = b := (List.cons.inj heq).1
    exact hb.2.1 (hcr b' List.mem_cons_self)

/-- Nothing but a CR stands in front of the LF of a line end. -/
theorem LineEnd.blank (h : LineEnd (cur ++ [lf])) : ∀ b ∈ cur, b = cr := by
  rcases h with h | h
  · obtain rfl : cur = [cr] := List.append_cancel_right (h.trans (List.append_cons [] cr [lf]))
    exact List.forall_mem_singleton.mpr rfl
  · obtain rfl : cur = [] := List.append_cancel_right (h.trans (List.nil_append _).symm)
    exact List.forall_mem_nil _

/-- A stream is cut at its first LF in one way. -/
theorem append_lf_inj {a b x y : List UInt8} (ha : lf ∉ a) (hb : lf ∉ b)
    (h : a ++ lf :: x = b ++ lf :: y) : a = b ∧ x = y := by
  induction a generalizing b with
  | nil =>
    cases b with
    | nil => exact ⟨rfl, (List.cons.inj h).2⟩
    | cons c b => exact absurd (List.cons.inj h).1 (List.ne_of_not_mem_cons hb)
  | cons c a ih =>
    cases b with
    | nil => exact absurd (List.cons.inj h).1.symm (List.ne_of_not_mem_cons ha)
    | cons c' b =>
      obtain ⟨rfl, htail⟩ := List.cons.inj h
      obtain ⟨rfl, rfl⟩ := ih (List.not_mem_of_not_mem_cons ha) (List.not_mem_of_not_mem_cons hb)
        htail
      exact ⟨rfl, rfl⟩

/-- A line with its line end, of bytes that stay inside a line. -/
theorem LineEnd.split {l e : List UInt8} (he : LineEnd e) (hl : ∀ c ∈ l, InLine c) :
    ∃ a, lf ∉ a ∧ l ++ e = a ++ [lf] := by
  have hlf : lf ∉ l := fun hmem ↦ (hl lf hmem).2.2 rfl
  rcases he with rfl | rfl
  · refine ⟨l ++ [cr], ?_, by rw [List.append_assoc]; rfl⟩
    rw [List.mem_append, not_or]
    exact ⟨hlf, by decide⟩
  · exact ⟨l, hlf, rfl⟩

theorem SizeLine.split {l : List UInt8} {size : Nat} (h : SizeLine l size) :
    ∃ a, lf ∉ a ∧ l = a ++ [lf] := by
  obtain ⟨digits, ext, e, -, hdigits, hext, he, rfl, -⟩ := h
  rw [← List.append_assoc]
  refine he.split fun c hc ↦ ?_
  rcases List.mem_append.mp hc with hc | hc
  · exact inLine_of_hexDigit (hdigits c hc)
  · exact hext.inLine c hc

theorem FieldLine.split {f e : List UInt8} (hf : FieldLine f) (he : LineEnd e) :
    ∃ a, lf ∉ a ∧ f ++ e = a ++ [lf] := by
  obtain ⟨name, value, hname, hvalue, rfl⟩ := hf
  refine he.split fun c hc ↦ ?_
  rcases List.mem_append.mp hc with hc | hc
  · exact hname.inLine c hc
  · rcases List.mem_cons.mp hc with rfl | hc
    · exact ⟨by decide, by decide, by decide⟩
    · exact (hvalue c hc).inLine

/-- The first line of a text, and a line of the grammar that the text begins with. -/
theorem line_eq_of_append {a l x y : List UInt8} (ha : lf ∉ a)
    (hl : ∃ b, lf ∉ b ∧ l = b ++ [lf]) (h : l ++ x = a ++ lf :: y) : l = a ++ [lf] ∧ x = y := by
  obtain ⟨b, hb, rfl⟩ := hl
  rw [List.append_assoc, List.singleton_append] at h
  obtain ⟨rfl, rfl⟩ := append_lf_inj hb ha h
  exact ⟨rfl, rfl⟩

theorem TrailerLines.trailerPart_iff {t : List UInt8} {pieces : List ChunkPiece}
    (h : TrailerLines t pieces) : TrailerPart t ↔ ∀ p ∈ pieces, StrictPiece p := by
  induction h with
  | @blank e he =>
    rw [List.forall_mem_singleton, StrictPiece]
    constructor
    · intro ht
      generalize htext : e ++ [lf] = text at ht
      cases ht with
      | blank hend => exact .inl (htext ▸ hend)
      | field hl hend =>
        rw [List.append_assoc] at htext
        exact absurd he (hl.not_blank htext)
    · rintro (hend | ⟨f, e', hf, -, heq⟩)
      · exact .blank hend
      · exact absurd he (hf.not_blank heq)
  | @line l rest pieces hl hne hrest ih =>
    rw [List.forall_mem_cons, ← ih, StrictPiece]
    constructor
    · intro ht
      generalize htext : l ++ lf :: rest = text at ht
      cases ht with
      | blank hend =>
        obtain ⟨hline, -⟩ := line_eq_of_append hl (hend.split (List.forall_mem_nil _))
          ((List.append_nil _).trans htext.symm)
        exact absurd (hline ▸ hend : LineEnd (l ++ [lf])).blank hne
      | @field f e rest' hf hend hrest' =>
        obtain ⟨hline, rfl⟩ := line_eq_of_append hl (hf.split hend) htext.symm
        exact ⟨.inr ⟨f, e, hf, hend, hline.symm⟩, hrest'⟩
    · rintro ⟨hend | ⟨f, e, hf, hend, heq⟩, ht⟩
      · exact absurd hend.blank hne
      · rw [List.append_cons, heq]
        exact .field hf hend ht

/-- **The grammar by lines**: bytes that are cut into the lines of a body are a chunked body
exactly when each of the lines is one of the grammar. -/
theorem ChunkLines.chunkedBody_iff {body data : List UInt8} {pieces : List ChunkPiece}
    (h : ChunkLines body data pieces) : ChunkedBody body data ↔ ∀ p ∈ pieces, StrictPiece p := by
  induction h with
  | @last l t pieces hl hsize ht =>
    rw [List.forall_mem_cons, ← ht.trailerPart_iff, StrictPiece]
    constructor
    · intro hbody
      generalize htext : l ++ lf :: t = text, hdata : ([] : List UInt8) = data at hbody
      cases hbody with
      | last hline ht' =>
        obtain ⟨hsame, rfl⟩ := line_eq_of_append hl hline.split htext.symm
        exact ⟨⟨0, hsame ▸ hline⟩, ht'⟩
      | chunk hd => exact absurd (List.append_eq_nil_iff.mp hdata.symm).1 hd
    · rintro ⟨⟨size, hline⟩, ht'⟩
      obtain rfl := hline.eq_lineSize hsize
      rw [List.append_cons]
      exact .last hline ht'
  | @chunk l d e rest data pieces hl hsize hd he hrest ih =>
    rw [List.forall_mem_cons, List.forall_mem_cons, ← ih, StrictPiece, StrictPiece]
    have hcr : lf ∉ e := fun hmem ↦ absurd (he lf hmem) (by decide)
    constructor
    · intro hbody
      generalize htext : l ++ lf :: (d ++ (e ++ lf :: rest)) = text, hout : d ++ data = out
        at hbody
      cases hbody with
      | last => exact absurd (List.append_eq_nil_iff.mp hout).1 hd
      | @chunk l' d' e' rest' data' hd' hline hend hrest' =>
        obtain ⟨hsame, hbehind⟩ := line_eq_of_append hl hline.split htext.symm
        have hlen : d'.length = d.length := (hsame ▸ hline).eq_lineSize hsize
        obtain ⟨rfl, hends⟩ := List.append_inj hbehind hlen
        obtain ⟨hend', rfl⟩ := line_eq_of_append hcr (hend.split (List.forall_mem_nil _)) hends
        obtain rfl := List.append_cancel_left hout
        exact ⟨⟨_, hsame ▸ hline⟩, (show e' = e ++ [lf] from hend') ▸ hend, hrest'⟩
    · rintro ⟨⟨size, hline⟩, hend, hrest'⟩
      obtain rfl := hline.eq_lineSize hsize
      have hbody := ChunkedBody.chunk hd hline hend hrest'
      rwa [List.append_assoc, List.append_assoc] at hbody

end Grammar

/-! ### Lines and the decoder -/

section Lines

variable {ch : HttpChunk} {l : List UInt8}

/-- The decoder has stored the bytes `cur` of a size line. -/
structure Stored (ch : HttpChunk) (cur : List UInt8) : Prop where
  state : ch.state = .size
  n : ch.n = cur.length
  fits : cur.length < httpChunkLine
  line : ch.line.toList.take ch.n = cur

theorem chunkStopped_of_error (h : ch.state = .error) : chunkMachine.halted ch = true := by
  simp [chunkMachine, chunkStopped, h]

theorem reads_sizeByte (hs : ch.state = .size) (c : UInt8) :
    chunkMachine.Reads ch [c] [] (chunkSizeByte ch c) :=
  .one (by simp [chunkMachine, chunkStopped, hs]) (by simp only [chunkMachine, chunkByte, hs])

theorem reads_crlfByte (hs : ch.state = .crlf) (c : UInt8) :
    chunkMachine.Reads ch [c] [] (chunkCrlfByte ch c) :=
  .one (by simp [chunkMachine, chunkStopped, hs]) (by simp only [chunkMachine, chunkByte, hs])

theorem reads_trailerByte (hs : ch.state = .trailer) (c : UInt8) :
    chunkMachine.Reads ch [c] [] (chunkTrailerByte ch c) :=
  .one (by simp [chunkMachine, chunkStopped, hs]) (by simp only [chunkMachine, chunkByte, hs])

/-- The bytes of a size line are stored, or there are too many. -/
theorem Stored.feed {cur : List UInt8} (h : Stored ch cur) (hl : lf ∉ l) :
    (∃ ch', chunkMachine.Reads ch l [] ch' ∧ Stored ch' (cur ++ withoutCr l)) ∨
      httpChunkLine ≤ (cur ++ withoutCr l).length ∧
        (chunkMachine.feed ch l).1.state = .error := by
  induction l generalizing ch cur with
  | nil => exact .inl ⟨ch, rfl, by simpa [withoutCr] using h⟩
  | cons c l ih =>
    have hbyte := reads_sizeByte h.state c
    have hc : c ≠ lf := (List.ne_of_not_mem_cons hl).symm
    -- the bytes behind a byte that was stored or dropped
    have hon {cur' : List UInt8} (hstored : Stored (chunkSizeByte ch c) cur')
        (hcur : cur' ++ withoutCr l = cur ++ withoutCr (c :: l)) :
        (∃ ch', chunkMachine.Reads ch (c :: l) [] ch' ∧
          Stored ch' (cur ++ withoutCr (c :: l))) ∨
        httpChunkLine ≤ (cur ++ withoutCr (c :: l)).length ∧
          (chunkMachine.feed ch (c :: l)).1.state = .error := by
      rw [← hcur]
      rcases ih hstored (List.not_mem_of_not_mem_cons hl) with ⟨ch'', hreads, hat⟩ | ⟨hlen, herr⟩
      · exact .inl ⟨ch'', hbyte.trans hreads, hat⟩
      · refine .inr ⟨hlen, ?_⟩
        rw [hbyte.feed_cons]
        exact herr
    by_cases hcr : c = cr
    · have hch : chunkSizeByte ch c = ch := by rw [chunkSizeByte, if_pos hc, if_pos hcr]
      exact hon (hch ▸ h) (by rw [withoutCr, withoutCr, hcr]; rfl)
    have hkeep : withoutCr (c :: l) = c :: withoutCr l :=
      List.filter_cons_of_pos (decide_eq_true hcr)
    by_cases hfull : httpChunkLine ≤ ch.n + 1
    · refine .inr ⟨?_, ?_⟩
      · rw [hkeep, List.length_append, List.length_cons, ← h.n]
        omega
      · rw [hbyte.feed_cons, chunkSizeByte, if_pos hc, if_neg hcr, if_pos hfull,
          StreamMachine.feed_halted (chunkStopped_of_error rfl)]
    · have hch : chunkSizeByte ch c =
          { ch with line := ch.line.setIfInBounds ch.n c, n := ch.n + 1 } := by
        rw [chunkSizeByte, if_pos hc, if_neg hcr, if_neg hfull]
      have hcur : (cur ++ [c]) ++ withoutCr l = cur ++ withoutCr (c :: l) := by
        rw [hkeep, List.append_assoc]
        rfl
      rw [hch] at hon
      refine hon ⟨h.state, ?_, ?_, ?_⟩ hcur
      · rw [List.length_append, List.length_singleton, ← h.n]
      · rw [List.length_append, List.length_singleton, ← h.n]
        omega
      · have hlt : ch.n < ch.line.toList.length := by
          rw [Vector.length_toList]
          omega
        simp only
        rw [Vector.toList_setIfInBounds, List.take_add_one, List.take_set_of_le (Nat.le_refl _),
          h.line, List.getElem?_set_self hlt]
        rfl

/-- What stands behind the NUL of a size line is not looked at. -/
theorem hfChunkSizeLoop_nul (rest : List UInt8) (size digits significant : Nat) :
    hfChunkSizeLoop size digits significant (l ++ 0 :: rest) =
      hfChunkSizeLoop size digits significant (l ++ [0]) := by
  induction l generalizing size digits significant with
  | nil => rfl
  | cons c l ih => simp only [List.cons_append, hfChunkSizeLoop, ih]

theorem Stored.lineSize {cur : List UInt8} (h : Stored ch cur) :
    chunkLineSize (ch.line.setIfInBounds ch.n 0).toList = chunkLineSize (cur ++ [0]) := by
  have hlt : ch.n < ch.line.toList.length := by
    rw [Vector.length_toList, h.n]
    exact h.fits
  rw [Vector.toList_setIfInBounds, List.set_eq_take_append_cons_drop, if_pos hlt, h.line,
    chunkLineSize, chunkLineSize, hfChunkSize, hfChunkSize, hfChunkSizeLoop_nul]
  cases cur <;> rfl

/-- **A size line.** -/
theorem feed_sizeLine (hs : ch.state = .size) (hn : ch.n = 0) (hl : lf ∉ l) :
    (lineSize l = none ∧ (chunkMachine.feed ch (l ++ [lf])).1.state = .error) ∨
      ∃ k ch', lineSize l = some k ∧ chunkMachine.Reads ch (l ++ [lf]) [] ch' ∧ ch'.n = 0 ∧
        ch'.left = k ∧ ch'.state = if 0 < k then .data else .trailer := by
  have hstart : Stored ch [] := ⟨hs, hn, by decide, by rw [hn]; rfl⟩
  rcases hstart.feed hl with ⟨ch', hreads, hstored⟩ | ⟨hlen, herr⟩
  · rw [List.nil_append] at hstored
    have hsize : Tools.lineSize l = chunkLineSize (ch'.line.setIfInBounds ch'.n 0).toList := by
      rw [Tools.lineSize, if_neg (Nat.not_le.mpr hstored.fits), hstored.lineSize]
    have hline := hreads.trans (reads_sizeByte hstored.state lf)
    have hch : chunkSizeByte ch' lf = match chunkLineSize
        (ch'.line.setIfInBounds ch'.n 0).toList with
      | none => { ch' with line := ch'.line.setIfInBounds ch'.n 0, n := 0, state := .error }
      | some left => { ch' with
          line := ch'.line.setIfInBounds ch'.n 0
          n := 0
          left := left
          state := if 0 < left then .data else .trailer } := if_neg (not_not.mpr rfl)
    rw [hsize]
    cases hread : chunkLineSize (ch'.line.setIfInBounds ch'.n 0).toList with
    | none =>
      refine .inl ⟨rfl, ?_⟩
      rw [hline, hch, hread]
    | some k =>
      refine .inr ⟨k, _, rfl, hline, ?_⟩
      rw [hch, hread]
      exact ⟨rfl, rfl, rfl⟩
  · rw [List.nil_append] at hlen
    refine .inl ⟨if_pos hlen, ?_⟩
    rw [StreamMachine.feed_append, StreamMachine.feed_halted (chunkStopped_of_error herr)]
    exact herr

/-- The data of a chunk. -/
theorem reads_data {d : List UInt8} (hs : ch.state = .data) (hd : d ≠ [])
    (hle : d.length ≤ ch.left) :
    ∃ ch', chunkMachine.Reads ch d d ch' ∧ ch'.n = ch.n ∧
      ch'.state = if ch.left = d.length then .crlf else .data := by
  have hfeed := chunkMachine_feed_data hs d [] hd hle
  rw [List.append_nil, StreamMachine.feed_nil, List.append_nil, Nat.zero_add] at hfeed
  refine ⟨_, hfeed, rfl, ?_⟩
  have hall : ch.left - d.length = 0 ↔ ch.left = d.length := by omega
  rw [chunkDataTake]
  simp only [hall]

/-- What stands behind the data of a chunk. -/
theorem reads_behind {e : List UInt8} (hs : ch.state = .crlf) (he : ∀ c ∈ e, c = cr) :
    chunkMachine.Reads ch e [] ch ∧
      (∃ ch', chunkMachine.Reads ch [lf] [] ch' ∧ ch'.n = ch.n ∧ ch'.state = .size) ∧
      ∀ c rest, c ≠ cr → c ≠ lf → (chunkMachine.feed ch (c :: rest)).1.state = .error := by
  refine ⟨?_, ⟨_, reads_crlfByte hs lf, rfl, rfl⟩, fun c rest hcr hlf ↦ ?_⟩
  · induction e with
    | nil => rfl
    | cons c e ih =>
      obtain ⟨rfl, hrest⟩ := List.forall_mem_cons.mp he
      exact (reads_crlfByte hs cr).trans (ih hrest)
  · rw [(reads_crlfByte hs c).feed_cons, chunkCrlfByte, if_neg hlf, if_pos hcr,
      StreamMachine.feed_halted (chunkStopped_of_error rfl)]

/-- The bytes of a trailer line: whether one of them is no CR. -/
theorem reads_trailer (hs : ch.state = .trailer) (hl : lf ∉ l) :
    ∃ n, chunkMachine.Reads ch l [] { ch with n := n } ∧
      (n = 0 ↔ ch.n = 0 ∧ ∀ c ∈ l, c = cr) := by
  induction l generalizing ch with
  | nil => exact ⟨ch.n, rfl, by simp⟩
  | cons c l ih =>
    have hbyte := reads_trailerByte hs c
    have hc : c ≠ lf := (List.ne_of_not_mem_cons hl).symm
    have hrest := List.not_mem_of_not_mem_cons hl
    by_cases hcr : c = cr
    · rw [chunkTrailerByte, if_neg hc, if_neg (not_not.mpr hcr)] at hbyte
      obtain ⟨n, hreads, hn⟩ := ih hs hrest
      exact ⟨n, hbyte.trans hreads, by simp [hn, hcr]⟩
    · rw [chunkTrailerByte, if_neg hc, if_pos hcr] at hbyte
      have hs' : { ch with n := 1 }.state = .trailer := hs
      obtain ⟨n, hreads, hn⟩ := ih hs' hrest
      exact ⟨n, hbyte.trans hreads, by simp [hn, hcr]⟩

/-- **A trailer line.** -/
theorem reads_trailerLine [Decidable (∀ c ∈ l, c = cr)] (hs : ch.state = .trailer)
    (hn : ch.n = 0) (hl : lf ∉ l) :
    ∃ ch', chunkMachine.Reads ch (l ++ [lf]) [] ch' ∧ ch'.n = 0 ∧
      ch'.state = if ∀ c ∈ l, c = cr then .done else .trailer := by
  obtain ⟨n, hreads, hzero⟩ := reads_trailer hs hl
  rw [and_iff_right hn] at hzero
  refine ⟨_, hreads.trans (reads_trailerByte (by exact hs) lf), rfl, ?_⟩
  simp only [chunkTrailerByte, if_true, hs, hzero]

/-! ### Bodies that are read to their end -/

theorem TrailerLines.reads {t : List UInt8} {pieces : List ChunkPiece} (h : TrailerLines t pieces)
    (hs : ch.state = .trailer) (hn : ch.n = 0) :
    ∃ ch', chunkMachine.Reads ch t [] ch' ∧ ch'.state = .done := by
  induction h generalizing ch with
  | @blank e he =>
    have hlf : lf ∉ e := fun hmem ↦ absurd (he lf hmem) (by decide)
    obtain ⟨ch', hline, -, hdone⟩ := reads_trailerLine hs hn hlf
    rw [if_pos he] at hdone
    exact ⟨ch', hline, hdone⟩
  | @line l rest pieces hl hne _ ih =>
    obtain ⟨ch₁, hline, hn₁, hs₁⟩ := reads_trailerLine hs hn hl
    rw [if_neg hne] at hs₁
    obtain ⟨ch', hreads, hdone⟩ := ih hs₁ hn₁
    rw [List.append_cons]
    exact ⟨ch', hline.trans hreads, hdone⟩

/-- The decoder reads a body to its end, and its sink is given the data. -/
theorem ChunkLines.reads {body data : List UInt8} {pieces : List ChunkPiece}
    (h : ChunkLines body data pieces) (hs : ch.state = .size) (hn : ch.n = 0) :
    ∃ ch', chunkMachine.Reads ch body data ch' ∧ ch'.state = .done := by
  induction h generalizing ch with
  | @last l t pieces hl hsize ht =>
    rcases feed_sizeLine hs hn hl with ⟨hnone, -⟩ | ⟨k, ch₁, hk, hline, hn₁, -, hs₁⟩
    · cases hsize.symm.trans hnone
    obtain rfl := Option.some.inj (hsize.symm.trans hk)
    obtain ⟨ch', hreads, hdone⟩ := ht.reads hs₁ hn₁
    rw [List.append_cons]
    exact ⟨ch', hline.trans hreads, hdone⟩
  | @chunk l d e rest data pieces hl hsize hd he _ ih =>
    rcases feed_sizeLine hs hn hl with ⟨hnone, -⟩ | ⟨k, ch₁, hk, hline, hn₁, hleft, hs₁⟩
    · cases hsize.symm.trans hnone
    obtain rfl := Option.some.inj (hsize.symm.trans hk)
    rw [if_pos (List.length_pos_iff.mpr hd)] at hs₁
    obtain ⟨ch₂, hdata, hn₂, hs₂⟩ := reads_data hs₁ hd (Nat.le_of_eq hleft.symm)
    rw [if_pos hleft] at hs₂
    obtain ⟨hcrs, ⟨ch₃, hend, hn₃, hs₃⟩, -⟩ := reads_behind hs₂ he
    obtain ⟨ch', hreads, hdone⟩ := ih hs₃ (hn₃.trans (hn₂.trans hn₁))
    refine ⟨ch', ?_, hdone⟩
    have hall := hline.trans (hdata.trans ((hcrs.trans hend).trans hreads))
    simpa only [List.append_assoc, List.singleton_append, List.nil_append] using hall

/-- A trailer that is read to its end. -/
theorem trailerLines_of_done {stream : List UInt8} (hs : ch.state = .trailer) (hn : ch.n = 0)
    (hdone : (chunkMachine.feed ch stream).1.state = .done) :
    (chunkMachine.feed ch stream).2.1 = [] ∧
      ∃ pieces, TrailerLines (stream.take (chunkMachine.feed ch stream).2.2) pieces := by
  induction hlen : stream.length using Nat.strong_induction_on generalizing stream ch with
  | _ n ih =>
    by_cases hlf : lf ∈ stream
    swap
    · obtain ⟨n, hreads, -⟩ := reads_trailer hs hlf
      rw [hreads] at hdone
      cases hs.symm.trans hdone
    obtain ⟨l, rest, rfl, hl⟩ := List.eq_append_cons_of_mem hlf
    obtain ⟨ch₁, hline, hn₁, hs₁⟩ := reads_trailerLine hs hn hl
    rw [List.append_cons] at hdone ⊢
    rw [hline.feed_append] at hdone ⊢
    rw [List.take_length_add_append, List.nil_append]
    by_cases hblank : ∀ c ∈ l, c = cr
    · rw [if_pos hblank] at hs₁
      rw [StreamMachine.feed_halted (by simp [chunkMachine, chunkStopped, hs₁])]
      refine ⟨rfl, [.trailer l], ?_⟩
      rw [List.take_zero, List.append_nil]
      exact .blank hblank
    · rw [if_neg hblank] at hs₁
      obtain ⟨hout, pieces, hpieces⟩ := ih rest.length
        (by rw [← hlen, List.length_append, List.length_cons]; omega) hs₁ hn₁ hdone rfl
      refine ⟨hout, .trailer l :: pieces, ?_⟩
      rw [List.append_assoc, List.singleton_append]
      exact .line hl hblank hpieces

/-- The CRs at the front of a stream. -/
theorem exists_crs (s : List UInt8) :
    ∃ e rest, s = e ++ rest ∧ (∀ c ∈ e, c = cr) ∧ ∀ c ∈ rest.head?, c ≠ cr := by
  refine ⟨s.takeWhile (· == cr), s.dropWhile (· == cr), List.takeWhile_append_dropWhile.symm,
    fun c hc ↦ beq_iff_eq.mp (List.all_eq_true.mp List.all_takeWhile c hc), fun c hc ↦ ?_⟩
  have hnot := List.head?_dropWhile_not (· == cr) s
  rw [Option.mem_def.mp hc] at hnot
  simpa using hnot

/-- **A stream that is read to its end** begins with the lines of a body, and the sink is given the
data. -/
theorem chunkLines_of_done {stream : List UInt8} (hs : ch.state = .size) (hn : ch.n = 0)
    (hdone : (chunkMachine.feed ch stream).1.state = .done) :
    ∃ pieces, ChunkLines (stream.take (chunkMachine.feed ch stream).2.2)
      (chunkMachine.feed ch stream).2.1 pieces := by
  induction hlen : stream.length using Nat.strong_induction_on generalizing stream ch with
  | _ n ih =>
    by_cases hlf : lf ∈ stream
    swap
    -- without an LF the size line does not end
    · have hstart : Stored ch [] := ⟨hs, hn, by decide, by rw [hn]; rfl⟩
      rcases hstart.feed hlf with ⟨ch', hreads, hstored⟩ | ⟨-, herr⟩
      · rw [hreads] at hdone
        cases hstored.state.symm.trans hdone
      · cases herr.symm.trans hdone
    obtain ⟨l, rest, rfl, hl⟩ := List.eq_append_cons_of_mem hlf
    rw [List.append_cons] at hdone ⊢
    rw [List.length_append, List.length_cons] at hlen
    rcases feed_sizeLine hs hn hl with ⟨-, herr⟩ | ⟨k, ch₁, hk, hline, hn₁, hleft, hs₁⟩
    · rw [StreamMachine.feed_append, StreamMachine.feed_halted (chunkStopped_of_error herr)]
        at hdone
      cases herr.symm.trans hdone
    rw [hline.feed_append] at hdone ⊢
    rw [List.take_length_add_append, List.nil_append, List.append_assoc, List.singleton_append]
    by_cases hk0 : 0 < k
    swap
    · rw [if_neg hk0] at hs₁
      obtain rfl : k = 0 := by omega
      obtain ⟨hout, pieces, hpieces⟩ := trailerLines_of_done hs₁ hn₁ hdone
      rw [hout]
      exact ⟨_, .last hl hk hpieces⟩
    rw [if_pos hk0] at hs₁
    by_cases hshort : rest.length < k
    -- the data is not there yet
    · exfalso
      by_cases hnil : rest = []
      · rw [hnil] at hdone
        cases hs₁.symm.trans hdone
      · obtain ⟨ch₂, hdata, -, hs₂⟩ := reads_data hs₁ hnil (by omega)
        rw [hdata] at hdone
        rw [if_neg (by omega)] at hs₂
        cases hs₂.symm.trans hdone
    obtain ⟨d, behind, rfl, hd⟩ : ∃ d behind, rest = d ++ behind ∧ d.length = k :=
      ⟨rest.take k, rest.drop k, (List.take_append_drop k rest).symm,
        List.length_take_of_le (by omega)⟩
    have hne : d ≠ [] := List.length_pos_iff.mp (by omega)
    obtain ⟨ch₂, hdata, hn₂, hs₂⟩ := reads_data hs₁ hne (by omega)
    rw [if_pos (by omega)] at hs₂
    rw [hdata.feed_append] at hdone ⊢
    rw [List.take_length_add_append]
    obtain ⟨e, rest, rfl, he, hrest⟩ := exists_crs behind
    obtain ⟨hcrs, ⟨ch₃, hend, hn₃, hs₃⟩, herr⟩ := reads_behind hs₂ he
    rw [hcrs.feed_append] at hdone ⊢
    rw [List.take_length_add_append]
    cases rest with
    | nil => cases hs₂.symm.trans hdone
    | cons c rest =>
      by_cases hc : c = lf
      · subst hc
        rw [hend.feed_cons] at hdone ⊢
        rw [Nat.add_comm, List.take_succ_cons]
        simp only [List.length_append, List.length_cons] at hlen
        obtain ⟨pieces, hpieces⟩ := ih rest.length (by omega) hs₃ (hn₃.trans (hn₂.trans hn₁))
          hdone rfl
        exact ⟨_, .chunk hl (hd ▸ hk) hne he hpieces⟩
      · cases (herr c rest (hrest c rfl) hc).symm.trans hdone

end Lines

/-- **Bodies that are read to their end.** A stream that is read to its end is a chunked body, and
the sink is given its data, exactly when each line of the body it begins with is one of the grammar.
Every other stream ends in the error state, or all of it has been consumed and more is awaited. -/
theorem chunkedBody_of_done (ch : HttpChunk) (stream : List UInt8) :
    (((httpChunkFeed (httpChunkStart ch) stream).1.state = .done →
      ChunkedBody (stream.take (httpChunkFeed (httpChunkStart ch) stream).2.2)
        (httpChunkFeed (httpChunkStart ch) stream).2.1.flatten) ↔
      ∀ body data pieces, body <+: stream → ChunkLines body data pieces →
        ∀ p ∈ pieces, StrictPiece p) ∧
    ((httpChunkFeed (httpChunkStart ch) stream).1.state ≠ .done →
      (httpChunkFeed (httpChunkStart ch) stream).1.state = .error ∨
        (httpChunkFeed (httpChunkStart ch) stream).2.2 = stream.length) := by
  have heq := httpChunkFeed_eq (httpChunkStart ch) stream
  have hstate := congrArg Prod.fst heq
  have hsink := congrArg (Prod.fst ∘ Prod.snd) heq
  have hcount := congrArg (Prod.snd ∘ Prod.snd) heq
  have hstart : (httpChunkStart ch).state = .size := rfl
  dsimp only [Function.comp] at hstate hsink hcount
  rw [hstate, hsink, hcount]
  refine ⟨⟨?_, ?_⟩, ?_⟩
  · rintro hgood body data pieces ⟨rest, rfl⟩ hlines
    obtain ⟨ch', hreads, hdone⟩ := hlines.reads hstart rfl
    rw [hreads.feed_append, StreamMachine.feed_halted (by simp [chunkMachine, chunkStopped, hdone]),
      List.append_nil, Nat.add_zero, List.take_left] at hgood
    exact hlines.chunkedBody_iff.mp (hgood hdone)
  · intro hstrict hdone
    obtain ⟨pieces, hlines⟩ := chunkLines_of_done hstart rfl hdone
    exact hlines.chunkedBody_iff.mpr (hstrict _ _ _ (List.take_prefix _ _) hlines)
  · intro hdone
    rcases StreamMachine.feed_ended (m := chunkMachine) (httpChunkStart ch) stream with h | h
    · replace h : chunkStopped (chunkMachine.feed (httpChunkStart ch) stream).1 = true := h
      rw [chunkStopped, Bool.or_eq_true, decide_eq_true_eq, decide_eq_true_eq] at h
      exact Or.inl (h.resolve_left hdone)
    · exact Or.inr h

/-- A decoder that has not been used yet. -/
def idleChunk : HttpChunk := ⟨.off, 0, 0, 0, Vector.replicate httpChunkLine 0⟩

/-- What stands behind a first digit that is followed by no other: an extension or a line end. -/
theorem ChunkedBody.behind_digit {b c : UInt8} {s data : List UInt8} (hc : hexDigit c = none)
    (h : ChunkedBody (b :: c :: s) data) : c ≠ 0 ∧ (c = cr → s.head? = some lf) := by
  obtain ⟨l, size, t, hl, heq⟩ : ∃ l size t, SizeLine l size ∧ b :: c :: s = l ++ t := by
    generalize hbody : b :: c :: s = body at h
    cases h with
    | last hl _ => exact ⟨_, _, _, hl, rfl⟩
    | chunk _ hl _ _ => exact ⟨_, _, _, hl, rfl⟩
  obtain ⟨digits, ext, e, hne, hdigits, hext, he, rfl, -⟩ := hl
  obtain ⟨b', digits, rfl⟩ := List.exists_cons_of_ne_nil hne
  cases digits with
  | cons c' digits =>
    obtain rfl : c = c' := (List.cons.inj (List.cons.inj heq).2).1
    have hsome := hdigits c (List.mem_cons_of_mem _ List.mem_cons_self)
    rw [hc] at hsome
    cases hsome
  | nil =>
    replace heq := (List.cons.inj heq).2
    cases ext with
    | cons c' ext =>
      obtain rfl : c = c' := (List.cons.inj heq).1
      have hin := hext.inLine c List.mem_cons_self
      exact ⟨hin.1, fun h ↦ absurd h hin.2.1⟩
    | nil =>
      rcases he with rfl | rfl
      · obtain ⟨rfl, rfl⟩ := List.cons.inj heq
        exact ⟨by decide, fun _ ↦ rfl⟩
      · obtain ⟨rfl, -⟩ := List.cons.inj heq
        exact ⟨by decide, fun h ↦ absurd h (by decide)⟩

/-- **A stream that is read to its end and is no chunked body**: in `0 CR 0 LF LF` the CR between
the digits is dropped, and in `0 NUL LF LF` the NUL ends the C string. -/
theorem chunkedBody_strayCr :
    ((httpChunkFeed (httpChunkStart idleChunk) [0x30, cr, 0x30, lf, lf]).1.state = .done ∧
      ¬∃ data, ChunkedBody [0x30, cr, 0x30, lf, lf] data) ∧
    ((httpChunkFeed (httpChunkStart idleChunk) [0x30, 0, lf, lf]).1.state = .done ∧
      ¬∃ data, ChunkedBody [0x30, 0, lf, lf] data) := by
  have hfeed (stream : List UInt8) : (httpChunkFeed (httpChunkStart idleChunk) stream).1 =
      (chunkMachine.feed (httpChunkStart idleChunk) stream).1 :=
    congrArg Prod.fst (httpChunkFeed_eq _ stream)
  rw [hfeed, hfeed]
  refine ⟨⟨by decide +kernel, ?_⟩, by decide +kernel, ?_⟩
  · rintro ⟨data, h⟩
    exact absurd ((h.behind_digit (by decide)).2 rfl) (by decide)
  · rintro ⟨data, h⟩
    exact (h.behind_digit (by decide)).1 rfl

end AmiNetXDuo.Tools
