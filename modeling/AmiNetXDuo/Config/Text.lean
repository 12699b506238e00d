import AmiNetXDuo.Config.IpText
import AmiNetXDuo.Lib.Scanner
import AmiNetXDuo.Netstack.ResolverNames
import Mathlib.Data.List.DropRight

/-!
# The text of the configuration files

The readers of the configuration share one set of passes, which cut a buffer into strings in place:
lines, comments taken off, blanks trimmed, and then either words or pairs of a keyword and a value.
Each pass only writes behind the place it has read to, so a pass is a function from the text in
front of the cursor to what it cuts off and the text it leaves.

A string is the list of its bytes and holds no zero byte; a file ends at its first zero byte.

## Main definitions

* `nextLine`, `fileLines` : the lines of a file, with their numbers.
* `stripComment`, `trim` : a line without its comment and its blanks.
* `scanItem`, `nextPair` : the words and the pairs of a line.
* `filePairs` : every pair of a file, with the number of its line.
* `amiCfgParseUlong`, `amiCfgParseLong`, `amiCfgParseBool`, `amiCfgParseMac` : the values.

## Main results

* `fileLines_line` : a text with one line end, at its end, is one line.
* `stripFrom_append`, `trim_eq_self` : the lines these passes leave alone.
* `scanItem_word`, `nextPair_key` : a word and a pair of known text.
-/

namespace AmiNetXDuo.Config

open AmiNetXDuo.Netstack (domainSame)

/-! ### Strings -/

/-- The bytes of a string of the source. -/
def bytes (s : String) : List UInt8 := s.toList.map Char.toUInt8

def lf : UInt8 := '\n'.toUInt8
def cr : UInt8 := '\r'.toUInt8
def quote : UInt8 := '"'.toUInt8
def star : UInt8 := '*'.toUInt8
def equalSign : UInt8 := '='.toUInt8

/-- What a C string in a buffer holds. -/
def cString (buf : List UInt8) : List UInt8 := buf.takeWhile (· != 0)

/-- `ami_cfg_stricmp(word, name) == 0`. -/
def isWord (word : List UInt8) (name : String) : Bool := domainSame word (bytes name)

/-- `ami_cfg_copy_string`, what the destination of `len` bytes holds afterwards. -/
def copyString (len : ℕ) (dst src : List UInt8) : List UInt8 :=
  if len = 0 then dst else src.take (len - 1)

/-- A value of the configuration and the number of the line it was taken from, zero when it is the
one the parser starts with. The line is not kept by the source. -/
structure Kept (α : Type) where
  value : α
  line : ℕ
  deriving DecidableEq, Repr

/-- The line of the `occur`-th entry of a list that is hit, zero when there are not so many. -/
def occurLine {α : Type} (hits : α → Bool) (lineOf : α → ℕ) (occur : ℕ) (l : List α) : ℕ :=
  ((l.filter hits)[occur]?.map lineOf).getD 0

theorem occurLine_cons {α : Type} (hits : α → Bool) (lineOf : α → ℕ) (occur : ℕ) (a : α)
    (l : List α) :
    occurLine hits lineOf occur (a :: l) =
      if hits a then if occur = 0 then lineOf a else occurLine hits lineOf (occur - 1) l
      else occurLine hits lineOf occur l := by
  rw [occurLine, List.filter_cons]
  by_cases ha : hits a = true
  · rw [if_pos ha, if_pos ha]
    cases occur with
    | zero => rfl
    | succ occur => rfl
  · rw [if_neg ha, if_neg ha]
    rfl

/-- The `occur`-th hit of a list is found among its first entries exactly when it stands there, or
nowhere. -/
theorem occurLine_take_iff {α : Type} {hits : α → Bool} {lineOf : α → ℕ} {l : List α}
    (hline : ∀ a ∈ l, lineOf a ≠ 0) (occur n : ℕ) :
    occurLine hits lineOf occur l = occurLine hits lineOf occur (l.take n) ↔
      l.countP hits ≤ occur ∨ occur < (l.take n).countP hits := by
  rw [List.countP_eq_length_filter, List.countP_eq_length_filter, occurLine, occurLine]
  obtain ⟨rest, hrest⟩ : (l.take n).filter hits <+: l.filter hits := (List.take_prefix n l).filter _
  rcases Nat.lt_or_ge occur ((l.take n).filter hits).length with hin | hout
  · rw [← hrest, List.getElem?_append_left hin]
    simp [hin]
  · rw [List.getElem?_eq_none hout]
    rcases Nat.lt_or_ge occur (l.filter hits).length with hhit | hnone
    · have hne := hline _ (List.mem_of_mem_filter (List.getElem_mem hhit))
      rw [List.getElem?_eq_getElem hhit]
      simp only [Option.map_some, Option.map_none, Option.getD_some, Option.getD_none]
      omega
    · rw [List.getElem?_eq_none hnone]
      simp [hnone]

/-- An accepted entry is appended while there is room for it. -/
def pushBounded {α : Type} (max : ℕ) (l : List α) : Option α → List α
  | none => l
  | some a => if max ≤ l.length then l else l ++ [a]

/-- A loop that appends what it accepts while there is room for `max` entries keeps the first of
all it accepts. `P` is what the loop may rely on. -/
theorem foldl_bounded {σ τ α : Type} {step : σ → τ → σ} (get : σ → List α) {accept : τ → Option α}
    {max : ℕ} (P : σ → Prop) (hP : ∀ s t, P s → P (step s t))
    (hstep : ∀ s t, P s → get (step s t) = pushBounded max (get s) (accept t))
    (ts : List τ) (s : σ) (hs : P s) (hlen : (get s).length ≤ max) :
    get (ts.foldl step s) = (get s ++ ts.filterMap accept).take max := by
  induction ts generalizing s with
  | nil => rw [List.foldl_nil, List.filterMap_nil, List.append_nil, List.take_of_length_le hlen]
  | cons t ts ih =>
    have hnext := hstep s t hs
    rw [List.foldl_cons]
    cases h : accept t with
    | none =>
      rw [h, pushBounded] at hnext
      rw [ih _ (hP s t hs) (hnext ▸ hlen), hnext, List.filterMap_cons_none h]
    | some a =>
      rw [h, pushBounded] at hnext
      rw [List.filterMap_cons_some h]
      by_cases hfull : max ≤ (get s).length
      · rw [if_pos hfull] at hnext
        rw [ih _ (hP s t hs) (hnext ▸ hlen), hnext, List.take_append_of_le_length hfull,
          List.take_append_of_le_length hfull]
      · rw [if_neg hfull] at hnext
        have hroom : (get (step s t)).length ≤ max := by
          rw [hnext, List.length_append]
          exact Nat.lt_of_not_le hfull
        rw [ih _ (hP s t hs) hroom, hnext, List.append_assoc, List.singleton_append]

/-! ### Lines -/

def isLineEnd (c : UInt8) : Bool := c == lf || c == cr

/-- The line break in front of the cursor; CRLF and LFCR count as one. -/
def skipLineBreak : List UInt8 → List UInt8
  | [] => []
  | [_] => []
  | c :: d :: s => if (c = cr ∧ d = lf) ∨ (c = lf ∧ d = cr) then s else d :: s

/-- `ami_cfg_next_line`. -/
def nextLine : Scanner UInt8 (List UInt8) where
  next s :=
    if s = [] then none
    else some (s.takeWhile (! isLineEnd ·), skipLineBreak (s.dropWhile (! isLineEnd ·)))
  shrinks := by
    intro s line rest h
    have hskip : ∀ t : List UInt8, (skipLineBreak t).length ≤ t.length - 1 := by
      intro t
      match t with
      | [] => rfl
      | [_] => rfl
      | c :: d :: t => simp only [skipLineBreak]; split <;> simp
    have hne : s ≠ [] := by
      intro hs
      simp [hs] at h
    rw [if_neg hne, Option.some.injEq, Prod.mk.injEq] at h
    have hdrop := (List.dropWhile_suffix (! isLineEnd ·) (l := s)).length_le
    have hs := List.length_pos_iff.mpr hne
    have := hskip (s.dropWhile (! isLineEnd ·))
    rw [← h.2]
    omega

/-- The lines of a file and their numbers, counted from one. -/
def fileLines (buf : List UInt8) : List (List UInt8 × ℕ) := (nextLine.items (cString buf)).zipIdx 1

theorem fileLines_pos (buf : List UInt8) : ∀ l ∈ fileLines buf, l.2 ≠ 0 := by
  intro l hl
  have := List.le_snd_of_mem_zipIdx hl
  omega

/-! ### Comments and blanks -/

/-- `ami_cfg_strip_comment`: a comment character outside quotes ends the line. Inside them `*` takes
the character behind it along. -/
def stripFrom (chars : List UInt8) : Bool → List UInt8 → List UInt8
  | _, [] => []
  | quoted, c :: s =>
    if c = quote then c :: stripFrom chars (!quoted) s
    else if c = star ∧ quoted = true then
      match s with
      | [] => [c]
      | d :: s => c :: d :: stripFrom chars quoted s
    else if quoted then c :: stripFrom chars quoted s
    else if c ∈ chars then []
    else c :: stripFrom chars quoted s

theorem stripFrom_quote (chars s : List UInt8) (quoted : Bool) :
    stripFrom chars quoted (quote :: s) = quote :: stripFrom chars (!quoted) s := by
  rw [stripFrom.eq_def]
  simp only [↓reduceIte]

theorem stripFrom_escape (chars s : List UInt8) (d : UInt8) :
    stripFrom chars true (star :: d :: s) = star :: d :: stripFrom chars true s := by
  rw [stripFrom.eq_def]
  simp only [show star ≠ quote by decide, and_self, ↓reduceIte]

theorem stripFrom_inside {c : UInt8} (hquote : c ≠ quote) (hstar : c ≠ star)
    (chars s : List UInt8) : stripFrom chars true (c :: s) = c :: stripFrom chars true s := by
  rw [stripFrom.eq_def]
  simp only [hquote, hstar, false_and, ↓reduceIte]

theorem stripFrom_outside {c : UInt8} {chars : List UInt8} (hquote : c ≠ quote) (hc : c ∉ chars)
    (s : List UInt8) : stripFrom chars false (c :: s) = c :: stripFrom chars false s := by
  rw [stripFrom.eq_def]
  simp only [hquote, hc, Bool.false_eq_true, and_false, ↓reduceIte]

def stripComment (chars : String) (line : List UInt8) : List UInt8 :=
  stripFrom (bytes chars) false line

/-- What `ami_cfg_trim` takes off the front. -/
def isSpace (c : UInt8) : Bool := isBlank c || c == 0x0C || c == 0x0B

/-- What `ami_cfg_trim` takes off the end. -/
def isTrailing (c : UInt8) : Bool := isSpace c || c == cr

/-- `ami_cfg_trim`. -/
def trim (s : List UInt8) : List UInt8 := (s.dropWhile isSpace).rdropWhile isTrailing

/-! ### Words and pairs -/

/-- What an escaped character stands for. -/
def escapeOf (c : UInt8) : UInt8 :=
  if c = 'n'.toUInt8 ∨ c = 'N'.toUInt8 then lf
  else if c = 'e'.toUInt8 ∨ c = 'E'.toUInt8 then 0x1B
  else c

/-- `unquote_content`: the text up to the closing quote, and what is behind it. -/
def unquoteContent : List UInt8 → List UInt8 × List UInt8
  | [] => ([], [])
  | c :: s =>
    if c = quote then ([], s)
    else if c = star then
      match s with
      | [] => ([c], [])
      | d :: s => (escapeOf d :: (unquoteContent s).1, (unquoteContent s).2)
    else (c :: (unquoteContent s).1, (unquoteContent s).2)

theorem unquoteContent_length (s : List UInt8) : (unquoteContent s).2.length ≤ s.length := by
  fun_induction unquoteContent s with
  | case1 => exact Nat.le_refl _
  | case2 s => exact Nat.le_succ _
  | case3 => exact Nat.zero_le _
  | case4 d s ih => simp only [List.length_cons]; omega
  | case5 c s _ _ ih => simp only [List.length_cons]; omega

theorem skipBlanks_length (s : List UInt8) : (skipBlanks s).length ≤ s.length :=
  (List.dropWhile_suffix isBlank).length_le

/-- `scan_item`. -/
def scanItem : Scanner UInt8 (List UInt8) where
  next s :=
    match skipBlanks s with
    | [] => none
    | c :: t =>
      if c = quote then some (unquoteContent t)
      else some ((c :: t).takeWhile (! isBlank ·), ((c :: t).dropWhile (! isBlank ·)).tail)
  shrinks := by
    intro s item rest h
    have hle := skipBlanks_length s
    cases hs : skipBlanks s with
    | nil => simp [hs] at h
    | cons c t =>
      rw [hs, List.length_cons] at hle
      simp only [hs] at h
      split at h
      · have hrest := unquoteContent_length t
        rw [Option.some.inj h] at hrest
        exact lt_of_le_of_lt hrest hle
      · have hdrop := (List.dropWhile_suffix (! isBlank ·) (l := c :: t)).length_le
        rw [List.length_cons] at hdrop
        rw [← (Prod.mk.inj (Option.some.inj h)).2, List.length_tail]
        omega

/-- A byte of a keyword. -/
def isKeyByte (c : UInt8) : Bool := ! isBlank c && c != equalSign

/-- The optional `=` between a keyword and its value. -/
def skipEqual (s : List UInt8) : List UInt8 :=
  match skipBlanks s with
  | [] => []
  | c :: t => if c = equalSign then skipBlanks t else c :: t

/-- `ami_cfg_next_pair`: a keyword and its value, empty when there is none. -/
def nextPair : Scanner UInt8 (List UInt8 × List UInt8) where
  next s :=
    match skipBlanks s with
    | [] => none
    | c :: t =>
      let key := (c :: t).takeWhile isKeyByte
      match scanItem.next (skipEqual ((c :: t).dropWhile isKeyByte)) with
      | none => some ((key, []), [])
      | some (value, rest) => some ((key, value), rest)
  shrinks := by
    intro s item rest h
    have hle := skipBlanks_length s
    have hskip : ∀ u : List UInt8, (skipEqual u).length ≤ u.length := by
      intro u
      have hu := skipBlanks_length u
      rw [skipEqual]
      cases hsu : skipBlanks u with
      | nil => exact Nat.zero_le _
      | cons c t =>
        rw [hsu] at hu
        simp only
        split
        · exact (skipBlanks_length t).trans ((Nat.le_succ _).trans hu)
        · exact hu
    cases hs : skipBlanks s with
    | nil => simp [hs] at h
    | cons c t =>
      rw [hs, List.length_cons] at hle
      simp only [hs] at h
      cases hitem : scanItem.next (skipEqual ((c :: t).dropWhile isKeyByte)) with
      | none =>
        simp only [hitem, Option.some.injEq, Prod.mk.injEq] at h
        rw [← h.2, List.length_nil]
        omega
      | some p =>
        simp only [hitem, Option.some.injEq, Prod.mk.injEq] at h
        have hrest := scanItem.shrinks _ _ _ hitem
        have hdrop := (List.dropWhile_suffix isKeyByte (l := c :: t)).length_le
        have := hskip ((c :: t).dropWhile isKeyByte)
        rw [List.length_cons] at hdrop
        rw [← h.2]
        omega

/-- A line as the readers of interfaces, routes and the resolver take it. -/
def cfgLine (line : List UInt8) : List UInt8 := trim (stripComment "#;" line)

/-- A pair of a file. -/
structure Pair where
  line : ℕ
  key : List UInt8
  value : List UInt8
  deriving DecidableEq, Repr

/-- The pairs of one line. -/
def linePairs (line : List UInt8) (lineno : ℕ) : List Pair :=
  (nextPair.items (cfgLine line)).map fun p ↦ ⟨lineno, p.1, p.2⟩

/-- All pairs of a file, line by line. -/
def filePairs (buf : List UInt8) : List Pair := (fileLines buf).flatMap fun l ↦ linePairs l.1 l.2

/-! ### Numbers and words as values -/

/-- `ami_config_parse_ip` with the numbers of the machine. -/
def parseIp (value : List UInt8) : Option ℕ := amiConfigParseIp .machine value

/-- The digits `ami_cfg_parse_ulong` takes in a base. -/
def ulongDigit (base : ℕ) (c : UInt8) : Option ℕ :=
  if '0'.toUInt8 ≤ c ∧ c ≤ '9'.toUInt8 then some (c - '0'.toUInt8).toNat
  else if base = 16 ∧ 'a'.toUInt8 ≤ c ∧ c ≤ 'f'.toUInt8 then some ((c - 'a'.toUInt8).toNat + 10)
  else if base = 16 ∧ 'A'.toUInt8 ≤ c ∧ c ≤ 'F'.toUInt8 then some ((c - 'A'.toUInt8).toNat + 10)
  else none

/-- The loop of `ami_cfg_parse_ulong`: a digit that would overflow is refused. -/
def ulongLoop (base : ℕ) : DigitLoop where
  digit := ulongDigit base
  admits value _ d := decide (value ≤ (0xFFFFFFFF - d) / base)
  next value d := value * base + d

/-- The base the number is written in, and its digits. -/
def ulongBase : List UInt8 → ℕ × List UInt8
  | c :: d :: s =>
    if c = '0'.toUInt8 ∧ (d = 'x'.toUInt8 ∨ d = 'X'.toUInt8) then (16, s) else (10, c :: d :: s)
  | s => (10, s)

/-- `ami_cfg_parse_ulong`. -/
def amiCfgParseUlong (s : List UInt8) : Option ℕ :=
  let (base, s) := ulongBase (skipBlanks s)
  match (ulongLoop base).run 0 0 s with
  | none => none
  | some (value, digits, rest) =>
    if digits = 0 ∨ ! atEnd (skipBlanks rest) then none else some value

theorem ulongDigit_lt {base : ℕ} {c : UInt8} {d : ℕ} (h : ulongDigit base c = some d) :
    d < 266 := by
  rw [ulongDigit] at h
  split at h
  · rw [← Option.some.inj h]
    have := (c - '0'.toUInt8).toNat_lt
    omega
  split at h
  · rw [← Option.some.inj h]
    have := (c - 'a'.toUInt8).toNat_lt
    omega
  split at h
  · rw [← Option.some.inj h]
    have := (c - 'A'.toUInt8).toNat_lt
    omega
  · cases h

/-- No number wraps. -/
theorem amiCfgParseUlong_le {s : List UInt8} {n : ℕ} (h : amiCfgParseUlong s = some n) :
    n ≤ 0xFFFFFFFF := by
  rw [amiCfgParseUlong] at h
  cases hrun : (ulongLoop (ulongBase (skipBlanks s)).1).run 0 0 (ulongBase (skipBlanks s)).2 with
  | none => simp [hrun] at h
  | some r =>
    have hle : r.1 ≤ 0xFFFFFFFF := by
      refine DigitLoop.run_invariant (fun v _ ↦ v ≤ 0xFFFFFFFF) ?_ _ 0 0 (Nat.zero_le _) hrun
      intro v n c d _ hdigit hadmits
      have hd := ulongDigit_lt hdigit
      have hmul := Nat.mul_le_of_le_div _ _ _ (of_decide_eq_true hadmits)
      change v * _ + d ≤ _
      omega
    simp only [hrun] at h
    split at h
    · cases h
    · exact Option.some.inj h ▸ hle

/-- `ami_cfg_parse_long`. -/
def amiCfgParseLong (s : List UInt8) : Option ℤ :=
  let s := skipBlanks s
  let signed := s.head? = some '-'.toUInt8 ∨ s.head? = some '+'.toUInt8
  match amiCfgParseUlong (if signed then s.tail else s) with
  | none => none
  | some magnitude =>
    if s.head? = some '-'.toUInt8 then
      if 0x80000000 < magnitude then none else some (-(magnitude : ℤ))
    else if 0x7FFFFFFF < magnitude then none else some (magnitude : ℤ)

/-- `ami_cfg_parse_bool`. -/
def amiCfgParseBool (s : List UInt8) : Option Bool :=
  if ["yes", "true", "on", "1"].any (isWord s ·) then some true
  else if ["no", "false", "off", "0"].any (isWord s ·) then some false
  else none

/-- The separator `ami_cfg_parse_mac` allows in front of every byte but the first. -/
def skipMacSeparator (i : ℕ) : List UInt8 → List UInt8
  | [] => []
  | c :: s => if 0 < i ∧ (c = ':'.toUInt8 ∨ c = '-'.toUInt8) then s else c :: s

/-- The loop of `ami_cfg_parse_mac`: the bytes it stores, and whether there are six and no more. -/
def macBytes : ℕ → ℕ → List UInt8 → List UInt8 × Bool
  | 0, _, s => ([], atEnd s)
  | n + 1, i, s =>
    match skipMacSeparator i s with
    | c :: d :: s =>
      match ulongDigit 16 c, ulongDigit 16 d with
      | some high, some low =>
        (UInt8.ofNat ((high <<< 4) ||| low) :: (macBytes n (i + 1) s).1, (macBytes n (i + 1) s).2)
      | _, _ => ([], false)
    | _ => ([], false)

/-- `ami_cfg_parse_mac`: what is stored into `out`, also when the text is refused. -/
def amiCfgParseMac (s out : List UInt8) : List UInt8 × Bool :=
  let (stored, ok) := macBytes 6 0 s
  (stored ++ out.drop stored.length, ok)

/-! ### What the passes leave alone -/

section Passes

variable {l rest : List UInt8} {chars : List UInt8}

/-- A run of bytes is taken off up to the first byte that does not belong to it. -/
theorem span_append {p : UInt8 → Bool} (hl : ∀ c ∈ l, p c = true)
    (hrest : ∀ c ∈ rest.head?, p c = false) :
    (l ++ rest).takeWhile p = l ∧ (l ++ rest).dropWhile p = rest := by
  rw [List.takeWhile_append_of_pos hl, List.dropWhile_append_of_pos hl]
  cases rest with
  | nil => exact ⟨List.append_nil l, rfl⟩
  | cons d u =>
    have hd : ¬ p d = true := by rw [hrest d rfl]; decide
    rw [List.takeWhile_cons_of_neg hd, List.dropWhile_cons_of_neg hd]
    exact ⟨List.append_nil l, rfl⟩

theorem nextLine_next (hl : ∀ c ∈ l, isLineEnd c = false) (hrest : rest.head? ≠ some cr) :
    nextLine.next (l ++ lf :: rest) = some (l, rest) := by
  have hstop : ∀ c ∈ (lf :: rest).head?, (! isLineEnd c) = false := by
    rintro c ⟨⟩
    decide
  obtain ⟨htake, hdrop⟩ := span_append (p := fun c ↦ ! isLineEnd c)
    (fun c hc ↦ by rw [hl c hc]; rfl) hstop
  have hskip : skipLineBreak (lf :: rest) = rest := by
    cases rest with
    | nil => rfl
    | cons d t =>
      rw [skipLineBreak, if_neg]
      rintro (⟨h, -⟩ | ⟨-, h⟩)
      · exact absurd h (by decide)
      · exact hrest (congrArg some h)
  simp only [nextLine]
  rw [if_neg (by simp), htake, hdrop, hskip]

theorem mem_intercalate {sep c : UInt8} (parts : List (List UInt8))
    (hc : c ∈ [sep].intercalate parts) : c = sep ∨ ∃ part ∈ parts, c ∈ part := by
  induction parts with
  | nil => cases hc
  | cons part parts ih =>
    cases parts with
    | nil =>
      rw [List.intercalate_singleton] at hc
      exact Or.inr ⟨part, List.mem_singleton_self _, hc⟩
    | cons next parts =>
      rw [List.intercalate_cons_cons, List.mem_append, List.mem_append] at hc
      rcases hc with (hc | hc) | hc
      · exact Or.inr ⟨part, List.mem_cons_self, hc⟩
      · exact Or.inl (List.mem_singleton.mp hc)
      · rcases ih hc with h | ⟨p, hp, hmem⟩
        · exact Or.inl h
        · exact Or.inr ⟨p, List.mem_cons_of_mem _ hp, hmem⟩

theorem cString_eq_self (h : ∀ c ∈ l, c ≠ 0) : cString l = l :=
  List.takeWhile_eq_self_iff.mpr fun c hc ↦ by simpa using h c hc

/-- A line and its line end are a file of one line. -/
theorem fileLines_line (hl : ∀ c ∈ l, isLineEnd c = false) (hzero : ∀ c ∈ l, c ≠ 0) :
    fileLines (l ++ [lf]) = [(l, 1)] := by
  have hall : ∀ c ∈ l ++ [lf], c ≠ 0 := by
    intro c hc
    rcases List.mem_append.mp hc with h | h
    · exact hzero c h
    · rw [List.mem_singleton.mp h]
      decide
  rw [fileLines, cString_eq_self hall, nextLine.items_some (nextLine_next hl (by simp)),
    nextLine.items_none nextLine.next_nil]
  rfl

theorem stripFrom_append (h : ∀ c ∈ l, c ≠ quote ∧ c ∉ chars) :
    stripFrom chars false (l ++ rest) = l ++ stripFrom chars false rest := by
  induction l with
  | nil => rfl
  | cons c l ih =>
    obtain ⟨hquote, hchars⟩ := h c List.mem_cons_self
    rw [List.cons_append, stripFrom_outside hquote hchars,
      ih fun d hd ↦ h d (List.mem_cons_of_mem _ hd), List.cons_append]

theorem trim_eq_self (hhead : ∀ c ∈ l.head?, isSpace c = false)
    (hlast : ∀ c ∈ l.getLast?, isTrailing c = false) : trim l = l := by
  have hdrop : l.dropWhile isSpace = l := by
    cases l with
    | nil => rfl
    | cons c l => rw [List.dropWhile_cons_of_neg (by rw [hhead c rfl]; decide)]
  rw [trim, hdrop, List.rdropWhile_eq_self_iff]
  intro hne
  rw [hlast _ (List.getLast?_eq_getLast_of_ne_nil hne)]
  decide

theorem skipBlanks_eq_self (h : ∀ c ∈ l.head?, isBlank c = false) : skipBlanks l = l := by
  cases l with
  | nil => rfl
  | cons c l => exact List.dropWhile_cons_of_neg (by rw [h c rfl]; decide)

/-- A word that is not quoted ends at a blank or with the line. -/
theorem scanItem_word (hne : l ≠ []) (hl : ∀ c ∈ l, isBlank c = false)
    (hquote : l.head? ≠ some quote) (hrest : ∀ c ∈ rest.head?, isBlank c = true) :
    scanItem.next (l ++ rest) = some (l, rest.tail) := by
  obtain ⟨htake, hdrop⟩ := span_append (p := fun c ↦ ! isBlank c)
    (fun c hc ↦ by rw [hl c hc]; rfl) (fun c hc ↦ by rw [hrest c hc]; rfl)
  obtain ⟨c, t, rfl⟩ := List.exists_cons_of_ne_nil hne
  have hskip : skipBlanks (c :: (t ++ rest)) = c :: (t ++ rest) :=
    skipBlanks_eq_self fun d hd ↦ Option.mem_some.mp hd ▸ hl c List.mem_cons_self
  rw [List.cons_append] at htake hdrop ⊢
  simp only [scanItem, hskip]
  rw [if_neg fun h ↦ hquote (congrArg some h), htake, hdrop]

/-- A pair whose keyword is `l`: the value is the word behind the `=` or the blanks. -/
theorem nextPair_key (hne : l ≠ []) (hl : ∀ c ∈ l, isKeyByte c = true)
    (hrest : ∀ c ∈ rest.head?, isKeyByte c = false) :
    nextPair.next (l ++ rest) = some (((scanItem.next (skipEqual rest)).map fun p ↦
      ((l, p.1), p.2)).getD ((l, []), [])) := by
  obtain ⟨htake, hdrop⟩ := span_append hl hrest
  obtain ⟨c, t, rfl⟩ := List.exists_cons_of_ne_nil hne
  have hblank : isBlank c = false := by
    have := hl c List.mem_cons_self
    simp only [isKeyByte, Bool.and_eq_true, Bool.not_eq_true'] at this
    exact this.1
  have hskip : skipBlanks (c :: (t ++ rest)) = c :: (t ++ rest) :=
    skipBlanks_eq_self fun d hd ↦ Option.mem_some.mp hd ▸ hblank
  rw [List.cons_append] at htake hdrop ⊢
  simp only [nextPair, hskip]
  rw [htake, hdrop]
  cases scanItem.next (skipEqual rest) with
  | none => rfl
  | some p => rfl

end Passes

end AmiNetXDuo.Config
