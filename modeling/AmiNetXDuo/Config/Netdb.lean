import AmiNetXDuo.Config.Text

/-!
# The netdb store

`netdb_parse` reads one of the files hosts, networks, protocols and services. A first pass,
`netdb_measure`, counts the lines and the runs of characters between blanks; from the two numbers
come the sizes of the table of entries and of the pool of alias vectors. The second pass cuts the
lines into words and fills both, and gives up at the first entry whose aliases do not fit.

The two passes do not count the same words: quoted words that touch each other are one run. An
entry of such words can need more of the pool than the whole file was measured to have, and the
file then ends at its line.

## Main definitions

* `netdbMeasure` : the first pass.
* `netdbFields` : what the words of a line say, for each kind of file.
* `netdbAliases`, `netdbLine`, `netdbLoop`, `netdbParse` : the second pass, with a record of the
  places it writes to.
* `lineEntry`, `validLines` : the entries a file describes, one for each valid line.

## Main results

* `netdbLine_skip`, `netdbLine_entry` : one line.
* `netdbLoop_holds` : the loop keeps the entries that fit, up to the first that does not.
* `items_length_le_runs` : without quotes a line has no more words than runs.
* `netdbParse_entries` : the writes are inside the allocations, and every valid line is kept exactly
  when the pool is large enough for all of them.
-/

namespace AmiNetXDuo.Config

/-! ### The first pass -/

/-- The counters of `netdb_measure`. -/
structure Measure where
  lines : ℕ
  tokens : ℕ
  inToken : Bool
  deriving DecidableEq, Repr

def measureByte (m : Measure) (c : UInt8) : Measure :=
  if isLineEnd c then { m with lines := m.lines + 1, inToken := false }
  else if isBlank c then { m with inToken := false }
  else if m.inToken then m
  else { m with inToken := true, tokens := m.tokens + 1 }

/-- `netdb_measure`. -/
def netdbMeasure (buf : List UInt8) : Measure := (cString buf).foldl measureByte ⟨1, 0, false⟩

/-- `max_lines` of `netdb_parse`. -/
def netdbMaxLines (buf : List UInt8) : ℕ := (netdbMeasure buf).lines

/-- `pool_size` of `netdb_parse`. -/
def netdbPoolSize (buf : List UInt8) : ℕ := (netdbMeasure buf).tokens + netdbMaxLines buf + 1

/-- `sizeof(AmiNetdbEntry)`: three pointers and a number. -/
def netdbEntrySize : ℕ := 16

/-- `sizeof(char *)`. -/
def pointerSize : ℕ := 4

/-- The bytes asked for the entries, in the arithmetic of the machine. -/
def netdbEntryBytes (buf : List UInt8) : ℕ := netdbMaxLines buf * netdbEntrySize % 2 ^ 32

/-- The bytes asked for the alias pool. -/
def netdbPoolBytes (buf : List UInt8) : ℕ := netdbPoolSize buf * pointerSize % 2 ^ 32

/-! ### The words of a line -/

/-- `NetdbKind`. -/
inductive NetdbKind
  | hosts
  | networks
  | protocols
  | services
  deriving DecidableEq, Repr

/-- `AMI_NETDB_MAX_TOKENS`. -/
def netdbMaxTokens : ℕ := 34

/-- A line as `netdb_parse` takes it. -/
def netdbText (line : List UInt8) : List UInt8 := trim (stripComment "#" line)

/-- The words of a line, as many as there is room for. -/
def netdbWords (line : List UInt8) : List (List UInt8) :=
  (scanItem.read netdbMaxTokens (netdbText line)).1

/-- What the words of a line say. `row` starts at the word in front of the name, or at the name. -/
structure NetdbFields where
  name : List UInt8
  value : ℕ
  proto : Option (List UInt8)
  row : List (List UInt8)
  deriving DecidableEq, Repr

/-- The row of a hosts line: behind the keyword HOST, or from the address on. -/
def hostRow (words : List (List UInt8)) : Option (List (List UInt8) × ℕ) :=
  let keyed := isWord (words.getD 0 []) "host" && decide (3 ≤ words.length)
  match if keyed then parseIp (words.getD 1 []) else none with
  | some addr => some (words.drop 1, addr)
  | none => (parseIp (words.getD 0 [])).map fun addr ↦ (words, addr)

/-- A port and its protocol, around the first slash; neither is there without the other. -/
def splitSlash (word : List UInt8) : Option (List UInt8 × List UInt8) :=
  match word.dropWhile (· != '/'.toUInt8) with
  | _ :: c :: proto => some (word.takeWhile (· != '/'.toUInt8), c :: proto)
  | _ => none

/-- A number that fits its field. -/
def numberUpTo (max : ℕ) (word : List UInt8) : Option ℕ :=
  (amiCfgParseUlong word).filter (· ≤ max)

/-- The grammar of the four files. -/
def netdbFields (kind : NetdbKind) (words : List (List UInt8)) : Option NetdbFields :=
  match kind with
  | .hosts => (hostRow words).map fun r ↦ ⟨r.1.getD 1 [], r.2, none, r.1⟩
  | .networks =>
    (amiCfgParseNetNumber .machine (words.getD 1 [])).map fun value ↦
      ⟨words.getD 0 [], value, none, words⟩
  | .protocols =>
    (numberUpTo 255 (words.getD 1 [])).map fun value ↦ ⟨words.getD 0 [], value, none, words⟩
  | .services =>
    (splitSlash (words.getD 1 [])).bind fun r ↦
      (numberUpTo 65535 r.1).map fun value ↦ ⟨words.getD 0 [], value, some r.2, words⟩

/-! ### The second pass -/

/-- `AmiNetdbEntry`. The aliases are a place in the pool, where a vector starts that ends with
NULL. -/
structure NetdbEntry where
  name : List UInt8
  aliases : ℕ
  value : ℕ
  proto : Option (List UInt8)
  deriving DecidableEq, Repr

/-- `NetdbTable`, with the pool as far as it is written, and the indices written to in the two
allocations. -/
structure NetdbTable where
  entries : List NetdbEntry
  pool : List (Option (List UInt8))
  entryWrites : List ℕ
  poolWrites : List ℕ
  deriving DecidableEq, Repr

/-- `netdb_aliases`: the table and the place of the vector. -/
def netdbAliases (poolSize : ℕ) (t : NetdbTable) (row : List (List UInt8)) (firstAlias : ℕ) :
    Option (NetdbTable × ℕ) :=
  let aliases := row.drop firstAlias
  if poolSize - t.pool.length < aliases.length + 1 then none
  else
    some ({ t with
        pool := t.pool ++ (aliases.map some ++ [none])
        poolWrites :=
          t.poolWrites ++ (List.range (aliases.length + 1)).map (t.pool.length + ·) },
      t.pool.length)

/-- One line; the answer says whether the loop goes on. -/
def netdbLine (kind : NetdbKind) (maxLines poolSize : ℕ) (t : NetdbTable) (line : List UInt8) :
    NetdbTable × Bool :=
  let words := netdbWords line
  if words.length < 2 then (t, true)
  else if maxLines ≤ t.entries.length then (t, false)
  else
    -- the entry is cleared before it is known to be one
    let t := { t with entryWrites := t.entryWrites ++ [t.entries.length] }
    match netdbFields kind words with
    | none => (t, true)
    | some f =>
      match netdbAliases poolSize t f.row 2 with
      | none => (t, false)
      | some (t, aliases) =>
        ({ t with entries := t.entries ++ [⟨f.name, aliases, f.value, f.proto⟩] }, true)

/-- The loop of `netdb_parse`. -/
def netdbLoop (kind : NetdbKind) (maxLines poolSize : ℕ) :
    NetdbTable → List (List UInt8) → NetdbTable
  | t, [] => t
  | t, line :: lines =>
    match netdbLine kind maxLines poolSize t line with
    | (t, true) => netdbLoop kind maxLines poolSize t lines
    | (t, false) => t

/-- `netdb_parse`; `memory` says whether both allocations succeed. -/
def netdbParse (memory : Bool) (kind : NetdbKind) (buf : List UInt8) : Option NetdbTable :=
  if memory then
    some (netdbLoop kind (netdbMaxLines buf) (netdbPoolSize buf) ⟨[], [], [], []⟩
      (nextLine.items (cString buf)))
  else none

/-! ### What a file describes -/

/-- An entry with its aliases. -/
structure NetdbView where
  name : List UInt8
  value : ℕ
  proto : Option (List UInt8)
  aliases : List (List UInt8)
  deriving DecidableEq, Repr

/-- The entry of a valid line. -/
def lineEntry (kind : NetdbKind) (line : List UInt8) : Option NetdbView :=
  if (netdbWords line).length < 2 then none
  else (netdbFields kind (netdbWords line)).map fun f ↦ ⟨f.name, f.value, f.proto, f.row.drop 2⟩

/-- The entries of all valid lines of a file, in order. -/
def validLines (kind : NetdbKind) (buf : List UInt8) : List NetdbView :=
  (nextLine.items (cString buf)).filterMap (lineEntry kind)

/-- The room an entry takes in the pool: its aliases and the NULL behind them. -/
def NetdbView.need (v : NetdbView) : ℕ := v.aliases.length + 1

/-- The vector that starts at a place of the pool. -/
def aliasVector (pool : List (Option (List UInt8))) (start : ℕ) : List (List UInt8) :=
  ((pool.drop start).takeWhile Option.isSome).reduceOption

/-- The entries of a table, read through their pointers. -/
def NetdbTable.view (t : NetdbTable) : List NetdbView :=
  t.entries.map fun e ↦ ⟨e.name, e.value, e.proto, aliasVector t.pool e.aliases⟩

/-- The first entries that fit into a pool together, up to the first that does not. -/
def fitting : ℕ → List NetdbView → List NetdbView
  | _, [] => []
  | room, v :: vs => if v.need ≤ room then v :: fitting (room - v.need) vs else []

theorem fitting_isPrefix (room : ℕ) (vs : List NetdbView) : fitting room vs <+: vs := by
  induction vs generalizing room with
  | nil => exact List.prefix_refl []
  | cons v vs ih =>
    rw [fitting]
    split
    · exact (List.prefix_cons_inj v).mpr (ih _)
    · exact List.nil_prefix

/-- Everything is kept exactly when there is room for everything. -/
theorem fitting_eq_self_iff (room : ℕ) (vs : List NetdbView) :
    fitting room vs = vs ↔ (vs.map NetdbView.need).sum ≤ room := by
  induction vs generalizing room with
  | nil => simp [fitting]
  | cons v vs ih =>
    rw [fitting, List.map_cons, List.sum_cons]
    split
    · rename_i hfits
      rw [List.cons.injEq, ih]
      constructor
      · rintro ⟨-, h⟩
        omega
      · intro h
        exact ⟨rfl, by omega⟩
    · rename_i hfits
      constructor
      · intro h
        cases h
      · intro h
        omega

/-! ### The table of a list of entries -/

/-- The pool with the vectors of a list of entries. -/
def poolOf (vs : List NetdbView) : List (Option (List UInt8)) :=
  vs.flatMap fun v ↦ v.aliases.map some ++ [none]

theorem length_poolOf_append (vs : List NetdbView) (v : NetdbView) :
    (poolOf (vs ++ [v])).length = (poolOf vs).length + v.need := by
  simp [poolOf, NetdbView.need]

/-- The entries with vectors from a place on. -/
def entriesOf : ℕ → List NetdbView → List NetdbEntry
  | _, [] => []
  | start, v :: vs => ⟨v.name, start, v.value, v.proto⟩ :: entriesOf (start + v.need) vs

theorem entriesOf_append (start : ℕ) (vs : List NetdbView) (v : NetdbView) :
    entriesOf start (vs ++ [v]) =
      entriesOf start vs ++ [⟨v.name, start + (poolOf vs).length, v.value, v.proto⟩] := by
  induction vs generalizing start with
  | nil => rfl
  | cons u vs ih =>
    have hlen : start + u.need + (poolOf vs).length = start + (poolOf (u :: vs)).length := by
      simp [poolOf, NetdbView.need]
      omega
    rw [List.cons_append, entriesOf, ih, hlen, entriesOf, List.cons_append]

theorem entriesOf_length (start : ℕ) (vs : List NetdbView) :
    (entriesOf start vs).length = vs.length := by
  induction vs generalizing start with
  | nil => rfl
  | cons v vs ih => rw [entriesOf, List.length_cons, List.length_cons, ih]

/-- A vector in the pool is read back up to its NULL. -/
theorem aliasVector_append (before after : List (Option (List UInt8)))
    (aliases : List (List UInt8)) :
    aliasVector (before ++ (aliases.map some ++ [none]) ++ after) before.length = aliases := by
  have hall : ∀ a ∈ aliases.map some, Option.isSome a = true := by
    intro a ha
    obtain ⟨b, -, rfl⟩ := List.mem_map.mp ha
    rfl
  rw [aliasVector, List.append_assoc, List.drop_left, List.append_assoc,
    List.takeWhile_append_of_pos hall, List.singleton_append,
    List.takeWhile_cons_of_neg (by decide), List.append_nil]
  change (aliases.map some).filterMap id = aliases
  rw [List.filterMap_map]
  exact List.filterMap_some

theorem view_entriesOf (before : List (Option (List UInt8))) (vs : List NetdbView) :
    (entriesOf before.length vs).map (fun e ↦ (⟨e.name, e.value, e.proto,
      aliasVector (before ++ poolOf vs) e.aliases⟩ : NetdbView)) = vs := by
  induction vs generalizing before with
  | nil => rfl
  | cons v vs ih =>
    have hpool : before ++ poolOf (v :: vs) =
        before ++ (v.aliases.map some ++ [none]) ++ poolOf vs := by
      rw [poolOf, List.flatMap_cons, ← List.append_assoc]
      rfl
    have hstart : before.length + v.need = (before ++ (v.aliases.map some ++ [none])).length := by
      simp [NetdbView.need]
    rw [entriesOf, List.map_cons, hpool, aliasVector_append, hstart, ih]

/-- The table holds the entries `vs`, and everything was written inside its allocation. -/
structure NetdbTable.Holds (maxLines poolSize : ℕ) (t : NetdbTable) (vs : List NetdbView) :
    Prop where
  entries : t.entries = entriesOf 0 vs
  pool : t.pool = poolOf vs
  room : (poolOf vs).length ≤ poolSize
  entryWrites : ∀ i ∈ t.entryWrites, i < maxLines
  poolWrites : ∀ i ∈ t.poolWrites, i < poolSize

section Loop

variable {kind : NetdbKind} {maxLines poolSize : ℕ} {t : NetdbTable} {vs : List NetdbView}
  {line : List UInt8}

theorem NetdbTable.Holds.view_eq (h : t.Holds maxLines poolSize vs) : t.view = vs := by
  rw [NetdbTable.view, h.entries, h.pool]
  exact view_entriesOf [] vs

theorem NetdbTable.Holds.length_eq (h : t.Holds maxLines poolSize vs) :
    t.entries.length = vs.length := by
  rw [h.entries, entriesOf_length]

/-- The entry is cleared inside its allocation. -/
theorem NetdbTable.Holds.clear (h : t.Holds maxLines poolSize vs) (hroom : vs.length < maxLines) :
    ({ t with entryWrites := t.entryWrites ++ [t.entries.length] } : NetdbTable).Holds
      maxLines poolSize vs := by
  refine ⟨h.entries, h.pool, h.room, fun i hi ↦ ?_, h.poolWrites⟩
  rcases List.mem_append.mp hi with hi | hi
  · exact h.entryWrites i hi
  · rw [List.mem_singleton.mp hi, h.length_eq]
    exact hroom

/-- A line that says nothing leaves the table as it is. -/
theorem netdbLine_skip (h : t.Holds maxLines poolSize vs) (hroom : vs.length < maxLines)
    (hline : lineEntry kind line = none) :
    (netdbLine kind maxLines poolSize t line).2 = true ∧
      (netdbLine kind maxLines poolSize t line).1.Holds maxLines poolSize vs := by
  rw [lineEntry] at hline
  rw [netdbLine]
  simp only
  split
  · exact ⟨rfl, h⟩
  · rename_i hwords
    rw [if_neg hwords, Option.map_eq_none_iff] at hline
    rw [if_neg (by rw [h.length_eq]; omega), hline]
    exact ⟨rfl, h.clear hroom⟩

/-- What a line says, once there are words enough. -/
theorem netdbLine_valid {v : NetdbView} (h : t.Holds maxLines poolSize vs)
    (hroom : vs.length < maxLines) (hline : lineEntry kind line = some v) :
    ∃ f : NetdbFields, v = ⟨f.name, f.value, f.proto, f.row.drop 2⟩ ∧
      netdbLine kind maxLines poolSize t line =
        match netdbAliases poolSize { t with entryWrites := t.entryWrites ++ [t.entries.length] }
          f.row 2 with
        | none => ({ t with entryWrites := t.entryWrites ++ [t.entries.length] }, false)
        | some (t, aliases) =>
          ({ t with entries := t.entries ++ [⟨f.name, aliases, f.value, f.proto⟩] }, true) := by
  rw [lineEntry] at hline
  split at hline
  · cases hline
  · rename_i hwords
    obtain ⟨f, hf, hv⟩ := Option.map_eq_some_iff.mp hline
    refine ⟨f, hv.symm, ?_⟩
    rw [netdbLine]
    simp only
    rw [if_neg hwords, if_neg (by rw [h.length_eq]; omega), hf]

/-- A line that says something is entered if its aliases fit, and ends the loop elsewhere. -/
theorem netdbLine_entry {v : NetdbView} (h : t.Holds maxLines poolSize vs)
    (hroom : vs.length < maxLines) (hline : lineEntry kind line = some v) :
    (netdbLine kind maxLines poolSize t line).2 =
        decide (v.need ≤ poolSize - (poolOf vs).length) ∧
      (netdbLine kind maxLines poolSize t line).1.Holds maxLines poolSize
        (if v.need ≤ poolSize - (poolOf vs).length then vs ++ [v] else vs) := by
  obtain ⟨f, rfl, heq⟩ := netdbLine_valid h hroom hline
  have hclear := h.clear hroom
  split_ifs with hfits
  · rw [decide_eq_true hfits, heq, netdbAliases]
    simp only [NetdbView.need] at hfits ⊢
    rw [h.pool, if_neg (by omega)]
    refine ⟨rfl, ?_, ?_, ?_, hclear.entryWrites, ?_⟩
    · simp only [h.entries, entriesOf_append, Nat.zero_add]
    · simp only [poolOf, List.flatMap_append, List.flatMap_singleton]
    · have := h.room
      simp only [length_poolOf_append, NetdbView.need]
      omega
    · intro i hi
      rcases List.mem_append.mp hi with hi | hi
      · exact h.poolWrites i hi
      · obtain ⟨j, hj, rfl⟩ := List.mem_map.mp hi
        rw [List.mem_range] at hj
        omega
  · rw [decide_eq_false hfits, heq, netdbAliases]
    simp only [NetdbView.need] at hfits ⊢
    rw [if_pos (by rw [h.pool]; omega)]
    exact ⟨rfl, hclear⟩

/-- **The loop.** With as many entries as there are lines it enters the valid lines in order, as
long as their aliases fit. -/
theorem netdbLoop_holds (lines : List (List UInt8)) (t : NetdbTable) (vs : List NetdbView)
    (h : t.Holds maxLines poolSize vs) (hroom : vs.length + lines.length ≤ maxLines) :
    (netdbLoop kind maxLines poolSize t lines).Holds maxLines poolSize
      (vs ++ fitting (poolSize - (poolOf vs).length) (lines.filterMap (lineEntry kind))) := by
  induction lines generalizing t vs with
  | nil => simpa [netdbLoop, fitting] using h
  | cons line lines ih =>
    rw [List.length_cons] at hroom
    have hline : vs.length < maxLines := by omega
    rw [netdbLoop]
    cases hentry : lineEntry kind line with
    | none =>
      obtain ⟨hgo, hholds⟩ := netdbLine_skip h hline hentry
      rw [← Prod.eta (netdbLine kind maxLines poolSize t line), hgo]
      rw [List.filterMap_cons_none hentry]
      exact ih _ _ hholds (by omega)
    | some v =>
      obtain ⟨hgo, hholds⟩ := netdbLine_entry h hline hentry
      rw [← Prod.eta (netdbLine kind maxLines poolSize t line), hgo,
        List.filterMap_cons_some hentry, fitting]
      split_ifs at hholds ⊢ with hfits
      · rw [decide_eq_true hfits]
        have hrest := ih _ _ hholds (by rw [List.length_append, List.length_singleton]; omega)
        have hlen : poolSize - (poolOf (vs ++ [v])).length =
            poolSize - (poolOf vs).length - v.need := by
          rw [length_poolOf_append, Nat.sub_add_eq]
        rwa [hlen, List.append_assoc, List.singleton_append] at hrest
      · rw [decide_eq_false hfits, List.append_nil]
        exact hholds

end Loop

/-! ### The lines and the runs of a text -/

/-- The runs of a text: of bytes that are neither blanks nor line ends. -/
def runs : Bool → List UInt8 → ℕ
  | _, [] => 0
  | inToken, c :: s =>
    if isLineEnd c || isBlank c then runs false s
    else (if inToken then 0 else 1) + runs true s

theorem foldl_measureByte (s : List UInt8) (m : Measure) :
    (s.foldl measureByte m).lines = m.lines + s.countP isLineEnd ∧
      (s.foldl measureByte m).tokens = m.tokens + runs m.inToken s := by
  induction s generalizing m with
  | nil => exact ⟨rfl, rfl⟩
  | cons c s ih =>
    rw [List.foldl_cons, List.countP_cons, runs, (ih _).1, (ih _).2, measureByte]
    cases hend : isLineEnd c with
    | true =>
      simp only [↓reduceIte, Bool.true_or, and_true]
      omega
    | false =>
      cases hblank : isBlank c with
      | true => exact ⟨by simp, by simp⟩
      | false =>
        cases htoken : m.inToken with
        | true => exact ⟨by simp, by simp [htoken]⟩
        | false =>
          refine ⟨by simp, ?_⟩
          simp only [Bool.false_eq_true, Bool.or_self, ↓reduceIte]
          omega

theorem netdbMaxLines_eq (buf : List UInt8) :
    netdbMaxLines buf = 1 + (cString buf).countP isLineEnd :=
  (foldl_measureByte (cString buf) ⟨1, 0, false⟩).1

theorem netdbPoolSize_eq (buf : List UInt8) :
    netdbPoolSize buf = runs false (cString buf) + netdbMaxLines buf + 1 := by
  have htokens := (foldl_measureByte (cString buf) ⟨1, 0, false⟩).2
  rw [Nat.zero_add] at htokens
  rw [netdbPoolSize, netdbMeasure, htokens]

/-- The runs of a text in two parts: the second may start inside a run of the first. -/
theorem runs_append (inToken : Bool) (s t : List UInt8) :
    ∃ inside, runs inToken (s ++ t) = runs inToken s + runs inside t ∧
      (inside = true → inToken = true ∨ 0 < runs inToken s) := by
  induction s generalizing inToken with
  | nil => exact ⟨inToken, (Nat.zero_add _).symm, Or.inl⟩
  | cons c s ih =>
    rw [List.cons_append, runs, runs]
    split
    · obtain ⟨inside, heq, himp⟩ := ih false
      refine ⟨inside, heq, fun h ↦ ?_⟩
      rcases himp h with h | h
      · cases h
      · exact Or.inr h
    · obtain ⟨inside, heq, -⟩ := ih true
      refine ⟨inside, by rw [heq, Nat.add_assoc], fun _ ↦ ?_⟩
      cases inToken with
      | true => exact Or.inl rfl
      | false => exact Or.inr (by rw [if_neg Bool.false_ne_true]; omega)

/-- Starting inside a run loses that run at most. -/
theorem runs_inside (s : List UInt8) : runs false s ≤ runs true s + 1 := by
  cases s with
  | nil => exact Nat.le_succ _
  | cons c s =>
    rw [runs, runs]
    split
    · exact Nat.le_succ _
    · simp only [Bool.false_eq_true, ↓reduceIte]
      omega

/-- A part of a text has no more runs. -/
theorem runs_mono {s t : List UInt8} (h : s <:+: t) : runs false s ≤ runs false t := by
  obtain ⟨before, after, rfl⟩ := h
  obtain ⟨inside, heq, himp⟩ := runs_append false before (s ++ after)
  obtain ⟨inside', heq', -⟩ := runs_append inside s after
  rw [List.append_assoc, heq, heq']
  have hin := runs_inside s
  cases inside with
  | false => omega
  | true =>
    rcases himp rfl with h | h
    · cases h
    · omega

/-- A line end ends a run. -/
theorem runs_lineEnd {c : UInt8} (hc : isLineEnd c = true) (inToken : Bool) (s : List UInt8) :
    runs inToken (c :: s) = runs false s := by
  rw [runs, hc, Bool.true_or, if_pos rfl]

theorem runs_blank {c : UInt8} (hc : isBlank c = true) (inToken : Bool) (s : List UInt8) :
    runs inToken (c :: s) = runs false s := by
  rw [runs, hc, Bool.or_true, if_pos rfl]

/-- What a line break leaves has no more line ends and runs, and one line end less if there was a
break at all. -/
theorem skipLineBreak_counts {s : List UInt8} (h : ∀ c ∈ s.head?, isLineEnd c = true) :
    (s = [] ∨ (skipLineBreak s).countP isLineEnd + 1 ≤ s.countP isLineEnd) ∧
      ∀ inToken, runs inToken s = runs false (skipLineBreak s) := by
  match s with
  | [] => exact ⟨Or.inl rfl, fun _ ↦ rfl⟩
  | [c] =>
    have hc := h c rfl
    exact ⟨Or.inr (by simp [skipLineBreak, hc]), fun b ↦ runs_lineEnd hc b []⟩
  | c :: d :: s =>
    have hc := h c rfl
    rw [skipLineBreak]
    split
    · rename_i hpair
      have hd : isLineEnd d = true := by
        rcases hpair with ⟨-, rfl⟩ | ⟨-, rfl⟩ <;> decide
      refine ⟨Or.inr ?_, fun b ↦ ?_⟩
      · rw [List.countP_cons_of_pos hc, List.countP_cons_of_pos hd]
        omega
      · rw [runs_lineEnd hc, runs_lineEnd hd]
    · refine ⟨Or.inr ?_, fun b ↦ runs_lineEnd hc b _⟩
      rw [List.countP_cons_of_pos hc]

theorem skipLineBreak_suffix (s : List UInt8) : skipLineBreak s <:+ s := by
  rcases s with _ | ⟨c, _ | ⟨d, s⟩⟩
  · exact List.suffix_refl []
  · exact List.nil_suffix
  · rw [skipLineBreak]
    split
    · exact (List.suffix_cons d s).trans (List.suffix_cons c _)
    · exact List.suffix_cons c _

/-- One line, and what is left behind it. -/
theorem nextLine_some {s line rest : List UInt8} (h : nextLine.next s = some (line, rest)) :
    (∀ c ∈ line, isLineEnd c = false) ∧ line <+: s ∧ rest <:+ s ∧
      (rest = [] ∨ rest.countP isLineEnd + 1 ≤ s.countP isLineEnd) ∧
      runs false line + runs false rest = runs false s := by
  simp only [nextLine] at h
  split at h
  · cases h
  · obtain ⟨rfl, rfl⟩ := Prod.mk.inj (Option.some.inj h)
    have hsplit := List.takeWhile_append_dropWhile (p := (! isLineEnd ·)) (l := s)
    have hsuffix : s.dropWhile (! isLineEnd ·) <:+ s := List.dropWhile_suffix _
    have hhead : ∀ c ∈ (s.dropWhile (! isLineEnd ·)).head?, isLineEnd c = true := by
      intro c hc
      simpa [Option.mem_def.mp hc] using List.head?_dropWhile_not (! isLineEnd ·) s
    obtain ⟨hcount, hruns⟩ := skipLineBreak_counts hhead
    refine ⟨fun c hc ↦ ?_, List.takeWhile_prefix _, (skipLineBreak_suffix _).trans hsuffix, ?_, ?_⟩
    · simpa using List.mem_takeWhile_imp hc
    · rcases hcount with hnil | hcount
      · exact Or.inl (by rw [hnil]; rfl)
      · exact Or.inr (hcount.trans hsuffix.sublist.countP_le)
    · obtain ⟨inside, heq, -⟩ :=
        runs_append false (s.takeWhile (! isLineEnd ·)) (s.dropWhile (! isLineEnd ·))
      rw [hsplit, hruns] at heq
      exact heq.symm

/-- There are no more lines than the first pass counts. -/
theorem lines_length_le (s : List UInt8) :
    (nextLine.items s).length ≤ 1 + s.countP isLineEnd := by
  induction s using nextLine.induction with
  | hnone s h => simp [nextLine.items_none h]
  | hsome s line rest h ih =>
    rw [nextLine.items_some h, List.length_cons]
    obtain ⟨-, -, -, hcount, -⟩ := nextLine_some h
    rcases hcount with rfl | hcount
    · rw [nextLine.items_none nextLine.next_nil]
      exact Nat.le_add_right 1 _
    · omega

/-- The runs of the lines are the runs of the text. -/
theorem lines_runs (s : List UInt8) : ((nextLine.items s).map (runs false)).sum = runs false s := by
  induction s using nextLine.induction with
  | hnone s h =>
    have hs : s = [] := by
      by_contra hne
      simp [nextLine, hne] at h
    rw [nextLine.items_none h, hs]
    rfl
  | hsome s line rest h ih =>
    rw [nextLine.items_some h, List.map_cons, List.sum_cons, ih]
    exact (nextLine_some h).2.2.2.2

theorem lines_spec {s line : List UInt8} (hline : line ∈ nextLine.items s) :
    (∀ c ∈ line, isLineEnd c = false) ∧ ∀ c ∈ line, c ∈ s := by
  induction s using nextLine.induction with
  | hnone s h => simp [nextLine.items_none h] at hline
  | hsome s first rest h ih =>
    obtain ⟨hends, hpre, hsuffix, -⟩ := nextLine_some h
    rw [nextLine.items_some h] at hline
    rcases List.mem_cons.mp hline with rfl | hline
    · exact ⟨hends, fun c hc ↦ hpre.mem hc⟩
    · exact ⟨(ih hline).1, fun c hc ↦ hsuffix.mem ((ih hline).2 c hc)⟩

/-! ### Words and runs -/

theorem stripFrom_isPrefix (chars : List UInt8) (quoted : Bool) (s : List UInt8) :
    stripFrom chars quoted s <+: s := by
  fun_induction stripFrom chars quoted s with
  | case1 => exact List.prefix_refl []
  | case2 quoted s ih => exact (List.prefix_cons_inj _).mpr ih
  | case3 => exact List.prefix_refl _
  | case4 quoted c d s _ _ ih =>
    exact (List.prefix_cons_inj _).mpr ((List.prefix_cons_inj _).mpr ih)
  | case5 c s _ _ ih => exact (List.prefix_cons_inj _).mpr ih
  | case6 => exact List.nil_prefix
  | case7 quoted c s _ _ _ _ ih => exact (List.prefix_cons_inj _).mpr ih

theorem netdbText_isInfix (line : List UInt8) : netdbText line <:+: line := by
  have htrim : netdbText line <:+: stripComment "#" line :=
    (List.rdropWhile_prefix _ _).isInfix.trans (List.dropWhile_suffix _).isInfix
  exact htrim.trans (stripFrom_isPrefix _ _ _).isInfix

/-- A word that is not quoted: the blanks in front of it, its bytes, and the blank behind it. -/
theorem scanItem_plain {s item rest : List UInt8} (hquote : quote ∉ s)
    (h : scanItem.next s = some (item, rest)) :
    ∃ before behind, s = before ++ (item ++ behind) ∧ (∀ c ∈ before, isBlank c = true) ∧
      (∀ c ∈ item, isBlank c = false) ∧ item ≠ [] ∧
      (behind = [] ∧ rest = [] ∨ ∃ b, isBlank b = true ∧ behind = b :: rest) := by
  have hsplit := List.takeWhile_append_dropWhile (p := isBlank) (l := s)
  simp only [scanItem] at h
  cases hs : skipBlanks s with
  | nil => simp [hs] at h
  | cons c t =>
    have hdrop : s.dropWhile isBlank = c :: t := hs
    have hblank : isBlank c = false := by
      have := List.head?_dropWhile_not isBlank s
      simpa [hdrop] using this
    have hc : c ≠ quote := by
      rintro rfl
      exact hquote (by rw [← hsplit, hdrop]; simp)
    rw [hs] at h
    simp only [if_neg hc] at h
    obtain ⟨rfl, rfl⟩ := Prod.mk.inj (Option.some.inj h)
    have hword := List.takeWhile_append_dropWhile (p := (! isBlank ·)) (l := c :: t)
    refine ⟨s.takeWhile isBlank, (c :: t).dropWhile (! isBlank ·), ?_, ?_, ?_, ?_, ?_⟩
    · rw [hword, ← hdrop, hsplit]
    · exact fun d hd ↦ List.mem_takeWhile_imp hd
    · exact fun d hd ↦ by simpa using List.mem_takeWhile_imp hd
    · simp [hblank]
    · cases hbehind : (c :: t).dropWhile (! isBlank ·) with
      | nil => exact Or.inl ⟨rfl, rfl⟩
      | cons b u =>
        have hb : isBlank b = true := by
          have := List.head?_dropWhile_not (! isBlank ·) (c :: t)
          simpa [hbehind] using this
        exact Or.inr ⟨b, hb, rfl⟩

theorem runs_blanks {before : List UInt8} (h : ∀ c ∈ before, isBlank c = true) (s : List UInt8) :
    runs false (before ++ s) = runs false s := by
  induction before with
  | nil => rfl
  | cons c before ih =>
    rw [List.cons_append, runs_blank (h c List.mem_cons_self),
      ih fun d hd ↦ h d (List.mem_cons_of_mem _ hd)]

theorem runs_word_pos {item : List UInt8} (hne : item ≠ []) (hblank : ∀ c ∈ item, isBlank c = false)
    (hend : ∀ c ∈ item, isLineEnd c = false) : 0 < runs false item := by
  cases item with
  | nil => exact absurd rfl hne
  | cons c item =>
    rw [runs, hend c List.mem_cons_self, hblank c List.mem_cons_self]
    simp only [Bool.or_self, Bool.false_eq_true, ↓reduceIte]
    omega

/-- **Words are runs.** In a line without quotes every word is a run of its own. -/
theorem items_length_le_runs (s : List UInt8) (hend : ∀ c ∈ s, isLineEnd c = false)
    (hquote : quote ∉ s) : (scanItem.items s).length ≤ runs false s := by
  induction s using scanItem.induction with
  | hnone s h => simp [scanItem.items_none h]
  | hsome s item rest h ih =>
    rw [scanItem.items_some h, List.length_cons]
    obtain ⟨before, behind, rfl, hbefore, hitem, hne, hbehind⟩ := scanItem_plain hquote h
    have hpos : 0 < runs false item :=
      runs_word_pos hne hitem fun c hc ↦ hend c (by simp [hc])
    rw [runs_blanks hbefore]
    obtain ⟨inside, heq, -⟩ := runs_append false item behind
    rw [heq]
    rcases hbehind with ⟨rfl, rfl⟩ | ⟨b, hb, rfl⟩
    · rw [scanItem.items_none scanItem.next_nil, List.length_nil]
      omega
    · have hrest := ih (fun c hc ↦ hend c (by simp [hc])) (fun hq ↦ hquote (by simp [hq]))
      rw [runs_blank hb]
      omega

/-- The row of an entry is the words of its line, or all but the first of them. -/
theorem netdbFields_row {kind : NetdbKind} {words : List (List UInt8)} {f : NetdbFields}
    (h : netdbFields kind words = some f) : f.row.length ≤ words.length := by
  cases kind with
  | hosts =>
    obtain ⟨r, hr, rfl⟩ := Option.map_eq_some_iff.mp h
    simp only [hostRow] at hr
    split at hr
    · rw [← Option.some.inj hr, List.length_drop]
      exact Nat.sub_le _ _
    · obtain ⟨addr, -, rfl⟩ := Option.map_eq_some_iff.mp hr
      exact Nat.le_refl _
  | networks =>
    obtain ⟨value, -, rfl⟩ := Option.map_eq_some_iff.mp h
    exact Nat.le_refl _
  | protocols =>
    obtain ⟨value, -, rfl⟩ := Option.map_eq_some_iff.mp h
    exact Nat.le_refl _
  | services =>
    obtain ⟨r, -, h⟩ := Option.bind_eq_some_iff.mp h
    obtain ⟨value, -, rfl⟩ := Option.map_eq_some_iff.mp h
    exact Nat.le_refl _

/-- An entry needs less of the pool than its line has words. -/
theorem lineEntry_need {kind : NetdbKind} {line : List UInt8} {v : NetdbView}
    (h : lineEntry kind line = some v) : v.need ≤ (scanItem.items (netdbText line)).length := by
  rw [lineEntry] at h
  split at h
  · cases h
  · rename_i hwords
    obtain ⟨f, hf, rfl⟩ := Option.map_eq_some_iff.mp h
    have hrow := netdbFields_row hf
    have hread : (netdbWords line).length ≤ (scanItem.items (netdbText line)).length := by
      rw [netdbWords, scanItem.read_fst, List.length_take]
      exact Nat.min_le_right _ _
    rw [NetdbView.need, List.length_drop]
    omega

theorem need_sum_le_runs {kind : NetdbKind} {lines : List (List UInt8)}
    (h : ∀ line ∈ lines, ∀ v, lineEntry kind line = some v → v.need ≤ runs false line) :
    ((lines.filterMap (lineEntry kind)).map NetdbView.need).sum ≤ (lines.map (runs false)).sum := by
  induction lines with
  | nil => exact Nat.le_refl _
  | cons line lines ih =>
    have hrest := ih fun l hl ↦ h l (List.mem_cons_of_mem _ hl)
    rw [List.map_cons, List.sum_cons]
    cases hentry : lineEntry kind line with
    | none =>
      rw [List.filterMap_cons_none hentry]
      omega
    | some v =>
      have hv := h line List.mem_cons_self v hentry
      rw [List.filterMap_cons_some hentry, List.map_cons, List.sum_cons]
      omega

/-- **Without quotes there is room for everything.** -/
theorem need_le_poolSize (kind : NetdbKind) (buf : List UInt8) (hquote : quote ∉ cString buf) :
    ((validLines kind buf).map NetdbView.need).sum ≤ netdbPoolSize buf := by
  have hall : ∀ line ∈ nextLine.items (cString buf), ∀ v, lineEntry kind line = some v →
      v.need ≤ runs false line := by
    intro line hline v hv
    obtain ⟨hend, hmem⟩ := lines_spec hline
    have hin := netdbText_isInfix line
    have hwords := items_length_le_runs (netdbText line) (fun c hc ↦ hend c (hin.mem hc))
      (fun hq ↦ hquote (hmem _ (hin.mem hq)))
    exact (lineEntry_need hv).trans (hwords.trans (runs_mono hin))
  have hsum := need_sum_le_runs hall
  rw [lines_runs] at hsum
  rw [validLines, netdbPoolSize_eq]
  omega

/-! ### The whole file -/

/-- The table that `netdb_parse` leaves. -/
theorem netdbParse_holds (kind : NetdbKind) (buf : List UInt8) :
    ∃ t, netdbParse true kind buf = some t ∧ t.Holds (netdbMaxLines buf) (netdbPoolSize buf)
      (fitting (netdbPoolSize buf) (validLines kind buf)) := by
  have hempty : NetdbTable.Holds (netdbMaxLines buf) (netdbPoolSize buf) ⟨[], [], [], []⟩ [] :=
    ⟨rfl, rfl, Nat.zero_le _, by simp, by simp⟩
  have hroom : ([] : List NetdbView).length + (nextLine.items (cString buf)).length ≤
      netdbMaxLines buf := by
    rw [List.length_nil, Nat.zero_add, netdbMaxLines_eq]
    exact lines_length_le _
  exact ⟨_, rfl, netdbLoop_holds _ _ _ hempty hroom⟩

/-- **The netdb store.** When the sizes of the two allocations do not wrap, everything is written
inside them. The entries are those of the first valid lines, in order and whole; none of the valid
lines is missing exactly when the alias vectors of all of them fit into the pool, and so in
particular when the file has no quotes. -/
theorem netdbParse_entries (kind : NetdbKind) (buf : List UInt8)
    (hentries : netdbMaxLines buf * netdbEntrySize < 2 ^ 32)
    (hpool : netdbPoolSize buf * pointerSize < 2 ^ 32) :
    ∃ t, netdbParse true kind buf = some t ∧
      (∀ i ∈ t.entryWrites, (i + 1) * netdbEntrySize ≤ netdbEntryBytes buf) ∧
      (∀ i ∈ t.poolWrites, (i + 1) * pointerSize ≤ netdbPoolBytes buf) ∧
      t.view <+: validLines kind buf ∧
      (t.view = validLines kind buf ↔
        ((validLines kind buf).map NetdbView.need).sum ≤ netdbPoolSize buf) ∧
      (quote ∉ cString buf → t.view = validLines kind buf) := by
  obtain ⟨t, hparse, hholds⟩ := netdbParse_holds kind buf
  have hiff : t.view = validLines kind buf ↔
      ((validLines kind buf).map NetdbView.need).sum ≤ netdbPoolSize buf := by
    rw [hholds.view_eq]
    exact fitting_eq_self_iff _ _
  refine ⟨t, hparse, fun i hi ↦ ?_, fun i hi ↦ ?_, ?_, hiff, fun hquote ↦ ?_⟩
  · rw [netdbEntryBytes, Nat.mod_eq_of_lt hentries]
    exact Nat.mul_le_mul_right _ (hholds.entryWrites i hi)
  · rw [netdbPoolBytes, Nat.mod_eq_of_lt hpool]
    exact Nat.mul_le_mul_right _ (hholds.poolWrites i hi)
  · rw [hholds.view_eq]
    exact fitting_isPrefix _ _
  · exact hiff.mpr (need_le_poolSize kind buf hquote)

/-- A hosts file with a keyword, an alias and a comment. -/
theorem netdbParse_entries_hosts :
    ∃ t, netdbParse true .hosts (bytes "HOST 10.0.0.1 gw router\n# none\n10.0.0.2 nas\n") = some t ∧
      t.view = [⟨bytes "gw", 0x0A000001, none, [bytes "router"]⟩,
        ⟨bytes "nas", 0x0A000002, none, []⟩] := by
  obtain ⟨t, hparse, -, -, -, -, hview⟩ := netdbParse_entries .hosts
    (bytes "HOST 10.0.0.1 gw router\n# none\n10.0.0.2 nas\n")
    (by decide +kernel) (by decide +kernel)
  refine ⟨t, hparse, ?_⟩
  rw [hview (by decide +kernel)]
  decide +kernel

/-- Two hosts, the first written with quoted words that touch. -/
def touchingHosts : List UInt8 :=
  bytes "\"1.2.3.4\"\"n\"\"a\"\"b\"\"c\"\"d\"\"e\"\"f\"\"g\"\n10.0.0.1 gw\n"

/-- The first line needs eight places of a pool of seven, and the second is lost with it. -/
theorem netdbParse_touching :
    (netdbParse true .hosts touchingHosts).map NetdbTable.view = some [] ∧
      (validLines .hosts touchingHosts).map NetdbView.name = [bytes "n", bytes "gw"] := by
  decide +kernel

end AmiNetXDuo.Config
