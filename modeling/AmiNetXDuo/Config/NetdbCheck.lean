import AmiNetXDuo.Config.Netdb

/-!
# One line of a netdb file

CheckNetConfig tells the user what the loader makes of each line of the netdb files. It has a
grammar of its own, `ami_netdb_line_verdict`, which is to accept what `netdb_parse` accepts, step
for step. It reads one word more than the loader does, to see the words the loader leaves behind,
and it looks at the words of a hosts line in another order.

The two agree on the words of a line. The checker knows nothing of the pool the loader puts the
aliases in, so a line of quoted words that touch each other can be an entry for it and be given up
by the loader.

## Main definitions

* `netdbLineVerdict` : the checker, with the word it names.
* `NetdbCreates`, `WordsUnread` : what the loader does with a line on its own.
* `AliasesFit` : the pool the loader measures is large enough for the line.

## Main results

* `netdbRowVerdict_accepted`, `netdbRowVerdict_rejected` : the two grammars on the words of a line.
* `netdbLineVerdict_parse` : the verdict is what the loader does exactly when the aliases fit the
  pool.
-/

namespace AmiNetXDuo.Config

open AmiNetXDuo.Netstack (domainKey domainFold domainSame_iff)

/-! ### The checker -/

/-- The `AMI_NETDB_LINE_` answers. -/
inductive NetdbVerdict
  | skip
  | entry
  | short
  | bad
  | cut
  deriving DecidableEq, Repr

/-- `NETDB_CHECK_LINE`. -/
def netdbCheckLine : ℕ := 256

/-- `netdb_check_word`, what `word` holds afterwards. -/
def netdbCheckWord (wordlen : ℕ) (text : List UInt8) : List UInt8 := copyString wordlen [] text

/-- A letter as `netdb_check_keyword` compares it. -/
def upperByte (c : UInt8) : UInt8 :=
  if 'a'.toUInt8 ≤ c ∧ c ≤ 'z'.toUInt8 then c - 'a'.toUInt8 + 'A'.toUInt8 else c

/-- `netdb_check_keyword`: the keyword, and the end of the word or `=` behind it. -/
def netdbCheckKeyword : List UInt8 → List UInt8 → Bool
  | token, [] => token.head?.all (· == equalSign)
  | [], _ :: _ => false
  | a :: token, b :: keyword => upperByte a == b && netdbCheckKeyword token keyword

/-- `netdb_check_resolver`. -/
def netdbCheckResolver (token : List UInt8) : Bool :=
  ["NAMESERVER", "DOMAIN", "SEARCH", "HOSTNAME"].any fun keyword ↦
    netdbCheckKeyword token (bytes keyword)

/-- `netdb_check_entry`. -/
def netdbCheckEntry (dropped : Option (List UInt8)) (wordlen : ℕ) : NetdbVerdict × List UInt8 :=
  match dropped with
  | none => (.entry, [])
  | some word => (.cut, netdbCheckWord wordlen word)

/-- The second word of a line that is not a host. -/
def netdbCheckValue (kind : NetdbKind) (word : List UInt8) : Bool :=
  match kind with
  | .hosts => false
  | .networks => (amiCfgParseNetNumber .machine word).isSome
  | .protocols => (numberUpTo 255 word).isSome
  | .services => ((splitSlash word).bind fun r ↦ numberUpTo 65535 r.1).isSome

/-- `ami_netdb_line_verdict`, from the words of the line on. -/
def netdbRowVerdict (kind : NetdbKind) (row : List (List UInt8)) (dropped : Option (List UInt8))
    (wordlen : ℕ) : NetdbVerdict × List UInt8 :=
  if kind = .hosts then
    if row = [] then (.skip, [])
    else if isWord (row.getD 0 []) "host" then
      if row.length < 3 then (.short, [])
      else if (parseIp (row.getD 1 [])).isNone then (.bad, netdbCheckWord wordlen (row.getD 1 []))
      else netdbCheckEntry dropped wordlen
    else if (parseIp (row.getD 0 [])).isNone then
      if netdbCheckResolver (row.getD 0 []) then (.skip, [])
      else (.bad, netdbCheckWord wordlen (row.getD 0 []))
    else if row.length < 2 then (.short, [])
    else netdbCheckEntry dropped wordlen
  else if row.length < 2 then (.short, [])
  else if netdbCheckValue kind (row.getD 1 []) then netdbCheckEntry dropped wordlen
  else (.bad, netdbCheckWord wordlen (row.getD 1 []))

/-- The text the checker cuts into words. -/
def netdbCheckText (text : List UInt8) : List UInt8 :=
  let buf := copyString netdbCheckLine [] (cString text)
  trim ((trim (stripComment "#" buf)).rdropWhile (· == lf))

/-- `ami_netdb_line_verdict`: the answer, and the word it is about. -/
def netdbLineVerdict (kind : NetdbKind) (text : List UInt8) (wordlen : ℕ) :
    NetdbVerdict × List UInt8 :=
  let line := netdbCheckText text
  if line = [] then (.skip, [])
  else
    let tokens := (scanItem.read (netdbMaxTokens + 1) line).1
    netdbRowVerdict kind (tokens.take netdbMaxTokens) tokens[netdbMaxTokens]? wordlen

/-! ### The two grammars -/

section Rows

variable {kind : NetdbKind} {row : List (List UInt8)}

private theorem fold_h_table :
    ∀ n < 256, domainFold (UInt8.ofNat n) = 'h'.toUInt8 →
      isBlank (UInt8.ofNat n) = false ∧ atEnd [UInt8.ofNat n] = false ∧
        decimalDigit (UInt8.ofNat n) = none := by
  decide +kernel

/-- The keyword HOST is no address. -/
theorem parseIp_host {word : List UInt8} (h : isWord word "host" = true) : parseIp word = none := by
  cases word with
  | nil => rfl
  | cons c word =>
    have hkey := domainSame_iff.mp h
    have hc : domainFold c = 'h'.toUInt8 := (List.cons.inj hkey).1
    have htable := fold_h_table c.toNat c.toNat_lt
    rw [UInt8.ofNat_toNat] at htable
    obtain ⟨hblank, hend, hdigit⟩ := htable hc
    have hskip : skipBlanks (c :: word) = c :: word := by
      rw [skipBlanks, List.dropWhile_cons_of_neg (by rw [hblank]; decide)]
    have hpart : splitPart .machine (c :: word) = none := by
      rw [splitPart, DigitLoop.run_stop (l := decimalBelow .machine 255)]
      · rfl
      · intro d hd
        rw [← Option.some.inj hd]
        exact hdigit
    have hsplit : splitDotted .machine (c :: word) = none := by
      have hend' : atEnd (c :: word) = false := hend
      rw [splitDotted, hskip]
      simp only [hend', dottedParts, hpart, Bool.false_eq_true, ↓reduceIte]
    rw [parseIp, amiConfigParseIp, hsplit]

/-- The value of a line that is not a host is the one the loader parses. -/
theorem netdbCheckValue_iff (hkind : kind ≠ .hosts) :
    netdbCheckValue kind (row.getD 1 []) = (netdbFields kind row).isSome := by
  cases kind with
  | hosts => exact absurd rfl hkind
  | networks => rw [netdbCheckValue, netdbFields, Option.isSome_map]
  | protocols => rw [netdbCheckValue, netdbFields, Option.isSome_map]
  | services =>
    rw [netdbCheckValue, netdbFields]
    cases splitSlash (row.getD 1 []) with
    | none => rfl
    | some r => simp only [Option.bind_some, Option.isSome_map]

/-- What a hosts line needs to be an entry. -/
theorem hostRow_isSome (row : List (List UInt8)) :
    (netdbFields .hosts row).isSome =
      if isWord (row.getD 0 []) "host" then
        decide (3 ≤ row.length) && (parseIp (row.getD 1 [])).isSome
      else (parseIp (row.getD 0 [])).isSome := by
  rw [netdbFields, Option.isSome_map, hostRow]
  generalize row.getD 0 [] = first
  generalize row.getD 1 [] = second
  cases hhost : isWord first "host" with
  | false => simp
  | true =>
    by_cases hlen : 3 ≤ row.length
    · cases hip : parseIp second with
      | none => simp [hlen, parseIp_host hhost]
      | some addr => simp [hlen]
    · simp [hlen, parseIp_host hhost]

/-- **A line the loader takes.** The checker takes it too. -/
theorem netdbRowVerdict_accepted (hlen : 2 ≤ row.length)
    (h : (netdbFields kind row).isSome = true) (dropped : Option (List UInt8)) (wordlen : ℕ) :
    netdbRowVerdict kind row dropped wordlen = netdbCheckEntry dropped wordlen := by
  rw [netdbRowVerdict]
  split
  · rename_i hkind
    subst hkind
    rw [hostRow_isSome] at h
    rw [if_neg (by rintro rfl; simp at hlen)]
    generalize row.getD 0 [] = first at h ⊢
    generalize row.getD 1 [] = second at h ⊢
    cases hhost : isWord first "host" with
    | true =>
      rw [hhost, if_pos rfl, Bool.and_eq_true, decide_eq_true_eq] at h
      rw [if_pos rfl, if_neg (by omega), if_neg (by simp [Option.isSome_iff_ne_none.mp h.2])]
    | false =>
      rw [hhost, if_neg Bool.false_ne_true] at h
      rw [if_neg Bool.false_ne_true, if_neg (by simp [Option.isSome_iff_ne_none.mp h]),
        if_neg (by omega)]
  · rename_i hkind
    rw [if_neg (by omega), netdbCheckValue_iff hkind, if_pos h]

/-- **A line the loader leaves.** The checker calls it neither an entry nor cut. -/
theorem netdbRowVerdict_rejected
    (h : ¬ (2 ≤ row.length ∧ (netdbFields kind row).isSome = true))
    (dropped : Option (List UInt8)) (wordlen : ℕ) :
    (netdbRowVerdict kind row dropped wordlen).1 ≠ .entry ∧
      (netdbRowVerdict kind row dropped wordlen).1 ≠ .cut := by
  rw [netdbRowVerdict]
  split
  · rename_i hkind
    subst hkind
    rw [hostRow_isSome] at h
    generalize row.getD 0 [] = first at h ⊢
    generalize row.getD 1 [] = second at h ⊢
    split
    · simp
    · cases hhost : isWord first "host" with
      | true =>
        rw [if_pos rfl]
        split
        · simp
        · have hip : parseIp second = none := by
            by_contra hne
            exact h ⟨by omega, by simp [hhost, Option.isSome_iff_ne_none.mpr hne]; omega⟩
          simp [hip]
      | false =>
        rw [if_neg Bool.false_ne_true]
        split
        · split <;> simp
        · rename_i hip
          have hsome : (parseIp first).isSome = true := by
            simpa [Option.isSome_iff_ne_none] using hip
          have hshort : row.length < 2 := by
            by_contra hlen
            exact h ⟨by omega, by simp [hhost, hsome]⟩
          simp [hshort]
  · rename_i hkind
    split
    · simp
    · have hvalue : netdbCheckValue kind (row.getD 1 []) = false := by
        rw [netdbCheckValue_iff hkind]
        by_contra hsome
        exact h ⟨by omega, by simpa [Option.isSome_iff_ne_none] using hsome⟩
      rw [hvalue]
      simp

end Rows

/-! ### The line the two read -/

/-- The loader makes an entry of a line on its own. -/
def NetdbCreates (kind : NetdbKind) (line : List UInt8) : Prop :=
  ∃ t, netdbParse true kind line = some t ∧ t.view ≠ []

/-- The loader leaves words of a line unread. -/
def WordsUnread (line : List UInt8) : Prop :=
  (scanItem.next (scanItem.read netdbMaxTokens (netdbText (cString line))).2).isSome = true

section Lines

variable {kind : NetdbKind} {line : List UInt8}

theorem trim_trim (s : List UInt8) : trim (trim s) = trim s := by
  apply trim_eq_self
  · intro c hc
    have hpre : trim s <+: s.dropWhile isSpace := List.rdropWhile_prefix _ _
    have hhead := List.head?_dropWhile_not isSpace s
    obtain ⟨rest, hrest⟩ := hpre
    cases htrim : trim s with
    | nil => simp [htrim] at hc
    | cons d t =>
      rw [htrim] at hc hrest
      rw [← hrest] at hhead
      rw [← Option.some.inj hc]
      simpa using hhead
  · intro c hc
    have hne : trim s ≠ [] := by
      intro hnil
      simp [hnil] at hc
    have hlast := List.rdropWhile_last_not isTrailing (s.dropWhile isSpace) hne
    rw [List.getLast?_eq_getLast_of_ne_nil hne] at hc
    rw [← Option.some.inj hc]
    exact Bool.not_eq_true _ ▸ hlast

/-- Both cut the same text into words. -/
theorem netdbCheckText_eq (hlen : line.length ≤ 255) (hline : ∀ c ∈ line, isLineEnd c = false) :
    netdbCheckText line = netdbText (cString line) := by
  have hcopy : copyString netdbCheckLine [] (cString line) = cString line := by
    rw [copyString, if_neg (by decide)]
    exact List.take_of_length_le ((List.takeWhile_prefix _).length_le.trans hlen)
  have hlf : (netdbText (cString line)).rdropWhile (· == lf) = netdbText (cString line) := by
    rw [List.rdropWhile_eq_self_iff]
    intro hne hlast
    have hmem : lf ∈ netdbText (cString line) := by
      rw [← beq_iff_eq.mp hlast]
      exact List.getLast_mem hne
    have hline' := hline lf ((List.takeWhile_prefix _).mem ((netdbText_isInfix _).mem hmem))
    exact absurd hline' (by decide)
  rw [netdbCheckText, hcopy]
  change trim ((netdbText (cString line)).rdropWhile (· == lf)) = _
  rw [hlf, netdbText, trim_trim]

/-- The words of the verdict are the words of the loader, and the one behind them. -/
theorem netdbVerdict_words (kind : NetdbKind) (wordlen : ℕ) (hlen : line.length ≤ 255)
    (hline : ∀ c ∈ line, isLineEnd c = false) :
    netdbLineVerdict kind line wordlen =
      if netdbText (cString line) = [] then (.skip, [])
      else netdbRowVerdict kind (netdbWords (cString line))
        (scanItem.items (netdbText (cString line)))[netdbMaxTokens]? wordlen := by
  rw [netdbLineVerdict, netdbCheckText_eq hlen hline]
  simp only [netdbWords, scanItem.read_fst]
  rw [List.take_take, Nat.min_eq_left (Nat.le_succ _),
    List.getElem?_take_of_lt (Nat.lt_succ_self _)]

/-- A text without line ends is one line, or none. -/
theorem validLines_line (kind : NetdbKind) (hline : ∀ c ∈ line, isLineEnd c = false) :
    validLines kind line = (lineEntry kind (cString line)).toList := by
  rw [validLines]
  cases hs : cString line with
  | nil =>
    rw [nextLine.items_none nextLine.next_nil]
    cases kind <;> rfl
  | cons c s =>
    have hend : ∀ d ∈ c :: s, (! isLineEnd d) = true := by
      intro d hd
      rw [hline d ((List.takeWhile_prefix _).mem (hs ▸ hd))]
      rfl
    have hnext : nextLine.next (c :: s) = some (c :: s, []) := by
      simp only [nextLine]
      rw [if_neg (List.cons_ne_nil c s), List.takeWhile_eq_self_iff.mpr hend,
        List.dropWhile_eq_nil_iff.mpr hend]
      rfl
    rw [nextLine.items_some hnext, nextLine.items_none nextLine.next_nil]
    cases hentry : lineEntry kind (c :: s) with
    | none => rw [List.filterMap_cons_none hentry]; rfl
    | some v => rw [List.filterMap_cons_some hentry]; rfl

/-- The words of a line are those of an entry. -/
def NetdbAccepts (kind : NetdbKind) (line : List UInt8) : Prop :=
  2 ≤ (netdbWords (cString line)).length ∧
    (netdbFields kind (netdbWords (cString line))).isSome = true

/-- The pool the first pass measures has room for the aliases of the line. -/
def AliasesFit (kind : NetdbKind) (line : List UInt8) : Prop :=
  ((validLines kind line).map NetdbView.need).sum ≤ netdbPoolSize line

theorem netdbAccepts_iff (kind : NetdbKind) (line : List UInt8) :
    NetdbAccepts kind line ↔ (lineEntry kind (cString line)).isSome = true := by
  rw [NetdbAccepts, lineEntry]
  split
  · rename_i hshort
    simp only [Option.isSome_none, Bool.false_eq_true, iff_false, not_and]
    omega
  · rename_i hwords
    rw [Option.isSome_map]
    exact ⟨fun h ↦ h.2, fun h ↦ ⟨by omega, h⟩⟩

/-- A line that is no entry asks for no room. -/
theorem aliasesFit_of_not_accepts (hline : ∀ c ∈ line, isLineEnd c = false)
    (h : ¬ NetdbAccepts kind line) : AliasesFit kind line := by
  have hnone : lineEntry kind (cString line) = none := by
    rw [netdbAccepts_iff] at h
    exact Option.not_isSome_iff_eq_none.mp h
  rw [AliasesFit, validLines_line kind hline, hnone]
  exact Nat.zero_le _

/-- What the loader needs of a line: the words of an entry, and room for its aliases. -/
theorem netdbCreates_iff (hline : ∀ c ∈ line, isLineEnd c = false) :
    NetdbCreates kind line ↔ NetdbAccepts kind line ∧ AliasesFit kind line := by
  obtain ⟨t, hparse, hholds⟩ := netdbParse_holds kind line
  have hcreates : NetdbCreates kind line ↔
      fitting (netdbPoolSize line) (validLines kind line) ≠ [] := by
    rw [NetdbCreates, hparse]
    simp [hholds.view_eq]
  rw [hcreates, netdbAccepts_iff, AliasesFit, validLines_line kind hline]
  cases lineEntry kind (cString line) with
  | none => simp [fitting]
  | some v => simp [fitting]

theorem wordsUnread_iff (line : List UInt8) :
    WordsUnread line ↔
      ((scanItem.items (netdbText (cString line)))[netdbMaxTokens]?).isSome = true := by
  rw [WordsUnread, Option.isSome_iff_ne_none, ne_eq, scanItem.read_snd_eq_none_iff,
    Option.isSome_iff_ne_none, ne_eq, List.getElem?_eq_none_iff]

/-- What the checker makes of a line: it sees the words alone. -/
theorem netdbLineVerdict_iff (kind : NetdbKind) (wordlen : ℕ) (hlen : line.length ≤ 255)
    (hline : ∀ c ∈ line, isLineEnd c = false) :
    ((netdbLineVerdict kind line wordlen).1 = .entry ∨
      (netdbLineVerdict kind line wordlen).1 = .cut ↔ NetdbAccepts kind line) ∧
    ((netdbLineVerdict kind line wordlen).1 = .cut ↔
      NetdbAccepts kind line ∧ WordsUnread line) := by
  rw [netdbVerdict_words kind wordlen hlen hline, NetdbAccepts, wordsUnread_iff]
  split
  · rename_i hnil
    have hwords : (netdbWords (cString line)).length = 0 := by
      rw [netdbWords, hnil, scanItem.read_fst, scanItem.items_none scanItem.next_nil]
      rfl
    simp [hwords]
  · by_cases haccept : 2 ≤ (netdbWords (cString line)).length ∧
        (netdbFields kind (netdbWords (cString line))).isSome = true
    · rw [netdbRowVerdict_accepted haccept.1 haccept.2]
      cases (scanItem.items (netdbText (cString line)))[netdbMaxTokens]? with
      | none => simp [netdbCheckEntry, haccept]
      | some word => simp [netdbCheckEntry, haccept]
    · have hrejected := netdbRowVerdict_rejected haccept
        (scanItem.items (netdbText (cString line)))[netdbMaxTokens]? wordlen
      simp [hrejected, haccept]

/-- **The verdict on a line.** A line of at most 255 bytes is an entry or cut exactly when the
loader makes an entry of it, and cut exactly when the loader then leaves words unread: this holds
of the lines whose aliases fit the pool, as they do without quotes, and of no others. -/
theorem netdbLineVerdict_parse (kind : NetdbKind) (line : List UInt8) (wordlen : ℕ)
    (hlen : line.length ≤ 255) (hline : ∀ c ∈ line, isLineEnd c = false) :
    (((netdbLineVerdict kind line wordlen).1 = .entry ∨
        (netdbLineVerdict kind line wordlen).1 = .cut ↔ NetdbCreates kind line) ∧
      ((netdbLineVerdict kind line wordlen).1 = .cut ↔
        NetdbCreates kind line ∧ WordsUnread line)) ↔
      AliasesFit kind line := by
  obtain ⟨hentry, hcut⟩ := netdbLineVerdict_iff kind wordlen hlen hline
  rw [hentry, hcut, netdbCreates_iff hline]
  constructor
  · rintro ⟨hagree, -⟩
    by_cases haccept : NetdbAccepts kind line
    · exact (hagree.mp haccept).2
    · exact aliasesFit_of_not_accepts hline haccept
  · intro hfit
    simp only [hfit, and_true]

end Lines

/-- A service line with one word too many. -/
def longService : List UInt8 :=
  bytes "web 80/tcp a b c d e f g h i j k l m n o p q r s t u v w x y z A B C D E F G"

theorem netdbLineVerdict_parse_long :
    (netdbLineVerdict .services longService 80).1 = .cut ∧ NetdbCreates .services longService ∧
      WordsUnread longService := by
  have h := (netdbLineVerdict_parse .services longService 80 (by decide +kernel)
    (by decide +kernel)).mpr (by rw [AliasesFit]; decide +kernel)
  have hcut : (netdbLineVerdict .services longService 80).1 = .cut := by decide +kernel
  exact ⟨hcut, h.2.mp hcut⟩

/-- A host written with five quoted words that touch. -/
def touchingLine : List UInt8 := bytes "\"1.2.3.4\"\"n\"\"a\"\"b\"\"c\""

/-- It is an entry for the checker, and has too many aliases for the loader. -/
theorem netdbLineVerdict_touching :
    (netdbLineVerdict .hosts touchingLine 80).1 = .entry ∧ ¬ NetdbCreates .hosts touchingLine := by
  have hparse : (netdbParse true .hosts touchingLine).map NetdbTable.view = some [] := by
    decide +kernel
  refine ⟨by decide +kernel, ?_⟩
  rintro ⟨t, ht, hview⟩
  rw [ht] at hparse
  exact hview (Option.some.inj hparse)

end AmiNetXDuo.Config
