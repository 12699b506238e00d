import AmiNetXDuo.Config.Text
import AmiNetXDuo.Netstack.DefaultDomain

/-!
# The resolver file

`DEVS:Internet/name_resolution` is read one pair a line. CheckNetConfig names the line a name server
stands on with a second reader, and NetPrefs writes the `hostname` line the parser reads back.

## Main definitions

* `amiCfgParseResolver` : the parser.
* `amiCfgNameserverLine` : the line of a name server.
* `amiCfgHostnameLine` : the line that sets the host name.

## Main results

* `parseResolver_nameservers` : the parser keeps the first four lines that name a server.
* `nameserverLine_kept` : the finder counts all of them, and is right on those that are kept.
* `hostnameLine_parse` : a written host name is read back.
-/

namespace AmiNetXDuo.Config

open AmiNetXDuo.Netstack (cfgDomainLen cfgMaxNameservers cfgMaxSearch cfgNameLen hostnameValid
  labelValid)

/-! ### The parser -/

/-- A slot of `nameserver[]` and `nameserver_use[]`, and the line it was taken from, which the
source does not keep. -/
structure Nameserver where
  addr : ℕ
  use : ℤ
  line : ℕ
  deriving DecidableEq, Repr

/-- `AMI_CFG_PREFER_*`. -/
inductive Prefer
  | unset
  | static
  | dynamic
  deriving DecidableEq, Repr

/-- The part of `AmiResolverConfig` the parser writes, and the buffer for the host name when it is
given one. -/
structure ResolverConfig where
  nameserver : List Nameserver
  domain : List UInt8
  search : List (List UInt8)
  searchStatic : ℕ
  prefer : Prefer
  hostname : Option (List UInt8)
  deriving DecidableEq, Repr

/-- `NAMESERVER`: a value that parses, while there is room. -/
def takeNameserver (out : ResolverConfig) (lineno : ℕ) (value : List UInt8) : ResolverConfig :=
  match parseIp value with
  | none => out
  | some addr =>
    if cfgMaxNameservers ≤ out.nameserver.length then out
    else { out with nameserver := out.nameserver ++ [⟨addr, -1, lineno⟩] }

/-- `SEARCH`: the value and the words behind it. -/
def takeSearch (out : ResolverConfig) (value pos : List UInt8) : ResolverConfig :=
  let first := if value = [] then [] else [value]
  let domains := (first ++ (scanItem.read cfgMaxSearch pos).1).take cfgMaxSearch
  { out with
    search := domains.map fun d ↦ d.take (cfgNameLen - 1)
    searchStatic := domains.length }

/-- `PREFER`. -/
def takePrefer (out : ResolverConfig) (value : List UInt8) : ResolverConfig :=
  if isWord value "static" then { out with prefer := .static }
  else if isWord value "dynamic" then { out with prefer := .dynamic }
  else out

/-- `HOST <address> <name>`: the first entry that is not the loopback names this machine. -/
def takeHost (out : ResolverConfig) (hostnameLen : ℕ) (value pos : List UInt8) : ResolverConfig :=
  match parseIp value, nextPair.next pos with
  | some addr, some ((name, _), _) =>
    if out.hostname = some [] ∧ addr >>> 24 ≠ 127 ∧ addr ≠ 0 then
      { out with hostname := some (copyString hostnameLen [] name) }
    else out
  | _, _ => out

/-- One line of `ami_cfg_parse_resolver`; only its first pair is read. -/
def resolverLine (hostnameLen : ℕ) (out : ResolverConfig) (l : List UInt8 × ℕ) : ResolverConfig :=
  match nextPair.next (cfgLine l.1) with
  | none => out
  | some ((key, value), pos) =>
    if isWord key "nameserver" then takeNameserver out l.2 value
    else if isWord key "domain" then { out with domain := value.take (cfgDomainLen - 1) }
    else if isWord key "search" then takeSearch out value pos
    else if isWord key "prefer" then takePrefer out value
    else if isWord key "host" then takeHost out hostnameLen value pos
    else if isWord key "hostname" then
      { out with hostname := out.hostname.map fun old ↦ copyString hostnameLen old value }
    else out

/-- `ami_cfg_parse_resolver`. -/
def amiCfgParseResolver (buf : List UInt8) (out : ResolverConfig) (hostnameLen : ℕ) :
    ResolverConfig :=
  (fileLines buf).foldl (resolverLine hostnameLen) out

/-- A zeroed `AmiResolverConfig`. -/
def ResolverConfig.zero (hostname : Option (List UInt8)) : ResolverConfig :=
  ⟨[], [], [], 0, .unset, hostname⟩

/-! ### The line of a name server -/

/-- What the finder takes a line for. -/
def nameserverOf (line : List UInt8) : Option ℕ :=
  match nextPair.next (cfgLine line) with
  | none => none
  | some ((key, value), _) => if isWord key "nameserver" then parseIp value else none

/-- The loop of `ami_cfg_nameserver_line`. -/
def nameserverLineLoop (want : ℕ) : ℕ → List (List UInt8 × ℕ) → ℕ
  | _, [] => 0
  | occur, l :: ls =>
    match nameserverOf l.1 with
    | none => nameserverLineLoop want occur ls
    | some ip =>
      if ip = want then
        if occur = 0 then l.2 else nameserverLineLoop want (occur - 1) ls
      else nameserverLineLoop want occur ls

/-- `ami_cfg_nameserver_line`. -/
def amiCfgNameserverLine (buf : List UInt8) (want occur : ℕ) : ℕ :=
  nameserverLineLoop want occur (fileLines buf)

/-- Every line that names a server, whether it is kept or not. -/
def namedServers (ls : List (List UInt8 × ℕ)) : List Nameserver :=
  ls.filterMap fun l ↦ (nameserverOf l.1).map fun addr ↦ ⟨addr, -1, l.2⟩

theorem nameserverLineLoop_eq (want occur : ℕ) (ls : List (List UInt8 × ℕ)) :
    nameserverLineLoop want occur ls =
      occurLine (fun s ↦ s.addr = want) Nameserver.line occur (namedServers ls) := by
  induction ls generalizing occur with
  | nil => rfl
  | cons l ls ih =>
    rw [nameserverLineLoop, namedServers]
    cases h : nameserverOf l.1 with
    | none => rw [List.filterMap_cons_none (by rw [h]; rfl)]; exact ih occur
    | some ip =>
      rw [List.filterMap_cons_some (by rw [h]; rfl), occurLine_cons]
      simp only [decide_eq_true_eq]
      by_cases hip : ip = want
      · rw [if_pos hip, if_pos hip]
        by_cases hzero : occur = 0
        · rw [if_pos hzero, if_pos hzero]
        · rw [if_neg hzero, if_neg hzero]
          exact ih (occur - 1)
      · rw [if_neg hip, if_neg hip]
        exact ih occur

theorem resolverLine_nameserver (hostnameLen : ℕ) (out : ResolverConfig) (l : List UInt8 × ℕ) :
    (resolverLine hostnameLen out l).nameserver =
      pushBounded cfgMaxNameservers out.nameserver
        ((nameserverOf l.1).map fun addr ↦ ⟨addr, -1, l.2⟩) := by
  rw [resolverLine, nameserverOf]
  cases h : nextPair.next (cfgLine l.1) with
  | none => rfl
  | some p =>
    simp only
    by_cases hkey : isWord p.1.1 "nameserver" = true
    · rw [if_pos hkey, if_pos hkey, takeNameserver]
      cases parseIp p.1.2 with
      | none => rfl
      | some addr =>
        rw [Option.map_some, pushBounded]
        simp only
        split <;> rfl
    · rw [if_neg hkey, if_neg hkey]
      simp only [takeSearch, takePrefer, takeHost]
      split_ifs <;> first | rfl | skip
      cases parseIp p.1.2 with
      | none => rfl
      | some addr =>
        cases nextPair.next p.2 with
        | none => rfl
        | some q =>
          simp only
          split <;> rfl

/-- The parser keeps the first lines that name a server, as many as there is room for. -/
theorem parseResolver_nameservers (buf : List UInt8) (hostname : Option (List UInt8))
    (hostnameLen : ℕ) :
    (amiCfgParseResolver buf (.zero hostname) hostnameLen).nameserver =
      (namedServers (fileLines buf)).take cfgMaxNameservers :=
  foldl_bounded ResolverConfig.nameserver (fun _ ↦ True) (fun _ _ _ ↦ trivial)
    (fun out l _ ↦ resolverLine_nameserver hostnameLen out l) (fileLines buf) (.zero hostname)
    trivial (Nat.zero_le _)

theorem namedServers_line {ls : List (List UInt8 × ℕ)} (hls : ∀ l ∈ ls, l.2 ≠ 0) :
    ∀ s ∈ namedServers ls, s.line ≠ 0 := by
  intro s hs
  obtain ⟨l, hl, hserver⟩ := List.mem_filterMap.mp hs
  obtain ⟨addr, -, rfl⟩ := Option.map_eq_some_iff.mp hserver
  exact hls l hl

/-- The `occur`-th line of a file that names the server `want`, if there is one, is among the lines
the parser keeps. -/
def ServerKept (buf : List UInt8) (want occur : ℕ) : Prop :=
  let servers := namedServers (fileLines buf)
  servers.countP (fun s ↦ s.addr = want) ≤ occur ∨
    occur < (servers.take cfgMaxNameservers).countP (fun s ↦ s.addr = want)

/-- **The line of a name server.** The finder names the line of the `occur`-th kept entry of that
address, and zero when there are not so many, exactly when the line it stops at is kept. -/
theorem nameserverLine_kept (buf : List UInt8) (want occur : ℕ) (hostname : Option (List UInt8))
    (hostnameLen : ℕ) :
    amiCfgNameserverLine buf want occur =
      occurLine (fun s ↦ s.addr = want) Nameserver.line occur
        (amiCfgParseResolver buf (.zero hostname) hostnameLen).nameserver ↔
    ServerKept buf want occur := by
  rw [parseResolver_nameservers, amiCfgNameserverLine, nameserverLineLoop_eq]
  exact occurLine_take_iff (namedServers_line (fileLines_pos buf)) occur cfgMaxNameservers

/-- A file of five servers, the second of which is repeated. -/
def fiveServers : List UInt8 :=
  bytes "nameserver 10.0.0.1\nnameserver=10.0.0.2\n# nameserver 10.0.0.3\n" ++
    bytes "NAMESERVER 10.0.0.2\nnameserver 10.0.0.4\nnameserver 10.0.0.2\n"

/-- The fifth server is not kept, and the finder names its line. -/
theorem nameserverLine_dropped :
    amiCfgNameserverLine fiveServers 0x0A000002 2 = 6 ∧
    occurLine (fun s ↦ s.addr = 0x0A000002) Nameserver.line 2
      (amiCfgParseResolver fiveServers (.zero none) 0).nameserver = 0 := by
  decide +kernel

/-! ### The line that sets the host name -/

/-- `if (n + 1 >= cap) return 0; out[n++] = c`. -/
def putByte (cap : ℕ) (out : List UInt8) (c : UInt8) : Option (List UInt8) :=
  if cap ≤ out.length + 1 then none else some (out ++ [c])

/-- The quote in front of the name and behind it, when it needs them. -/
def putQuote (cap : ℕ) (quoted : Bool) (out : List UInt8) : Option (List UInt8) :=
  if quoted then putByte cap out quote else some out

/-- One byte of the name, behind a `*` when it needs one. -/
def putNameByte (cap : ℕ) (quoted : Bool) (out : List UInt8) (c : UInt8) : Option (List UInt8) :=
  if quoted = true ∧ (c = quote ∨ c = star) then (putByte cap out star).bind (putByte cap · c)
  else putByte cap out c

/-- `ami_cfg_hostname_line`: the text it writes; nothing is the source's zero. -/
def amiCfgHostnameLine (name : List UInt8) (cap : ℕ) : Option (List UInt8) := do
  let quoted := ! hostnameValid name
  let out ← (bytes "hostname ").foldlM (putByte cap) []
  let out ← putQuote cap quoted out
  let out ← name.foldlM (putNameByte cap quoted) out
  let out ← putQuote cap quoted out
  if cap < out.length + 2 then none else some (out ++ [lf])

/-- A byte inside quotes. -/
def escapeByte (c : UInt8) : List UInt8 := if c = quote ∨ c = star then [star, c] else [c]

/-- The name as it is written. -/
def nameText (name : List UInt8) : List UInt8 :=
  if hostnameValid name then name else quote :: (name.flatMap escapeByte ++ [quote])

theorem putByte_eq {cap : ℕ} {out text : List UInt8} {c : UInt8}
    (h : putByte cap out c = some text) : text = out ++ [c] := by
  rw [putByte] at h
  split at h
  · cases h
  · exact (Option.some.inj h).symm

theorem putNameByte_eq {cap : ℕ} {quoted : Bool} {out text : List UInt8} {c : UInt8}
    (h : putNameByte cap quoted out c = some text) :
    text = out ++ if quoted then escapeByte c else [c] := by
  rw [putNameByte] at h
  split at h
  · rename_i hesc
    obtain ⟨mid, hmid, hc⟩ := Option.bind_eq_some_iff.mp h
    rw [putByte_eq hc, putByte_eq hmid, if_pos hesc.1, escapeByte, if_pos hesc.2,
      List.append_assoc]
    rfl
  · rename_i hesc
    rw [putByte_eq h]
    cases quoted with
    | false => rfl
    | true => rw [if_pos rfl, escapeByte, if_neg fun hc ↦ hesc ⟨rfl, hc⟩]

/-- A loop that appends a text for each byte appends the texts of all of them. -/
theorem foldlM_append {put : List UInt8 → UInt8 → Option (List UInt8)} {text : UInt8 → List UInt8}
    (hput : ∀ out c out', put out c = some out' → out' = out ++ text c) (l : List UInt8)
    {out out' : List UInt8} (h : l.foldlM put out = some out') : out' = out ++ l.flatMap text := by
  induction l generalizing out with
  | nil => rw [List.flatMap_nil, List.append_nil]; exact (Option.some.inj h).symm
  | cons c l ih =>
    rw [List.foldlM_cons] at h
    obtain ⟨mid, hmid, hrest⟩ := Option.bind_eq_some_iff.mp h
    rw [ih hrest, hput _ _ _ hmid, List.flatMap_cons, List.append_assoc]

theorem hostnameLine_eq {name text : List UInt8} {cap : ℕ}
    (h : amiCfgHostnameLine name cap = some text) :
    text = bytes "hostname " ++ nameText name ++ [lf] := by
  simp only [amiCfgHostnameLine, putQuote, Option.bind_eq_bind, Option.bind_eq_some_iff] at h
  obtain ⟨key, hkey, opened, hopen, body, hbody, closed, hclose, hend⟩ := h
  split at hend
  · cases hend
  have hput : ∀ out c out', putByte cap out c = some out' → out' = out ++ [c] :=
    fun _ _ _ ↦ putByte_eq
  have hputName : ∀ out c out', putNameByte cap (! hostnameValid name) out c = some out' →
      out' = out ++ if ! hostnameValid name then escapeByte c else [c] :=
    fun _ _ _ ↦ putNameByte_eq
  have hkey' := foldlM_append hput _ hkey
  have hbody' := foldlM_append hputName _ hbody
  rw [List.nil_append, List.flatMap_singleton'] at hkey'
  rw [← Option.some.inj hend, nameText]
  cases hvalid : hostnameValid name with
  | true =>
    simp only [hvalid, Bool.not_true, Bool.false_eq_true, ↓reduceIte, Option.some.injEq,
      List.flatMap_singleton'] at hopen hbody' hclose
    rw [← hclose, hbody', ← hopen, hkey', if_pos rfl]
  | false =>
    simp only [hvalid, Bool.not_false, ↓reduceIte] at hopen hbody' hclose
    rw [putByte_eq hclose, hbody', putByte_eq hopen, hkey', if_neg (by decide)]
    simp only [List.append_assoc, List.cons_append, List.nil_append]

/-- A byte that no pass over a line treats in a special way. -/
def isPlainByte (c : UInt8) : Bool :=
  c != quote && c != equalSign && ! (bytes "#;").contains c && ! isTrailing c

/-- What is in a label, and the dot between labels. -/
theorem hostByte_plain : ∀ n < 256, let c := UInt8.ofNat n
    (c = 0x2E ∨ ((0x61 ≤ c && c ≤ 0x7A) || (0x41 ≤ c && c ≤ 0x5A) || (0x30 ≤ c && c ≤ 0x39) ||
      c = 0x2D) = true) → isPlainByte c = true := by
  decide +kernel

/-- A valid host name has no byte that needs quotes. -/
theorem hostnameValid_plain {name : List UInt8} (h : hostnameValid name = true) :
    ∀ c ∈ name, isPlainByte c = true := by
  intro c hc
  rw [hostnameValid, Bool.and_eq_true] at h
  have hjoin : [0x2E].intercalate (name.splitOn 0x2E) = name := List.intercalate_splitOn 0x2E
  rw [← hjoin] at hc
  have hbyte := hostByte_plain c.toNat c.toNat_lt
  rw [UInt8.ofNat_toNat] at hbyte
  apply hbyte
  rcases mem_intercalate _ hc with hdot | ⟨part, hpart, hmem⟩
  · exact Or.inl hdot
  · have hvalid := List.all_eq_true.mp h.2 part hpart
    rw [labelValid, Bool.and_eq_true] at hvalid
    exact Or.inr (List.all_eq_true.mp hvalid.2 c hmem)

theorem stripFrom_escaped (chars name rest : List UInt8) :
    stripFrom chars true (name.flatMap escapeByte ++ quote :: rest) =
      name.flatMap escapeByte ++ quote :: stripFrom chars false rest := by
  induction name with
  | nil => exact stripFrom_quote chars rest true
  | cons c name ih =>
    rw [List.flatMap_cons, List.append_assoc, List.append_assoc]
    by_cases hc : c = quote ∨ c = star
    · rw [escapeByte, if_pos hc, List.cons_append, List.singleton_append, stripFrom_escape, ih]
      rfl
    · rw [escapeByte, if_neg hc, List.singleton_append,
        stripFrom_inside (fun h ↦ hc (Or.inl h)) (fun h ↦ hc (Or.inr h)), ih]
      rfl

theorem unquoteContent_escaped (name rest : List UInt8) :
    unquoteContent (name.flatMap escapeByte ++ quote :: rest) = (name, rest) := by
  induction name with
  | nil => rw [List.flatMap_nil, List.nil_append, unquoteContent.eq_def]; simp only [↓reduceIte]
  | cons c name ih =>
    rw [List.flatMap_cons, List.append_assoc, unquoteContent.eq_def]
    by_cases hc : c = quote ∨ c = star
    · have hescape : escapeOf c = c := by rcases hc with rfl | rfl <;> decide
      rw [escapeByte, if_pos hc]
      simp only [List.cons_append, List.nil_append, show star ≠ quote by decide, ↓reduceIte, ih,
        hescape]
    · have hquote : c ≠ quote := fun h ↦ hc (Or.inl h)
      have hstar : c ≠ star := fun h ↦ hc (Or.inr h)
      rw [escapeByte, if_neg hc]
      simp only [List.cons_append, List.nil_append, hquote, hstar, ↓reduceIte, ih]

/-- What the passes over a line need of the text behind the keyword. -/
structure Value (text value : List UInt8) : Prop where
  strip : stripFrom (bytes "#;") false text = text
  head : ∃ c t, text = c :: t ∧ isBlank c = false ∧ c ≠ equalSign
  last : ∀ c ∈ text.getLast?, isTrailing c = false
  item : scanItem.next text = some (value, [])

theorem nameText_value (name : List UInt8) : Value (nameText name) name := by
  rw [nameText]
  cases hvalid : hostnameValid name with
  | true =>
    have hplain := hostnameValid_plain hvalid
    have hbyte : ∀ c ∈ name, (c ≠ quote ∧ c ∉ bytes "#;") ∧ c ≠ equalSign ∧ isTrailing c = false ∧
        isBlank c = false := by
      intro c hc
      have h := hplain c hc
      simp only [isPlainByte, isTrailing, isSpace, Bool.and_eq_true, bne_iff_ne, Bool.not_eq_true',
        Bool.or_eq_false_iff, List.contains_eq_mem, decide_eq_false_iff_not] at h ⊢
      exact ⟨⟨h.1.1.1, h.1.2⟩, h.1.1.2, h.2, h.2.1.1.1⟩
    have hne : name ≠ [] := by
      rintro rfl
      cases hvalid
    rw [if_pos rfl]
    obtain ⟨c, t, ht⟩ := List.exists_cons_of_ne_nil hne
    have hc := hbyte c (ht ▸ List.mem_cons_self)
    have hstrip : stripFrom (bytes "#;") false (name ++ []) = name ++ [] :=
      stripFrom_append fun d hd ↦ (hbyte d hd).1
    have hword : scanItem.next (name ++ []) = some (name, [].tail) :=
      scanItem_word hne (fun d hd ↦ (hbyte d hd).2.2.2)
        (by rw [ht]; exact fun h ↦ hc.1.1 (Option.some.inj h)) (fun _ h ↦ by cases h)
    rw [List.append_nil] at hstrip hword
    exact ⟨hstrip, ⟨c, t, ht, hc.2.2.2, hc.2.1⟩,
      fun d hd ↦ (hbyte d (List.mem_of_getLast? hd)).2.2.1, hword⟩
  | false =>
    rw [if_neg (by decide)]
    refine ⟨?_, ⟨quote, _, rfl, by decide, by decide⟩, ?_, ?_⟩
    · rw [stripFrom_quote, Bool.not_false, stripFrom_escaped]
      rfl
    · intro c hc
      rw [← List.cons_append, List.getLast?_concat] at hc
      cases hc
      decide
    · simp only [scanItem]
      rw [skipBlanks_eq_self (by rintro c ⟨⟩; decide)]
      simp only [↓reduceIte, unquoteContent_escaped]

/-- Writing a name adds no line end and no zero byte. -/
theorem mem_nameText {name : List UInt8} {P : UInt8 → Prop} (hname : ∀ c ∈ name, P c)
    (hquote : P quote) (hstar : P star) : ∀ c ∈ nameText name, P c := by
  intro c hc
  rw [nameText] at hc
  split at hc
  · exact hname c hc
  · rw [List.mem_cons, List.mem_append, List.mem_singleton, List.mem_flatMap] at hc
    rcases hc with rfl | ⟨d, hd, hmem⟩ | rfl
    · exact hquote
    · rw [escapeByte] at hmem
      split at hmem
      · rcases List.mem_cons.mp hmem with rfl | h
        · exact hstar
        · exact List.mem_singleton.mp h ▸ hname d hd
      · exact List.mem_singleton.mp hmem ▸ hname d hd
    · exact hquote

/-- A line of the keyword and a value, as the passes leave it. -/
theorem nextPair_hostname {text value : List UInt8} (h : Value text value) :
    nextPair.next (cfgLine (bytes "hostname " ++ text)) =
      some ((bytes "hostname", value), []) := by
  obtain ⟨c, t, rfl, hblank, hequal⟩ := h.head
  have hcfg : cfgLine (bytes "hostname " ++ c :: t) = bytes "hostname " ++ c :: t := by
    rw [cfgLine, stripComment, stripFrom_append (by decide +kernel), h.strip]
    refine trim_eq_self (by rintro d ⟨⟩; decide) fun d hd ↦ h.last d ?_
    rwa [List.getLast?_append_of_ne_nil _ (List.cons_ne_nil c t)] at hd
  have hskip : skipEqual (' '.toUInt8 :: c :: t) = c :: t := by
    have hblanks : skipBlanks (' '.toUInt8 :: c :: t) = c :: t := by
      have hspace : skipBlanks (' '.toUInt8 :: c :: t) = skipBlanks (c :: t) := rfl
      rw [hspace, skipBlanks_eq_self (by rintro d ⟨⟩; exact hblank)]
    simp only [skipEqual, hblanks]
    rw [if_neg hequal]
  have hsplit : bytes "hostname " ++ c :: t = bytes "hostname" ++ ' '.toUInt8 :: c :: t := rfl
  rw [hcfg, hsplit, nextPair_key (by decide) (by decide +kernel) (by rintro d ⟨⟩; decide), hskip,
    h.item]
  rfl

/-- **A written host name is read back.** Whatever the name holds apart from line ends and zero
bytes, the line `ami_cfg_hostname_line` writes sets the buffer to the name, as far as it fits. -/
theorem hostnameLine_parse (name : List UInt8) (cap : ℕ) (text : List UInt8)
    (hname : ∀ c ∈ name, c ≠ lf ∧ c ≠ cr ∧ c ≠ 0) (h : amiCfgHostnameLine name cap = some text)
    (out : ResolverConfig) (old : List UInt8) (hostnameLen : ℕ) :
    (amiCfgParseResolver text { out with hostname := some old } hostnameLen).hostname =
      some (copyString hostnameLen old name) := by
  have hbytes : ∀ c ∈ bytes "hostname " ++ nameText name, c ≠ lf ∧ c ≠ cr ∧ c ≠ 0 := by
    have hkey : ∀ c ∈ bytes "hostname ", c ≠ lf ∧ c ≠ cr ∧ c ≠ 0 := by decide +kernel
    intro c hc
    rcases List.mem_append.mp hc with hc | hc
    · exact hkey c hc
    · exact mem_nameText hname (by decide) (by decide) c hc
  have hlines : fileLines text = [(bytes "hostname " ++ nameText name, 1)] := by
    rw [hostnameLine_eq h]
    refine fileLines_line (fun c hc ↦ ?_) fun c hc ↦ (hbytes c hc).2.2
    obtain ⟨hlf, hcr, -⟩ := hbytes c hc
    simp only [isLineEnd, Bool.or_eq_false_iff, beq_eq_false_iff_ne]
    exact ⟨hlf, hcr⟩
  rw [amiCfgParseResolver, hlines, List.foldl_cons, List.foldl_nil, resolverLine,
    nextPair_hostname (nameText_value name)]
  rfl

/-- A name with a blank, a comment character, a quote and an escape, cut to seven bytes. -/
theorem hostnameLine_parse_quoted :
    amiCfgHostnameLine (bytes "a b;\"*n#") 32 = some (bytes "hostname \"a b;*\"**n#\"\n") ∧
    (amiCfgParseResolver (bytes "hostname \"a b;*\"**n#\"\n") (.zero (some [])) 8).hostname =
      some (bytes "a b;\"*n") := by
  have hline : amiCfgHostnameLine (bytes "a b;\"*n#") 32 =
      some (bytes "hostname \"a b;*\"**n#\"\n") := by
    decide +kernel
  have hread := hostnameLine_parse _ _ _ (by decide +kernel) hline (.zero none) [] 8
  exact ⟨hline, hread.trans (by decide +kernel)⟩

end AmiNetXDuo.Config
