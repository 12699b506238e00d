import AmiNetXDuo.Common.TextConv
import Mathlib.Algebra.Ring.Nat

/-!
# Request targets and AmigaDOS paths

The resolver of `httppath.c`: the target of a request is decoded, converted to the codeset of the
machine and joined to the served root, segment by segment, or refused. A slash that follows a slash
would mean the parent drawer on this machine, and a colon another device.

A string is the list of its bytes. A target may have any bytes; `0` ends it, as the end of the list
does.

## Main definitions

* `httpPathRoot` : the root that is served, without slashes at its end.
* `httpPathResolve`, `httpPathResolveVolumes` : the path for a target, below the root or below the
  volume that its first segment names.
* `httpPathWithin` : whether a path is below another.
* `SafeSegment`, `joinSegments` : what a segment of a path may be, and the path they make.

## Main results

* `httpPath_contained` : a path that is resolved is below its root, and its segments are safe.
* `httpPath_controlByte` : a segment may have a C1 control in it.
-/

namespace AmiNetXDuo.Tools

open Common

/-! ### The source -/

/-- `HTTP_PATH_MAX`. -/
def httpPathMax : Nat := 256

/-- `HTTP_URL_MAX`. -/
def httpUrlMax : Nat := 256

/-- `HTTP_NAME_MAX`. -/
def httpNameMax : Nat := 112

/-- `HTTP_PATH_SEGMENTS`. -/
def httpPathSegments : Nat := 32

/-- `'/'`. -/
def slash : UInt8 := 0x2F

/-- `':'`. -/
def colon : UInt8 := 0x3A

/-- `'\\'`. -/
def backslash : UInt8 := 0x5C

/-- `'.'`. -/
def dot : UInt8 := 0x2E

/-- `HttpPathResult`, the refusals. -/
inductive HttpPathError
  | badEscape
  | control
  | notAbsolute
  | parent
  | device
  | backslash
  | tooLong
  | tooDeep
  | badUtf8
  | unmappable
  deriving DecidableEq, Repr

/-- `HttpPath`. -/
structure HttpPath where
  path : List UInt8
  url : List UInt8
  name : List UInt8
  segments : Nat
  trailingSlash : Bool
  deriving DecidableEq, Repr

/-- `hp_lower()`. -/
def hpLower (c : UInt8) : UInt8 := if 0x41 ≤ c ∧ c ≤ 0x5A then c + 32 else c

/-- `hp_hex()`. -/
def hpHex (c : UInt8) : Option UInt8 :=
  if 0x30 ≤ c ∧ c ≤ 0x39 then some (c - 0x30)
  else if 0x61 ≤ c ∧ c ≤ 0x66 then some (c - 0x61 + 10)
  else if 0x41 ≤ c ∧ c ≤ 0x46 then some (c - 0x41 + 10)
  else none

/-- The letters of a scheme, of which at most `n` are read: their number from the `i`-th on. -/
def hpScheme : Nat → List UInt8 → Nat → Option Nat
  | 0, _, i => some i
  | _ + 1, [], i => some i
  | n + 1, c :: url, i =>
    if c = 0 ∨ c = colon then some i
    else if (0x61 ≤ c ∧ c ≤ 0x7A) ∨ (0x41 ≤ c ∧ c ≤ 0x5A) then hpScheme n url (i + 1)
    else none

/-- `hp_authority()`: from the authority on, with its length. -/
def hpAuthority (url : List UInt8) : Option (List UInt8 × Nat) :=
  match hpScheme 8 url 0 with
  | none => none
  | some i =>
    if i = 0 ∨ url.getD i 0 ≠ colon ∨ url.getD (i + 1) 0 ≠ slash ∨ url.getD (i + 2) 0 ≠ slash then
      none
    else
      let rest := url.drop (i + 3)
      some (rest, (rest.takeWhile fun c ↦ c ≠ 0 && c ≠ slash).length)

/-- `hp_skip_authority()`. -/
def hpSkipAuthority (target : List UInt8) : List UInt8 :=
  match hpAuthority target with
  | none => target
  | some (p, len) => if (p.drop len).headD 0 = slash then p.drop len else [slash]

/-- A byte at the end of those decoded so far. -/
def hpDecodeByte (outlen : Nat) (out : List UInt8) (c : UInt8) :
    Except HttpPathError (List UInt8) :=
  if c < 0x20 ∨ c = 0x7F then .error .control
  else if outlen ≤ out.length + 1 then .error .tooLong
  else .ok (out ++ [c])

/-- The loop of `hp_decode()`. -/
def hpDecodeLoop (outlen : Nat) : List UInt8 → List UInt8 → Except HttpPathError (List UInt8)
  | [], out => .ok out
  | c :: target, out =>
    if c = 0 ∨ c = 0x3F ∨ c = 0x23 then .ok out
    else if c = 0x25 then
      match target with
      | [] => .error .badEscape
      | [_] => .error .badEscape
      | h :: l :: rest =>
        match hpHex h, hpHex l with
        | some hi, some lo => do
          hpDecodeLoop outlen rest (← hpDecodeByte outlen out (hi <<< 4 ||| lo))
        | _, _ => .error .badEscape
    else do hpDecodeLoop outlen target (← hpDecodeByte outlen out c)

/-- `hp_decode()`. -/
def hpDecode (cs : Option TxtCodeset) (target : List UInt8) (outlen : Nat) :
    Except HttpPathError (List UInt8) :=
  match hpDecodeLoop outlen target [] with
  | .error e => .error e
  | .ok out =>
    match txtUtf8ToLocalExact cs out with
    | .ok out => .ok out
    | .error .unmappable => .error .unmappable
    | .error _ => .error .badUtf8

/-- The segments of a decoded path, from one that has begun on: the runs between slashes, of which
those without a byte are skipped. -/
def hpSegments : List UInt8 → List UInt8 → List (List UInt8)
  | cur, [] => if cur = [] then [] else [cur]
  | cur, c :: rest =>
    if c = slash then if cur = [] then hpSegments [] rest else cur :: hpSegments [] rest
    else hpSegments (cur ++ [c]) rest

/-- What `http_path_resolve()` has written so far. -/
structure HpOut where
  path : List UInt8
  url : List UInt8
  /-- `namestart`. -/
  nameStart : Option Nat
  segments : Nat
  deriving DecidableEq, Repr

/-- Whether a path needs a separator before its next segment. -/
def hpNeedsSlash (path : List UInt8) : Bool :=
  path.getLast?.any fun c ↦ c ≠ colon && c ≠ slash

/-- One segment of `http_path_resolve()`. -/
def hpSegment (out : HpOut) (seg : List UInt8) : Except HttpPathError HpOut :=
  if seg = [dot, dot] then .error .parent
  else if seg = [dot] then .ok out
  else
    match seg.find? fun c ↦ c = colon || c = backslash with
    | some c => .error (if c = colon then .device else .backslash)
    | none =>
      if httpPathSegments ≤ out.segments then .error .tooDeep
      else if hpNeedsSlash out.path ∧ httpPathMax ≤ out.path.length + 1 then .error .tooLong
      else
        let path := if hpNeedsSlash out.path then out.path ++ [slash] else out.path
        if httpPathMax ≤ path.length + seg.length then .error .tooLong
        else if httpUrlMax ≤ out.url.length + seg.length + 1 then .error .tooLong
        else .ok ⟨path ++ seg, out.url ++ slash :: seg, some path.length, out.segments + 1⟩

/-- The last segment of the path. -/
def HpOut.name (out : HpOut) : List UInt8 :=
  match out.nameStart with
  | none => []
  | some n => out.path.drop n

/-- The end of `http_path_resolve()`. -/
def hpFinish (out : HpOut) (trailingSlash : Bool) : Except HttpPathError HttpPath :=
  if httpNameMax ≤ out.name.length then .error .tooLong
  else .ok ⟨out.path, if out.url = [] then [slash] else out.url, out.name, out.segments,
    trailingSlash⟩

/-- `http_path_resolve()`. -/
def httpPathResolve (cs : Option TxtCodeset) (root target : List UInt8) :
    Except HttpPathError HttpPath :=
  let target := hpSkipAuthority target
  if target.headD 0 ≠ slash then .error .notAbsolute
  else
    match hpDecode cs target httpUrlMax with
    | .error e => .error e
    | .ok decoded =>
      if root = [] ∨ httpPathMax ≤ root.length + 1 then .error .tooLong
      else
        match (hpSegments [] decoded).foldlM hpSegment ⟨root, [], none, 0⟩ with
        | .error e => .error e
        | .ok out => hpFinish out (decoded.getLast? = some slash)

/-- The root of `http_path_resolve_volumes()`, which gives way to the name of a volume. -/
def volumesRoot : List UInt8 := [0x40, colon]

/-- `http_path_resolve_volumes()`. The path is rewritten in place, behind what has been read. -/
def httpPathResolveVolumes (cs : Option TxtCodeset) (target : List UInt8) :
    Except HttpPathError HttpPath :=
  match httpPathResolve cs volumesRoot target with
  | .error e => .error e
  | .ok out =>
    if out.segments = 0 then .ok { out with path := [] }
    else
      let src := out.path.drop 2
      let volume := src.takeWhile fun c ↦ c ≠ 0 && c ≠ slash
      let rest := src.dropWhile fun c ↦ c ≠ 0 && c ≠ slash
      .ok { out with
        path := volume ++ colon :: (if rest.headD 0 = slash then rest.tail else rest)
        name := if out.segments = 1 then [] else out.name }

/-- Slashes at the end go, where a byte is left before them. -/
def hpTrim : Nat → List UInt8 → List UInt8
  | 0, out => out
  | n + 1, out => if 1 < out.length ∧ out.getLast? = some slash then hpTrim n out.dropLast else out

/-- `http_path_root()`. -/
def httpPathRoot (given : List UInt8) (outlen : Nat) : Option (List UInt8) :=
  let text := given.takeWhile (· ≠ 0)
  if outlen = 0 ∨ outlen < text.length + 1 then none
  else some (hpTrim text.length text)

/-- `http_path_within()`. -/
def httpPathWithin (pre path : List UInt8) : Bool :=
  if pre = [] then false
  else if (path.take pre.length).map hpLower ≠ pre.map hpLower then false
  else if path.length = pre.length then true
  else path.getD pre.length 0 == slash || pre.getLast?.any fun c ↦ c == colon || c == slash

/-! ### Decoding -/

theorem bind_eq_ok {ε α β : Type} {x : Except ε α} {f : α → Except ε β} {b : β} :
    (x >>= f) = .ok b ↔ ∃ a, x = .ok a ∧ f a = .ok b := by
  cases x with
  | error e => simp [bind, Except.bind]
  | ok a => simp [bind, Except.bind]

/-- A byte that a decoded path may have. -/
def PlainByte (c : UInt8) : Prop := 0x20 ≤ c ∧ c ≠ 0x7F

theorem hpDecodeByte_plain {outlen : Nat} {out out' : List UInt8} {c : UInt8}
    (h : hpDecodeByte outlen out c = .ok out') (hout : ∀ b ∈ out, PlainByte b) :
    ∀ b ∈ out', PlainByte b := by
  rw [hpDecodeByte] at h
  split_ifs at h with hcontrol hlong
  obtain rfl := Except.ok.inj h
  rw [not_or, UInt8.not_lt] at hcontrol
  intro b hb
  rcases List.mem_append.mp hb with hb | hb
  · exact hout b hb
  · exact List.mem_singleton.mp hb ▸ hcontrol

theorem hpDecodeLoop_plain {outlen : Nat} {target out out' : List UInt8}
    (h : hpDecodeLoop outlen target out = .ok out') (hout : ∀ b ∈ out, PlainByte b) :
    ∀ b ∈ out', PlainByte b := by
  -- along the target; an escape takes three bytes of it
  fun_induction hpDecodeLoop outlen target out with
  | case1 out => exact Except.ok.inj h ▸ hout
  | case2 c target out hend => exact Except.ok.inj h ▸ hout
  | case3 => cases h
  | case4 => cases h
  | case5 out x y rest hi lo hlo hhi hend ih =>
    obtain ⟨out₁, hbyte, hrest⟩ := bind_eq_ok.mp h
    exact ih out₁ hrest (hpDecodeByte_plain hbyte hout)
  | case6 => cases h
  | case7 c target out hend hescape ih =>
    obtain ⟨out₁, hbyte, hrest⟩ := bind_eq_ok.mp h
    exact ih out₁ hrest (hpDecodeByte_plain hbyte hout)

/-- The bytes of a decoded path, in the codeset of the machine. -/
theorem hpDecode_plain {cs : Option TxtCodeset} {target out : List UInt8} {outlen : Nat}
    (h : hpDecode cs target outlen = .ok out) : ∀ b ∈ out, PlainByte b := by
  rw [hpDecode] at h
  cases hloop : hpDecodeLoop outlen target [] with
  | error e => simp [hloop] at h
  | ok bytes =>
    have hplain := hpDecodeLoop_plain hloop (by simp)
    rw [hloop] at h
    dsimp only at h
    split at h
    · rename_i converted hconv
      obtain rfl := Except.ok.inj h
      intro b hb
      rcases (txtUtf8ToLocalExact_mem hconv).1 b hb with hmem | hhigh
      · exact hplain b hmem
      · refine ⟨UInt8.le_trans (by decide) hhigh, ?_⟩
        rintro rfl
        exact absurd hhigh (by decide)
    · cases h
    · cases h

/-- A segment is not empty, has no slash, and its bytes are those of the path. -/
theorem mem_hpSegments {P : UInt8 → Prop} {cur bytes seg : List UInt8}
    (h : seg ∈ hpSegments cur bytes) (hcur : ∀ c ∈ cur, P c ∧ c ≠ slash)
    (hbytes : ∀ c ∈ bytes, P c) :
    seg ≠ [] ∧ ∀ c ∈ seg, P c ∧ c ≠ slash := by
  induction bytes generalizing cur with
  | nil =>
    rw [hpSegments] at h
    split_ifs at h with hnil
    · cases h
    · rw [List.mem_singleton] at h
      exact h ▸ ⟨hnil, hcur⟩
  | cons c bytes ih =>
    have hrest : ∀ b ∈ bytes, P b := fun b hb ↦ hbytes b (List.mem_cons_of_mem c hb)
    have hempty : ∀ b ∈ ([] : List UInt8), P b ∧ b ≠ slash := by simp
    rw [hpSegments] at h
    split_ifs at h with hslash hnil
    · exact ih h hempty hrest
    · rcases List.mem_cons.mp h with rfl | h
      · exact ⟨hnil, hcur⟩
      · exact ih h hempty hrest
    · refine ih h ?_ hrest
      intro b hb
      rcases List.mem_append.mp hb with hb | hb
      · exact hcur b hb
      · rw [List.mem_singleton] at hb
        exact hb ▸ ⟨hbytes c List.mem_cons_self, hslash⟩

/-! ### The path that is built -/

/-- What a segment of a resolved path may be. -/
structure SafeSegment (seg : List UInt8) : Prop where
  nonempty : seg ≠ []
  here : seg ≠ [dot]
  parent : seg ≠ [dot, dot]
  plain : ∀ c ∈ seg, PlainByte c
  separators : ∀ c ∈ seg, c ≠ slash ∧ c ≠ colon ∧ c ≠ backslash

/-- Segments below a root, with one separator before each. A root that ends in a colon or a slash
has the first one already. -/
def joinSegments (root : List UInt8) : List (List UInt8) → List UInt8
  | [] => root
  | seg :: segs =>
    root ++ (if hpNeedsSlash root then [slash] else []) ++ seg ++ segs.flatMap (slash :: ·)

theorem hpNeedsSlash_append (path : List UInt8) {seg : List UInt8} (h : SafeSegment seg) :
    hpNeedsSlash (path ++ seg) = true := by
  obtain ⟨init, c, rfl⟩ : ∃ init c, seg = init ++ [c] :=
    ⟨_, _, (List.dropLast_append_getLast h.nonempty).symm⟩
  have hc := h.separators c (by simp)
  simp [hpNeedsSlash, ← List.append_assoc, hc.1, hc.2.1]

theorem joinSegments_concat {root seg : List UInt8} {segs : List (List UInt8)}
    (h : ∀ t ∈ segs, SafeSegment t) :
    joinSegments root (segs ++ [seg]) = joinSegments root segs ++
      (if hpNeedsSlash (joinSegments root segs) then [slash] else []) ++ seg := by
  cases segs with
  | nil => exact List.append_nil _
  | cons first segs =>
    have hneeds : hpNeedsSlash (joinSegments root (first :: segs)) = true := by
      obtain ⟨start, hstart⟩ : ∃ start, start =
        root ++ (if hpNeedsSlash root then [slash] else []) := ⟨_, rfl⟩
      rw [joinSegments, ← hstart]
      rcases List.eq_nil_or_concat segs with rfl | ⟨init, last, rfl⟩
      · simpa using hpNeedsSlash_append start (h first (by simp))
      · simpa using hpNeedsSlash_append
          (start ++ (first ++ (init.flatMap (slash :: ·) ++ [slash]))) (h last (by simp))
    rw [hneeds]
    simp [joinSegments]

/-- What has been written after some segments. -/
structure Built (root : List UInt8) (segs : List (List UInt8)) (out : HpOut) : Prop where
  path : out.path = joinSegments root segs
  url : out.url = segs.flatMap (slash :: ·)
  segments : out.segments = segs.length
  safe : ∀ seg ∈ segs, SafeSegment seg
  pathFits : out.path.length < httpPathMax
  urlFits : out.url.length < httpUrlMax

/-- One segment is skipped, or is safe and is joined. -/
theorem Built.segment {root seg : List UInt8} {segs : List (List UInt8)} {out out' : HpOut}
    (h : Built root segs out) (hseg : seg ≠ [] ∧ ∀ c ∈ seg, PlainByte c ∧ c ≠ slash)
    (hrun : hpSegment out seg = .ok out') :
    out' = out ∨ Built root (segs ++ [seg]) out' := by
  rw [hpSegment] at hrun
  by_cases hparent : seg = [dot, dot]
  · simp [hparent] at hrun
  by_cases hhere : seg = [dot]
  · rw [if_neg hparent, if_pos hhere] at hrun
    exact .inl (Except.ok.inj hrun).symm
  rw [if_neg hparent, if_neg hhere] at hrun
  cases hfind : seg.find? fun c ↦ c = colon || c = backslash with
  | some c => simp [hfind] at hrun
  | none =>
    have hnone := List.find?_eq_none.mp hfind
    have hsafe : SafeSegment seg := by
      refine ⟨hseg.1, hhere, hparent, fun c hc ↦ (hseg.2 c hc).1, fun c hc ↦ ?_⟩
      have hc' := hnone c hc
      simp only [Bool.or_eq_true, decide_eq_true_eq, not_or] at hc'
      exact ⟨(hseg.2 c hc).2, hc'⟩
    rw [hfind] at hrun
    dsimp only at hrun
    by_cases hdeep : httpPathSegments ≤ out.segments
    · simp [hdeep] at hrun
    rw [if_neg hdeep] at hrun
    by_cases hslash : hpNeedsSlash out.path ∧ httpPathMax ≤ out.path.length + 1
    · simp [hslash] at hrun
    rw [if_neg hslash] at hrun
    obtain ⟨path, hpath⟩ : ∃ path, path =
      if hpNeedsSlash out.path then out.path ++ [slash] else out.path := ⟨_, rfl⟩
    rw [← hpath] at hrun
    split_ifs at hrun with hlong hurl
    obtain rfl := Except.ok.inj hrun
    refine .inr ⟨?_, ?_, ?_, ?_, ?_, ?_⟩
    · dsimp only
      rw [joinSegments_concat h.safe, ← h.path, hpath]
      split_ifs <;> simp
    · simp [h.url]
    · simp [h.segments]
    · intro t ht
      rcases List.mem_append.mp ht with ht | ht
      · exact h.safe t ht
      · exact List.mem_singleton.mp ht ▸ hsafe
    · simpa using hlong
    · simp only [List.length_append, List.length_cons]
      omega

theorem Built.foldlM {root : List UInt8} {todo segs : List (List UInt8)} {out out' : HpOut}
    (h : Built root segs out) (htodo : ∀ seg ∈ todo, seg ≠ [] ∧ ∀ c ∈ seg, PlainByte c ∧ c ≠ slash)
    (hrun : todo.foldlM hpSegment out = .ok out') : ∃ segs', Built root segs' out' := by
  induction todo generalizing segs out with
  | nil => exact ⟨segs, Except.ok.inj hrun ▸ h⟩
  | cons seg todo ih =>
    rw [List.foldlM_cons] at hrun
    obtain ⟨next, hnext, hrest⟩ := bind_eq_ok.mp hrun
    have htail := fun t ht ↦ htodo t (List.mem_cons_of_mem seg ht)
    rcases h.segment (htodo seg List.mem_cons_self) hnext with rfl | hbuilt
    · exact ih h htail hrest
    · exact ih hbuilt htail hrest

/-! ### Containment -/

/-- A path below a root, made of safe segments; everything fits its buffer, with a NUL. -/
structure Resolved (root : List UInt8) (segs : List (List UInt8)) (out : HttpPath) : Prop where
  path : out.path = joinSegments root segs
  safe : ∀ seg ∈ segs, SafeSegment seg
  within : httpPathWithin root out.path = true
  pathFits : out.path.length < httpPathMax
  urlFits : out.url.length < httpUrlMax
  nameFits : out.name.length < httpNameMax

theorem httpPathWithin_append {root rest : List UInt8} (hroot : root ≠ [])
    (h : rest = [] ∨ rest.headD 0 = slash ∨ hpNeedsSlash root = false) :
    httpPathWithin root (root ++ rest) = true := by
  rw [httpPathWithin, if_neg hroot, List.take_left, if_neg (by simp)]
  rcases h with rfl | hslash | hends
  · simp
  · cases rest with
    | nil => simp
    | cons c rest =>
      have hc : c = slash := hslash
      simp [hc]
  · have hlast := List.getLast?_eq_some_getLast hroot
    rw [hpNeedsSlash, hlast] at hends
    split_ifs
    · rfl
    · rw [hlast]
      simp only [Option.any_some, ne_eq, Bool.and_eq_false_iff, decide_eq_false_iff_not,
        not_not] at hends
      simp only [Option.any_some, Bool.or_eq_true, beq_iff_eq]
      exact .inr hends

theorem httpPathWithin_joinSegments {root : List UInt8} (hroot : root ≠ [])
    (segs : List (List UInt8)) : httpPathWithin root (joinSegments root segs) = true := by
  cases segs with
  | nil => simpa [joinSegments] using httpPathWithin_append hroot (.inl rfl)
  | cons seg segs =>
    rw [joinSegments, List.append_assoc, List.append_assoc]
    refine httpPathWithin_append hroot ?_
    by_cases hneeds : hpNeedsSlash root = true
    · exact .inr (.inl (by simp [hneeds]))
    · exact .inr (.inr (by simpa using hneeds))

theorem Built.finish {root : List UInt8} {segs : List (List UInt8)} {built : HpOut} {b : Bool}
    {out : HttpPath} (h : Built root segs built) (hroot : root ≠ [])
    (hrun : hpFinish built b = .ok out) :
    Resolved root segs out ∧ out.segments = segs.length := by
  rw [hpFinish] at hrun
  by_cases hname : httpNameMax ≤ built.name.length
  · rw [if_pos hname] at hrun
    cases hrun
  rw [if_neg hname] at hrun
  obtain rfl := Except.ok.inj hrun
  refine ⟨⟨h.path, h.safe, ?_, h.pathFits, ?_, Nat.not_le.mp hname⟩, h.segments⟩
  · rw [h.path]
    exact httpPathWithin_joinSegments hroot segs
  · dsimp only
    split_ifs
    · decide
    · exact h.urlFits

/-- **What resolve gives.** -/
theorem httpPathResolve_resolved {cs : Option TxtCodeset} {root target : List UInt8}
    {out : HttpPath} (h : httpPathResolve cs root target = .ok out) :
    ∃ segs, Resolved root segs out ∧ out.segments = segs.length := by
  rw [httpPathResolve] at h
  by_cases habs : (hpSkipAuthority target).headD 0 ≠ slash
  · rw [if_pos habs] at h
    cases h
  rw [if_neg habs] at h
  cases hdec : hpDecode cs (hpSkipAuthority target) httpUrlMax with
  | error e =>
    rw [hdec] at h
    cases h
  | ok decoded =>
    rw [hdec] at h
    dsimp only at h
    by_cases hroot : root = [] ∨ httpPathMax ≤ root.length + 1
    · rw [if_pos hroot] at h
      cases h
    rw [if_neg hroot] at h
    rw [not_or, Nat.not_le] at hroot
    cases hfold : (hpSegments [] decoded).foldlM hpSegment ⟨root, [], none, 0⟩ with
    | error e =>
      rw [hfold] at h
      cases h
    | ok built =>
      rw [hfold] at h
      have hstart : Built root [] ⟨root, [], none, 0⟩ :=
        ⟨rfl, rfl, rfl, by simp, Nat.lt_of_succ_lt hroot.2, (by decide : 0 < httpUrlMax)⟩
      have hsegs : ∀ seg ∈ hpSegments [] decoded,
          seg ≠ [] ∧ ∀ c ∈ seg, PlainByte c ∧ c ≠ slash :=
        fun seg hseg ↦ mem_hpSegments hseg (by simp) (hpDecode_plain hdec)
      obtain ⟨segs, hbuilt⟩ := hstart.foldlM hsegs hfold
      exact ⟨segs, hbuilt.finish hroot.1 h⟩

theorem hpNeedsSlash_colon (volume : List UInt8) : hpNeedsSlash (volume ++ [colon]) = false := by
  simp [hpNeedsSlash]

/-- The bytes up to the first slash. -/
theorem span_volume {volume rest : List UInt8} (h : SafeSegment volume)
    (hrest : rest = [] ∨ rest.headD 0 = slash) :
    (volume ++ rest).takeWhile (fun c ↦ c ≠ 0 && c ≠ slash) = volume ∧
      (volume ++ rest).dropWhile (fun c ↦ c ≠ 0 && c ≠ slash) = rest := by
  have hall : ∀ c ∈ volume, (decide (c ≠ 0) && decide (c ≠ slash)) = true := by
    intro c hc
    have hslash := (h.separators c hc).1
    have hzero : c ≠ 0 := by
      rintro rfl
      exact absurd (h.plain 0 hc).1 (by decide)
    simp [hslash, hzero]
  have hstop : rest.takeWhile (fun c ↦ c ≠ 0 && c ≠ slash) = [] ∧
      rest.dropWhile (fun c ↦ c ≠ 0 && c ≠ slash) = rest := by
    rcases hrest with rfl | hslash
    · exact ⟨rfl, rfl⟩
    · cases rest with
      | nil => exact ⟨rfl, rfl⟩
      | cons c rest =>
        have hc : c = slash := hslash
        simp [hc]
  rw [List.takeWhile_append_of_pos hall, List.dropWhile_append_of_pos hall, hstop.1, hstop.2]
  exact ⟨List.append_nil _, rfl⟩

/-- What follows `volumesRoot` has the name of the volume before its first slash. -/
theorem volumesRoot_span {volume path : List UInt8} {segs : List (List UInt8)}
    (hvolume : SafeSegment volume) (hpath : path = joinSegments volumesRoot (volume :: segs)) :
    (path.drop 2).takeWhile (fun c ↦ c ≠ 0 && c ≠ slash) = volume ∧
      (path.drop 2).dropWhile (fun c ↦ c ≠ 0 && c ≠ slash) = segs.flatMap (slash :: ·) := by
  have hdrop : path.drop 2 = volume ++ segs.flatMap (slash :: ·) := by
    rw [hpath]
    simp [joinSegments, volumesRoot, hpNeedsSlash]
  have hrest : segs.flatMap (slash :: ·) = [] ∨ (segs.flatMap (slash :: ·)).headD 0 = slash := by
    cases segs with
    | nil => exact .inl rfl
    | cons s l => exact .inr rfl
  rw [hdrop]
  exact span_volume hvolume hrest

theorem joinSegments_colon (volume : List UInt8) (segs : List (List UInt8)) :
    volume ++ colon :: (if (segs.flatMap (slash :: ·)).headD 0 = slash then
      (segs.flatMap (slash :: ·)).tail else segs.flatMap (slash :: ·)) =
      joinSegments (volume ++ [colon]) segs := by
  cases segs with
  | nil => simp [joinSegments, slash]
  | cons s l => simp [joinSegments, hpNeedsSlash_colon]

/-- **What the resolver for volumes gives.** The list of volumes, or a path below the volume that
the first segment names. -/
theorem httpPathResolveVolumes_resolved {cs : Option TxtCodeset} {target : List UInt8}
    {out : HttpPath} (h : httpPathResolveVolumes cs target = .ok out) :
    (out.path = [] ∧ out.segments = 0 ∧ out.url.length < httpUrlMax ∧
      out.name.length < httpNameMax) ∨
    ∃ volume segs, SafeSegment volume ∧ Resolved (volume ++ [colon]) segs out := by
  rw [httpPathResolveVolumes] at h
  cases hres : httpPathResolve cs volumesRoot target with
  | error e =>
    rw [hres] at h
    cases h
  | ok plain =>
    rw [hres] at h
    dsimp only at h
    obtain ⟨segs, hplain, hcount⟩ := httpPathResolve_resolved hres
    by_cases hzero : plain.segments = 0
    · rw [if_pos hzero] at h
      obtain rfl := Except.ok.inj h
      exact .inl ⟨rfl, hzero, hplain.urlFits, hplain.nameFits⟩
    rw [if_neg hzero] at h
    obtain rfl := Except.ok.inj h
    obtain ⟨volume, segs, rfl⟩ : ∃ v l, segs = v :: l := by
      cases segs with
      | nil => exact absurd hcount hzero
      | cons v l => exact ⟨v, l, rfl⟩
    have hvolume := hplain.safe volume List.mem_cons_self
    have hpath : plain.path = volumesRoot ++ (volume ++ segs.flatMap (slash :: ·)) := by
      rw [hplain.path]
      simp [joinSegments, volumesRoot, hpNeedsSlash]
    obtain ⟨htake, hdropWhile⟩ := volumesRoot_span hvolume hplain.path
    refine .inr ⟨volume, segs, hvolume, ?_, ?_, ?_, ?_, hplain.urlFits, ?_⟩
    · dsimp only
      rw [htake, hdropWhile, joinSegments_colon]
    · exact fun s hs ↦ hplain.safe s (List.mem_cons_of_mem volume hs)
    · dsimp only
      rw [htake, hdropWhile, joinSegments_colon]
      exact httpPathWithin_joinSegments (by simp) segs
    · have hfits := hplain.pathFits
      rw [hpath] at hfits
      simp only [List.length_append] at hfits
      have hroot : volumesRoot.length = 2 := rfl
      dsimp only
      rw [htake, hdropWhile]
      simp only [List.length_append, List.length_cons]
      split_ifs
      · rw [List.length_tail]
        omega
      · omega
    · dsimp only
      split_ifs
      · decide
      · exact hplain.nameFits

/-- Of the roots that are served, only the slash alone ends in one. -/
theorem hpTrim_slash {n : Nat} {out : List UInt8} (hn : out.length ≤ n + 1)
    (h : (hpTrim n out).getLast? = some slash) : hpTrim n out = [slash] := by
  have hshort : ∀ l : List UInt8, l.length ≤ 1 → l.getLast? = some slash → l = [slash] := by
    intro l hl hlast
    match l, hl with
    | [], _ => cases hlast
    | [c], _ => exact congrArg (fun c ↦ [c]) (Option.some.inj hlast)
  induction n generalizing out with
  | zero => exact hshort out hn h
  | succ n ih =>
    rw [hpTrim] at h ⊢
    by_cases htrim : 1 < out.length ∧ out.getLast? = some slash
    · rw [if_pos htrim] at h ⊢
      exact ih (by rw [List.length_dropLast]; omega) h
    · rw [if_neg htrim] at h ⊢
      exact hshort out (by by_contra hlong; exact htrim ⟨by omega, h⟩) h

theorem httpPathRoot_slash {given root : List UInt8} {outlen : Nat}
    (h : httpPathRoot given outlen = some root) (hslash : root.getLast? = some slash) :
    root = [slash] := by
  simp only [httpPathRoot] at h
  split_ifs at h
  obtain rfl := Option.some.inj h
  exact hpTrim_slash (Nat.le_succ _) hslash

/-- **Resolved paths stay below what is served.** For every codeset, target and served root, a path
that is resolved is the root followed by segments with one separator before each, none of which is
empty, the drawer itself or its parent, nor has a separator, a NUL, another C0 control or a DEL in
it; it is within the root, and every field fits its buffer. The same holds below the volume that the
first segment names, where all volumes are served. -/
theorem httpPath_contained (cs : Option TxtCodeset) (target : List UInt8) :
    (∀ given outlen root out, httpPathRoot given outlen = some root →
      httpPathResolve cs root target = .ok out →
      (root.getLast? = some slash → root = [slash]) ∧ ∃ segs, Resolved root segs out) ∧
    ∀ out, httpPathResolveVolumes cs target = .ok out →
      (out.path = [] ∧ out.segments = 0 ∧ out.url.length < httpUrlMax ∧
        out.name.length < httpNameMax) ∨
      ∃ volume segs, SafeSegment volume ∧ Resolved (volume ++ [colon]) segs out := by
  refine ⟨fun given outlen root out hroot h ↦ ⟨httpPathRoot_slash hroot, ?_⟩,
    fun out ↦ httpPathResolveVolumes_resolved⟩
  obtain ⟨segs, hres, -⟩ := httpPathResolve_resolved h
  exact ⟨segs, hres⟩

/-- `Work:`. -/
def workRoot : List UInt8 := [0x57, 0x6F, 0x72, 0x6B, colon]

/-- A target with an escaped byte, slashes to spare and a dot, below `Work:`. -/
theorem httpPath_contained_work :
    ∃ out, httpPathResolve none workRoot [slash, slash, 0x61, 0x25, 0x34, 0x32, slash, dot, slash] =
        .ok out ∧ out.path = workRoot ++ [0x61, 0x42] ∧ ∃ segs, Resolved workRoot segs out := by
  have hrun : httpPathResolve none workRoot
      [slash, slash, 0x61, 0x25, 0x34, 0x32, slash, dot, slash] =
      .ok ⟨workRoot ++ [0x61, 0x42], [slash, 0x61, 0x42], [0x61, 0x42], 1, true⟩ := by
    decide
  exact ⟨_, hrun, rfl,
    ((httpPath_contained none _).1 workRoot 256 workRoot _ (by decide) hrun).2⟩

/-- The control characters of one byte: C0, DEL and C1. -/
def controlByte (c : UInt8) : Bool := c < 0x20 || (0x7F ≤ c && c ≤ 0x9F)

/-- **A control byte in a resolved path.** The escaped U+009B becomes the byte `0x9B` of the
codeset, which is the console's CSI. -/
theorem httpPath_controlByte :
    httpPathRoot workRoot 256 = some workRoot ∧
      ∃ out, httpPathResolve none workRoot [slash, 0x61, 0x25, 0x43, 0x32, 0x25, 0x39, 0x42] =
        .ok out ∧ out.path = workRoot ++ [0x61, 0x9B] ∧ controlByte 0x9B = true := by
  refine ⟨by decide, ⟨workRoot ++ [0x61, 0x9B], [slash, 0x61, 0x9B], [0x61, 0x9B], 1, false⟩, ?_,
    rfl, by decide⟩
  decide

end AmiNetXDuo.Tools
