import AmiNetXDuo.Config.Text
import AmiNetXDuo.Netstack.DefaultDomain
import Mathlib.Data.Nat.Bitwise

/-!
# The DHCP domain search option

Option 119 carries names in the wire format of RFC 1035: a name is a row of labels behind their
lengths, and its end is a zero byte or a pointer to an earlier name. `cfg_rfc3397_name` walks one
name, following pointers, and writes its labels into a text buffer with dots between them. The text
is what `ami_config_search_offer` then looks at: up to its first zero byte, with a label between
any two dots.

The labels are copied as they are. One that holds a dot or a zero byte is a different row of labels
in the text, so that a name the wire does not carry can pass the check. The walk that reads router
advertisements, `ami_ns_ra_dnssl_name`, checks the bytes of each label before it copies them.

The positions of the source are unsigned 32-bit numbers, none beyond the length of a buffer in
memory by more than a label; they are natural numbers here.

## Main definitions

* `Walk`, `walkStep`, `walkRun` : the loop of `cfg_rfc3397_name`, with a record of its accesses.
* `cfgRfc3397Name`, `searchFromRfc3397` : the functions of the source.
* `NameAt` : the labels of a name and where it ends as written, after RFC 1035.
* `NameStart` : where the names of an option start.

## Main results

* `walkStep_more`, `walkStep_done` : all that one turn of the loop can do.
* `walkRun_nameAt` : a walk that succeeds has read the labels of the reference.
* `searchFromRfc3397_domains` : the accesses of the decoder, and the domains it adds.
-/

namespace AmiNetXDuo.Config

open AmiNetXDuo.Netstack

/-! ### The walk -/

/-- `AMI_CFG_RFC3397_JUMPS`. -/
def cfgRfc3397Jumps : ℕ := 8

/-- What the walk does with the option: it reads a byte, or follows a pointer. -/
inductive Access
  | read (place : ℕ)
  | jump (place target : ℕ)
  deriving DecidableEq, Repr

/-- A byte is read below the length; a pointer is followed backwards. -/
def Access.Within (len : ℕ) : Access → Prop
  | .read place => place < len
  | .jump place target => target < place

/-- The variables of `cfg_rfc3397_name`. `moved` is what the first pointer left in `*pos`. -/
structure Walk where
  place : ℕ
  out : Domain
  jumps : ℕ
  moved : Option ℕ
  deriving DecidableEq, Repr

/-- One turn of the loop. -/
inductive Turn
  | failed
  | done (name : Domain) (pos : ℕ)
  | more (w : Walk)
  deriving DecidableEq, Repr

/-- `n` bytes from a place on. -/
def slice (data : ℕ → UInt8) (place n : ℕ) : List UInt8 :=
  (List.range n).map fun i ↦ data (place + i)

/-- The places of `n` bytes. -/
def sliceReads (place n : ℕ) : List Access := (List.range n).map fun i ↦ .read (place + i)

/-- The dot in front of every label but the first. -/
def dotted (out : Domain) : Domain := if out = [] then out else out ++ [0x2E]

/-- Where a pointer leads. -/
def pointerTarget (label low : UInt8) : ℕ := (label &&& 0x3F).toNat <<< 8 ||| low.toNat

/-- The body of the loop of `cfg_rfc3397_name`, and the accesses it makes. -/
def walkStep (data : ℕ → UInt8) (len outlen : ℕ) (w : Walk) : Turn × List Access :=
  if len ≤ w.place then (.failed, [])
  else
    let label := data w.place
    if label &&& 0xC0 = 0xC0 then
      if len ≤ w.place + 1 ∨ cfgRfc3397Jumps ≤ w.jumps then (.failed, [.read w.place])
      else
        let target := pointerTarget label (data (w.place + 1))
        if w.place ≤ target then (.failed, [.read w.place, .read (w.place + 1)])
        else
          (.more { w with
              place := target
              jumps := w.jumps + 1
              moved := some (w.moved.getD (w.place + 2)) },
            [.read w.place, .read (w.place + 1), .jump w.place target])
    else if label &&& 0xC0 ≠ 0 then (.failed, [.read w.place])
    else if label = 0 then
      (if w.out = [] then .failed else .done w.out (w.moved.getD (w.place + 1)), [.read w.place])
    else if len < w.place + 1 + label.toNat then (.failed, [.read w.place])
    else if w.out ≠ [] ∧ outlen ≤ w.out.length + 1 then (.failed, [.read w.place])
    else if outlen ≤ (dotted w.out).length + label.toNat then (.failed, [.read w.place])
    else
      (.more { w with
          place := w.place + 1 + label.toNat
          out := dotted w.out ++ slice data (w.place + 1) label.toNat },
        .read w.place :: sliceReads (w.place + 1) label.toNat)

/-! ### The reference -/

/-- A label stands at a place: its length, from 1 to 63, and its bytes. -/
structure LabelAt (data : ℕ → UInt8) (len place : ℕ) (label : List UInt8) : Prop where
  positive : 0 < (data place).toNat
  small : (data place).toNat ≤ 63
  fits : place + 1 + (data place).toNat ≤ len
  bytes : label = slice data (place + 1) (data place).toNat

/-- A pointer stands at a place: two bytes, the upper two bits set, the others an offset to an
earlier place. -/
structure PointerAt (data : ℕ → UInt8) (len place target : ℕ) : Prop where
  fits : place + 1 < len
  high : 192 ≤ (data place).toNat
  offset : target = (data place).toNat % 64 * 256 + (data (place + 1)).toNat
  backward : target < place

/-- **The reference decoding.** The labels of the name at a place, and the place behind the name as
it is written. -/
inductive NameAt (data : ℕ → UInt8) (len : ℕ) : ℕ → List (List UInt8) → ℕ → Prop
  | root {place : ℕ} (hlen : place < len) (hzero : data place = 0) :
    NameAt data len place [] (place + 1)
  | label {place next : ℕ} {label : List UInt8} {labels : List (List UInt8)}
    (h : LabelAt data len place label)
    (hrest : NameAt data len (place + 1 + (data place).toNat) labels next) :
    NameAt data len place (label :: labels) next
  | pointer {place target next : ℕ} {labels : List (List UInt8)}
    (h : PointerAt data len place target) (hrest : NameAt data len target labels next) :
    NameAt data len place labels (place + 2)

/-- Where the names of an option start: at its first byte, and behind each name. -/
inductive NameStart (data : ℕ → UInt8) (len : ℕ) : ℕ → Prop
  | first : NameStart data len 0
  | next {place next : ℕ} {labels : List (List UInt8)} (h : NameStart data len place)
    (hname : NameAt data len place labels next) : NameStart data len next

/-- The labels with dots between them. -/
def dottedJoin (labels : List (List UInt8)) : Domain := [0x2E].intercalate labels

/-- No byte of a label is a zero byte or a dot. -/
def CleanLabels (labels : List (List UInt8)) : Prop :=
  ∀ label ∈ labels, ∀ c ∈ label, c ≠ 0 ∧ c ≠ 0x2E

/-! ### One turn of the loop -/

section Turns

variable {data : ℕ → UInt8} {len outlen : ℕ} {w w' : Walk}

theorem pointerTarget_eq (label low : UInt8) :
    pointerTarget label low = label.toNat % 64 * 256 + low.toNat := by
  have hmask : (label &&& 0x3F).toNat = label.toNat % 64 := by
    rw [UInt8.toNat_and]
    exact Nat.and_two_pow_sub_one_eq_mod label.toNat 6
  rw [pointerTarget, hmask, ← Nat.shiftLeft_add_eq_or_of_lt (by simpa using low.toNat_lt),
    Nat.shiftLeft_eq]

private theorem mask_table :
    ∀ n < 256, let c := UInt8.ofNat n
      (c &&& 0xC0 = 0xC0 ↔ 192 ≤ n) ∧ (c &&& 0xC0 = 0 ↔ n < 64) := by
  decide +kernel

theorem mask_pointer_iff (c : UInt8) : c &&& 0xC0 = 0xC0 ↔ 192 ≤ c.toNat := by
  simpa using (mask_table c.toNat c.toNat_lt).1

theorem mask_label_iff (c : UInt8) : c &&& 0xC0 = 0 ↔ c.toNat < 64 := by
  simpa using (mask_table c.toNat c.toNat_lt).2

/-- **A turn that goes on.** It has followed a pointer or copied a label. -/
theorem walkStep_more (h : (walkStep data len outlen w).1 = .more w') :
    (∃ target, PointerAt data len w.place target ∧ w.jumps < cfgRfc3397Jumps ∧
      w' = ⟨target, w.out, w.jumps + 1, some (w.moved.getD (w.place + 2))⟩) ∨
    (∃ label, LabelAt data len w.place label ∧
      w' = ⟨w.place + 1 + (data w.place).toNat, dotted w.out ++ label, w.jumps, w.moved⟩) := by
  rw [walkStep] at h
  split at h
  · cases h
  · simp only at h
    split at h
    · rename_i hmask
      split at h
      · cases h
      · rename_i hroom
        split at h
        · cases h
        · rename_i hback
          push Not at hroom hback
          injection h with h
          refine .inl ⟨pointerTarget (data w.place) (data (w.place + 1)), ?_, hroom.2, h.symm⟩
          exact ⟨hroom.1, (mask_pointer_iff _).mp hmask, pointerTarget_eq _ _, hback⟩
    · split at h
      · cases h
      · rename_i hhigh
        split at h
        · split at h <;> cases h
        · rename_i hzero
          split at h
          · cases h
          · rename_i hfits
            split at h
            · cases h
            · split at h
              · cases h
              · injection h with h
                have hpos : (data w.place).toNat ≠ 0 := fun hz ↦ hzero (UInt8.toNat_inj.mp hz)
                have hsmall : (data w.place).toNat < 64 :=
                  (mask_label_iff _).mp (not_not.mp hhigh)
                exact .inr ⟨_, ⟨by omega, by omega, by omega, rfl⟩, h.symm⟩

/-- **A turn that ends the name.** It has read the zero byte. -/
theorem walkStep_done {name : Domain} {pos : ℕ}
    (h : (walkStep data len outlen w).1 = .done name pos) :
    w.place < len ∧ data w.place = 0 ∧ w.out ≠ [] ∧ name = w.out ∧
      pos = w.moved.getD (w.place + 1) := by
  rw [walkStep] at h
  split at h
  · cases h
  · rename_i hlen
    simp only at h
    split at h
    · split at h
      · cases h
      · split at h <;> cases h
    · split at h
      · cases h
      · split at h
        · rename_i hzero
          split at h
          · cases h
          · rename_i hout
            injection h with hname hpos
            exact ⟨Nat.lt_of_not_le hlen, hzero, hout, hname.symm, hpos.symm⟩
        · split at h
          · cases h
          · split at h
            · cases h
            · split at h <;> cases h

/-- What is read below the length, and every pointer leads backwards. -/
theorem walkStep_within : ∀ a ∈ (walkStep data len outlen w).2, a.Within len := by
  rw [walkStep]
  split
  · simp
  · rename_i hlen
    have hread : (Access.read w.place).Within len := Nat.lt_of_not_le hlen
    simp only
    split
    · split
      · simpa using hread
      · rename_i hroom
        have hlow : (Access.read (w.place + 1)).Within len := by
          push Not at hroom
          exact hroom.1
        split
        · simpa using ⟨hread, hlow⟩
        · rename_i hback
          have hjump : (Access.jump w.place _).Within len := Nat.lt_of_not_le hback
          simpa using ⟨hread, hlow, hjump⟩
    · split
      · simpa using hread
      · split
        · simpa using hread
        · split
          · simpa using hread
          · rename_i hfits
            split
            · simpa using hread
            · split
              · simpa using hread
              · have hreads :
                    ∀ a ∈ sliceReads (w.place + 1) (data w.place).toNat, a.Within len := by
                  intro a ha
                  obtain ⟨i, hi, rfl⟩ := List.mem_map.mp ha
                  rw [List.mem_range] at hi
                  show w.place + 1 + i < len
                  omega
                simpa using ⟨hread, hreads⟩

/-- The measure of the loop: the pointers left to follow, and the bytes left to read. -/
def Walk.measure (len : ℕ) (w : Walk) : ℕ × ℕ := (cfgRfc3397Jumps - w.jumps, len - w.place)

theorem walkStep_decreases (h : (walkStep data len outlen w).1 = .more w') :
    Prod.Lex (· < ·) (· < ·) (w'.measure len) (w.measure len) := by
  rcases walkStep_more h with ⟨target, hptr, hjumps, rfl⟩ | ⟨label, hlabel, rfl⟩
  · exact Prod.Lex.left _ _ (by simp only; omega)
  · have hfits := hlabel.fits
    exact Prod.Lex.right _ (by simp only; omega)

end Turns

/-! ### The functions of the source -/

/-- The loop of `cfg_rfc3397_name`; `none` is the source's FALSE. -/
def walkRun (data : ℕ → UInt8) (len outlen : ℕ) (w : Walk) :
    Option (Domain × ℕ) × List Access :=
  match _h : (walkStep data len outlen w).1 with
  | .failed => (none, (walkStep data len outlen w).2)
  | .done name pos => (some (name, pos), (walkStep data len outlen w).2)
  | .more w' =>
    ((walkRun data len outlen w').1,
      (walkStep data len outlen w).2 ++ (walkRun data len outlen w').2)
termination_by w.measure len
decreasing_by all_goals exact walkStep_decreases _h

/-- `cfg_rfc3397_name`: the name at `*pos`, the new `*pos`, and the accesses to the option. -/
def cfgRfc3397Name (data : ℕ → UInt8) (len pos outlen : ℕ) :
    Option (Domain × ℕ) × List Access :=
  walkRun data len outlen ⟨pos, [], 0, none⟩

/-- What a pass over an option leaves: the list, how many names counted, and the accesses. -/
structure OptionPass where
  res : SearchList
  count : ℕ
  accesses : List Access
  deriving Repr

/-- One name handed to the list. -/
def takeName (res : SearchList) (name : Domain) : SearchList × ℕ :=
  match searchOffer res (cString name) with
  | some res' => (res', 1)
  | none => (res, 0)

section Runs

variable {data : ℕ → UInt8} {len outlen place next : ℕ} {labels : List (List UInt8)}

theorem slice_ne_nil {n : ℕ} (h : 0 < n) : slice data place n ≠ [] := by
  intro hnil
  have hlen : (slice data place n).length = n := by simp [slice]
  rw [hnil] at hlen
  exact absurd hlen.symm (Nat.pos_iff_ne_zero.mp h)

theorem NameAt.lt_next (h : NameAt data len place labels next) : place < next := by
  induction h with
  | root => omega
  | label _ _ ih => omega
  | pointer => omega

theorem NameAt.ne_nil (h : NameAt data len place labels next) : ∀ label ∈ labels, label ≠ [] := by
  induction h with
  | root => simp
  | label hlabel _ ih =>
    exact List.forall_mem_cons.mpr ⟨hlabel.bytes ▸ slice_ne_nil hlabel.positive, ih⟩
  | pointer _ _ ih => exact ih

/-- A label behind what is already written. -/
def addLabel (out : Domain) (label : List UInt8) : Domain := dotted out ++ label

/-- **What a walk reads.** When it succeeds it has read the labels the reference decodes from its
place, and `*pos` is behind the name as written unless a pointer was followed before. -/
theorem walkRun_nameAt (w : Walk) {name : Domain} {pos : ℕ}
    (h : (walkRun data len outlen w).1 = some (name, pos)) :
    ∃ labels next, NameAt data len w.place labels next ∧ name = labels.foldl addLabel w.out ∧
      name ≠ [] ∧ pos = w.moved.getD next := by
  fun_induction walkRun data len outlen w with
  | case1 => cases h
  | case2 w name' pos' hstep =>
    obtain ⟨hlen, hzero, hout, hname, hpos⟩ := walkStep_done hstep
    injection h with h
    injection h with h₁ h₂
    subst h₁ h₂
    exact ⟨[], w.place + 1, .root hlen hzero, hname, hname ▸ hout, hpos⟩
  | case3 w w' hstep ih =>
    obtain ⟨labels, next, hname, hout, hne, hpos⟩ := ih h
    rcases walkStep_more hstep with ⟨target, hptr, -, rfl⟩ | ⟨label, hlabel, rfl⟩
    · exact ⟨labels, w.place + 2, .pointer hptr hname, hout, hne, hpos⟩
    · exact ⟨label :: labels, next, .label hlabel hname, hout, hne, hpos⟩

theorem walkRun_more {w w' : Walk} (h : (walkStep data len outlen w).1 = .more w') :
    (walkRun data len outlen w).1 = (walkRun data len outlen w').1 := by
  rw [walkRun]
  split <;> simp_all

theorem walkRun_done {w : Walk} {name : Domain} {pos : ℕ}
    (h : (walkStep data len outlen w).1 = .done name pos) :
    (walkRun data len outlen w).1 = some (name, pos) := by
  rw [walkRun]
  split <;> simp_all

theorem walkRun_within (w : Walk) : ∀ a ∈ (walkRun data len outlen w).2, a.Within len := by
  fun_induction walkRun data len outlen w with
  | case1 => exact walkStep_within
  | case2 => exact walkStep_within
  | case3 w w' hstep ih =>
    intro a ha
    rcases List.mem_append.mp ha with ha | ha
    · exact walkStep_within a ha
    · exact ih a ha

theorem foldl_addLabel {out : Domain} (hout : out ≠ []) (labels : List (List UInt8)) :
    labels.foldl addLabel out = dottedJoin (out :: labels) := by
  induction labels generalizing out with
  | nil => simp [dottedJoin]
  | cons label labels ih =>
    have hadd : addLabel out label = out ++ [0x2E] ++ label := by rw [addLabel, dotted, if_neg hout]
    rw [List.foldl_cons, ih (by simp [hadd]), hadd]
    cases labels with
    | nil => simp [dottedJoin, List.intercalate]
    | cons label' labels => simp [dottedJoin, List.intercalate]

/-- **One name.** It is the dotted join of the labels the reference decodes at `*pos`, and `*pos`
moves behind the name as written. -/
theorem cfgRfc3397Name_nameAt {pos pos' : ℕ} {name : Domain}
    (h : (cfgRfc3397Name data len pos outlen).1 = some (name, pos')) :
    ∃ labels, NameAt data len pos labels pos' ∧ labels ≠ [] ∧ name = dottedJoin labels := by
  obtain ⟨labels, next, hname, hout, hne, hpos⟩ := walkRun_nameAt _ h
  obtain rfl : pos' = next := hpos
  cases labels with
  | nil => exact absurd hout hne
  | cons label labels =>
    have hlabel : label ≠ [] := hname.ne_nil label List.mem_cons_self
    have hfirst : addLabel [] label = label := by simp [addLabel, dotted]
    rw [List.foldl_cons, hfirst, foldl_addLabel hlabel] at hout
    exact ⟨label :: labels, hname, List.cons_ne_nil _ _, hout⟩

end Runs

/-- The loop of `ami_config_search_from_rfc3397`. -/
def searchRfc3397 (data : ℕ → UInt8) (len : ℕ) (res : SearchList) (pos : ℕ) : OptionPass :=
  if _hpos : pos < len then
    match _h : (cfgRfc3397Name data len pos cfgNameLen).1 with
    | none => ⟨res, 0, (cfgRfc3397Name data len pos cfgNameLen).2⟩
    | some (name, pos') =>
      let rest := searchRfc3397 data len (takeName res name).1 pos'
      ⟨rest.res, (takeName res name).2 + rest.count,
        (cfgRfc3397Name data len pos cfgNameLen).2 ++ rest.accesses⟩
  else ⟨res, 0, []⟩
termination_by len - pos
decreasing_by
  obtain ⟨labels, hname, -⟩ := cfgRfc3397Name_nameAt _h
  have := hname.lt_next
  omega

/-- `ami_config_search_from_rfc3397`. -/
def searchFromRfc3397 (res : SearchList) (data : ℕ → UInt8) (len : ℕ) : OptionPass :=
  searchRfc3397 data len res 0

theorem searchRfc3397_some {data : ℕ → UInt8} {len pos pos' : ℕ} {res : SearchList}
    {name : Domain} (hpos : pos < len)
    (h : (cfgRfc3397Name data len pos cfgNameLen).1 = some (name, pos')) :
    (searchRfc3397 data len res pos).res =
      (searchRfc3397 data len (takeName res name).1 pos').res := by
  rw [searchRfc3397, dif_pos hpos]
  split <;> simp_all

theorem searchRfc3397_end {data : ℕ → UInt8} {len pos : ℕ} {res : SearchList} (hpos : len ≤ pos) :
    (searchRfc3397 data len res pos).res = res := by
  rw [searchRfc3397, dif_neg (Nat.not_lt.mpr hpos)]

/-! ### The accesses -/

theorem searchRfc3397_within (data : ℕ → UInt8) (len : ℕ) (res : SearchList) (pos : ℕ) :
    ∀ a ∈ (searchRfc3397 data len res pos).accesses, a.Within len := by
  fun_induction searchRfc3397 data len res pos with
  | case1 => exact walkRun_within _
  | case2 res pos _ name pos' _ rest ih =>
    intro a ha
    rcases List.mem_append.mp ha with ha | ha
    · exact walkRun_within _ a ha
    · exact ih a ha
  | case3 => simp

/-! ### The domains -/

section Domains

variable {data : ℕ → UInt8} {len : ℕ} {labels : List (List UInt8)} {res res' : SearchList}
  {name : Domain}

/-- A row that stands for a name of the option: the text of its labels, cut at the first zero
byte, passed as a host name. -/
def RowOf (data : ℕ → UInt8) (len : ℕ) (row : SearchRow) (labels : List (List UInt8)) : Prop :=
  (∃ place next, NameStart data len place ∧ NameAt data len place labels next) ∧ labels ≠ [] ∧
    row.name = cString (dottedJoin labels) ∧ hostnameValid row.name = true

theorem searchOffer_row (h : searchOffer res name = some res') :
    hostnameValid name = true ∧ res'.search = res.search ++ [⟨name, 1⟩] := by
  rw [searchOffer] at h
  split at h
  · cases h
  · rename_i hvalid
    split at h
    · cases h
    · split at h
      · cases h
      · injection h with h
        have hname : hostnameValid name = true := by
          push Not at hvalid
          simpa using hvalid.2
        have hlen : name.length ≤ cfgNameLen - 1 := by
          simp only [hostnameValid, Bool.and_eq_true, decide_eq_true_eq] at hname
          omega
        subst h
        exact ⟨hname, by rw [List.take_of_length_le hlen]⟩

/-- The list grows at its end, by rows that stand for names of the option. -/
theorem searchRfc3397_offer_rows (res : SearchList) (pos : ℕ) (hstart : NameStart data len pos) :
    ∃ added, (searchRfc3397 data len res pos).res.search = res.search ++ added ∧
      ∀ row ∈ added, ∃ labels, RowOf data len row labels := by
  fun_induction searchRfc3397 data len res pos with
  | case1 => exact ⟨[], by simp⟩
  | case2 res pos _ name pos' hname rest ih =>
    obtain ⟨labels, hat, hne, hjoin⟩ := cfgRfc3397Name_nameAt hname
    obtain ⟨added, hadded, hrows⟩ := ih (.next hstart hat)
    simp only [rest]
    rw [hadded, takeName]
    cases hoffer : searchOffer res (cString name) with
    | none => exact ⟨added, rfl, hrows⟩
    | some res' =>
      obtain ⟨hvalid, hsearch⟩ := searchOffer_row hoffer
      refine ⟨⟨cString name, 1⟩ :: added, by simp [hsearch], List.forall_mem_cons.mpr ⟨?_, hrows⟩⟩
      exact ⟨labels, ⟨pos, pos', hstart, hat⟩, hne, by rw [hjoin], hvalid⟩
  | case3 => exact ⟨[], by simp⟩

theorem labelValid_clean {label : List UInt8} (h : labelValid label = true) :
    ∀ c ∈ label, c ≠ 0 ∧ c ≠ 0x2E := by
  intro c hc
  simp only [labelValid, Bool.and_eq_true, List.all_eq_true] at h
  have hbyte := h.2 c hc
  constructor
  · rintro rfl
    exact absurd hbyte (by decide)
  · rintro rfl
    exact absurd hbyte (by decide)

/-- Clean labels come back from the text as they were. -/
theorem RowOf.clean {row : SearchRow} (h : RowOf data len row labels)
    (hclean : CleanLabels labels) :
    row.name = dottedJoin labels ∧ ∀ label ∈ labels, labelValid label = true := by
  obtain ⟨-, hne, hname, hvalid⟩ := h
  have hzero : ∀ c ∈ dottedJoin labels, c ≠ 0 := by
    intro c hc
    rcases mem_intercalate _ hc with rfl | ⟨l, hl, hcl⟩
    · decide
    · exact (hclean l hl c hcl).1
  have htext : row.name = dottedJoin labels := by rw [hname, cString_eq_self hzero]
  have hsplit : (dottedJoin labels).splitOn 0x2E = labels :=
    List.splitOn_intercalate 0x2E (fun l hl hdot ↦ (hclean l hl _ hdot).2 rfl) hne
  rw [htext] at hvalid
  simp only [hostnameValid, hsplit, Bool.and_eq_true, List.all_eq_true] at hvalid
  exact ⟨htext, hvalid.2⟩

/-- **The domain search option.** Whatever the option holds, the decoder comes to an end, reads
below the length and follows pointers backwards only. A domain it adds comes from a name of the
option; it is the dotted join of that name's labels, each a label of a host name, exactly when no
byte of them is a zero byte or a dot. -/
theorem searchFromRfc3397_domains (res : SearchList) (data : ℕ → UInt8) (len : ℕ) :
    (∀ a ∈ (searchFromRfc3397 res data len).accesses, a.Within len) ∧
    ∃ added, (searchFromRfc3397 res data len).res.search = res.search ++ added ∧
      ∀ row ∈ added, ∃ place labels next, NameStart data len place ∧
        NameAt data len place labels next ∧ row.name = cString (dottedJoin labels) ∧
        ((row.name = dottedJoin labels ∧ ∀ label ∈ labels, labelValid label = true) ↔
          CleanLabels labels) := by
  refine ⟨searchRfc3397_within _ _ _ _, ?_⟩
  have hfirst : NameStart data len 0 := .first
  obtain ⟨added, hadded, hrows⟩ := searchRfc3397_offer_rows res 0 hfirst
  refine ⟨added, hadded, fun row hrow ↦ ?_⟩
  obtain ⟨labels, hrowOf⟩ := hrows row hrow
  obtain ⟨⟨place, next, hstart, hat⟩, -, hname, -⟩ := id hrowOf
  refine ⟨place, labels, next, hstart, hat, hname, ?_, hrowOf.clean⟩
  rintro ⟨-, hvalid⟩ label hlabel
  exact labelValid_clean (hvalid label hlabel)

end Domains

/-- The option with the single label `a.b`. -/
def dotOption (i : ℕ) : UInt8 := ([3, 0x61, 0x2E, 0x62, 0] : List UInt8).getD i 0

/-- The label `a.b` is added as the domain `a.b`, which no name of the option spells with labels of
a host name. -/
theorem searchFromRfc3397_dot :
    (searchFromRfc3397 ⟨[], 0⟩ dotOption 5).res.search = [⟨bytes "a.b", 1⟩] ∧
    ¬ ∃ place labels next, NameAt dotOption 5 place labels next ∧
      bytes "a.b" = dottedJoin labels ∧ ∀ label ∈ labels, labelValid label = true := by
  have hname : (cfgRfc3397Name dotOption 5 0 cfgNameLen).1 = some (bytes "a.b", 5) := by
    have hlabel : (walkStep dotOption 5 cfgNameLen ⟨0, [], 0, none⟩).1 =
        .more ⟨4, bytes "a.b", 0, none⟩ := by decide
    have hzero : (walkStep dotOption 5 cfgNameLen ⟨4, bytes "a.b", 0, none⟩).1 =
        .done (bytes "a.b") 5 := by decide
    rw [cfgRfc3397Name, walkRun_more hlabel, walkRun_done hzero]
  have htake : takeName ⟨[], 0⟩ (bytes "a.b") = (⟨[⟨bytes "a.b", 1⟩], 0⟩, 1) := by
    decide
  constructor
  · rw [searchFromRfc3397, searchRfc3397_some (by decide) hname, htake,
      searchRfc3397_end (by decide)]
  rintro ⟨place, labels, next, hat, hjoin, hvalid⟩
  cases hat with
  | root => exact absurd hjoin (by decide)
  | label hlabel _ =>
    -- only the first byte is the length of a label
    have hfirst : ∀ i < 5, 0 < (dotOption i).toNat → i + 1 + (dotOption i).toNat ≤ 5 → i = 0 := by
      decide
    obtain ⟨hpos, -, hfits, hbytes⟩ := hlabel
    obtain rfl := hfirst place (by omega) hpos hfits
    have hlabel := hvalid _ List.mem_cons_self
    rw [hbytes] at hlabel
    exact absurd hlabel (by decide)
  | pointer hptr _ =>
    have hhigh : ∀ i < 5, ¬ 192 ≤ (dotOption i).toNat := by decide
    exact hhigh place (by have := hptr.fits; omega) hptr.high

end AmiNetXDuo.Config
