import AmiNetXDuo.Bpf.Compile
import AmiNetXDuo.Bpf.Safety

/-!
# Code under construction

A builder only ever grows: instructions are appended, labels are added, and a label is placed once.
So what a gate has emitted is still there, at the same positions, in the finished program, and the
proofs about a gate can speak about the finished program directly.

## Main definitions

* `Grows` : the finished builder comes from this one by the builder's operations.
* `Fresh` : a label that still waits for its place.
* `Gate` : a function that grows a builder and leaves all waiting labels alone.
* `Shape` : the code uses the compiler's instructions, and the labels lie inside it.

## Main results

* `Grows.emitted`, `Grows.placed` : what an operation leaves in the finished builder.
* `amiBpfValidate_of_shape` : the validator accepts what `tool_bpf_fixup` makes of a finished
  builder.
-/

namespace AmiNetXDuo.Bpf

/-- The instruction codes that the compiler emits: the loads, the jumps and the return. -/
def toolCodes : List UWord := [0x28, 0x20, 0x30, 0x48, 0xb1, 0x15, 0x45, 0x05, 0x06]

/-- The label exists and waits for its place. -/
def Fresh (l : Nat) (b : ToolBpfBuild) : Prop :=
  b.overflow = false → b.pos[l]? = some none

/-- The builder `F` comes from `b` by emitting, labelling and placing, each label placed once. -/
inductive Grows (F : ToolBpfBuild) : ToolBpfBuild → Prop
  | refl : Grows F F
  | emit {b : ToolBpfBuild} (e : Pending) (he : e.code ∈ toolCodes)
      (h : Grows F (toolBpfEmit e b)) : Grows F b
  | label {b : ToolBpfBuild} (h : Grows F (toolBpfLabel b).2) : Grows F b
  | place {b : ToolBpfBuild} (l : Nat) (hl : Fresh l b)
      (h : Grows F (toolBpfPlace l b)) : Grows F b

/-! ### The operations -/

section Operations

variable {b : ToolBpfBuild} {e : Pending}

theorem toolBpfEmit_of_overflow (h : (toolBpfEmit e b).overflow = false) :
    toolBpfEmit e b = { b with out := b.out ++ [e] } ∧ b.overflow = false := by
  unfold toolBpfEmit at h ⊢
  split_ifs at h ⊢ with hfull
  exact ⟨rfl, h⟩

theorem lt_of_toolBpfEmit (h : (toolBpfEmit e b).overflow = false) :
    b.n < b.max ∧ b.n < toolBpfMaxInsns := by
  unfold toolBpfEmit at h
  split_ifs at h with hfull
  omega

theorem toolBpfLabel_of_overflow (h : (toolBpfLabel b).2.overflow = false) :
    toolBpfLabel b = (b.pos.length, { b with pos := b.pos ++ [none] }) ∧ b.overflow = false := by
  unfold toolBpfLabel at h ⊢
  split_ifs at h ⊢ with hfull
  exact ⟨rfl, h⟩

@[simp] theorem toolBpfLabel_n (b : ToolBpfBuild) : (toolBpfLabel b).2.n = b.n := by
  unfold toolBpfLabel
  split_ifs <;> rfl

@[simp] theorem toolBpfPlace_n (l : Nat) (b : ToolBpfBuild) : (toolBpfPlace l b).n = b.n := rfl

@[simp] theorem toolBpfPlace_overflow (l : Nat) (b : ToolBpfBuild) :
    (toolBpfPlace l b).overflow = b.overflow := rfl

end Operations

namespace Grows

variable {F b : ToolBpfBuild}

/-- An overflow is never forgotten. -/
theorem overflow_eq_false (h : Grows F b) (hF : F.overflow = false) : b.overflow = false := by
  induction h with
  | refl => exact hF
  | emit e _ _ ih => exact (toolBpfEmit_of_overflow ih).2
  | label _ ih => exact (toolBpfLabel_of_overflow ih).2
  | place l _ _ ih => exact ih

theorem max_eq (h : Grows F b) (hF : F.overflow = false) : F.max = b.max := by
  induction h with
  | refl => rfl
  | emit e _ h ih => rw [ih, (toolBpfEmit_of_overflow (h.overflow_eq_false hF)).1]
  | label h ih => rw [ih, (toolBpfLabel_of_overflow (h.overflow_eq_false hF)).1]
  | place l _ _ ih => exact ih

/-- Instructions stay where they are. -/
theorem out_append (h : Grows F b) (hF : F.overflow = false) :
    ∃ rest, F.out = b.out ++ rest := by
  induction h with
  | refl => exact ⟨[], (List.append_nil _).symm⟩
  | emit e _ h ih =>
      rw [(toolBpfEmit_of_overflow (h.overflow_eq_false hF)).1] at ih
      obtain ⟨rest, hrest⟩ := ih
      exact ⟨e :: rest, by simp [hrest]⟩
  | label h ih =>
      rw [(toolBpfLabel_of_overflow (h.overflow_eq_false hF)).1] at ih
      exact ih
  | place l _ _ ih => exact ih

/-- A label that has a place keeps it. -/
theorem pos_of_placed (h : Grows F b) (hF : F.overflow = false) {l p : Nat}
    (hp : b.pos[l]? = some (some p)) : F.pos[l]? = some (some p) := by
  induction h with
  | refl => exact hp
  | emit e _ h ih =>
      rw [(toolBpfEmit_of_overflow (h.overflow_eq_false hF)).1] at ih
      exact ih hp
  | label h ih =>
      rw [(toolBpfLabel_of_overflow (h.overflow_eq_false hF)).1] at ih
      refine ih ?_
      rw [List.getElem?_append_left (List.getElem?_eq_some_iff.mp hp).1]
      exact hp
  | place l' hl' h ih =>
      refine ih ?_
      have hne : l' ≠ l := by
        rintro rfl
        rw [hl' (h.overflow_eq_false hF)] at hp
        cases hp
      simp only [toolBpfPlace, List.getElem?_set_ne hne]
      exact hp

/-- An emitted instruction is in the finished program. -/
theorem emitted {e : Pending} (h : Grows F (toolBpfEmit e b)) (hF : F.overflow = false) :
    F.out[b.n]? = some e := by
  obtain ⟨rest, hrest⟩ := h.out_append hF
  rw [(toolBpfEmit_of_overflow (h.overflow_eq_false hF)).1] at hrest
  simp [hrest, ToolBpfBuild.n]

theorem n_toolBpfEmit {e : Pending} (h : Grows F (toolBpfEmit e b)) (hF : F.overflow = false) :
    (toolBpfEmit e b).n = b.n + 1 := by
  rw [(toolBpfEmit_of_overflow (h.overflow_eq_false hF)).1]
  simp [ToolBpfBuild.n]

/-- A placed label stands for its place in the finished program. -/
theorem placed {l : Nat} (h : Grows F (toolBpfPlace l b)) (hF : F.overflow = false)
    (hl : b.pos[l]? = some none) : F.pos[l]? = some (some b.n) := by
  refine h.pos_of_placed hF ?_
  simp only [toolBpfPlace, List.getElem?_set_self (List.getElem?_eq_some_iff.mp hl).1]

end Grows

/-! ### Waiting labels and gates -/

namespace Fresh

variable {l : Nat} {b : ToolBpfBuild}

theorem emit (h : Fresh l b) (e : Pending) : Fresh l (toolBpfEmit e b) := fun ho ↦ by
  obtain ⟨heq, hb⟩ := toolBpfEmit_of_overflow ho
  rw [heq]
  exact h hb

theorem label (h : Fresh l b) : Fresh l (toolBpfLabel b).2 := fun ho ↦ by
  obtain ⟨heq, hb⟩ := toolBpfLabel_of_overflow ho
  rw [heq, List.getElem?_append_left (List.getElem?_eq_some_iff.mp (h hb)).1]
  exact h hb

theorem place (h : Fresh l b) {k : Nat} (hne : b.overflow = false → k ≠ l) :
    Fresh l (toolBpfPlace k b) := fun ho ↦ by
  simp only [toolBpfPlace, List.getElem?_set_ne (hne ho)]
  exact h ho

/-- A new label waits. -/
theorem new (b : ToolBpfBuild) : Fresh (toolBpfLabel b).1 (toolBpfLabel b).2 := fun ho ↦ by
  rw [(toolBpfLabel_of_overflow ho).1]
  simp

/-- A new label is none of those that wait already. -/
theorem ne_new (h : Fresh l b) (ho : (toolBpfLabel b).2.overflow = false) :
    (toolBpfLabel b).1 ≠ l := by
  obtain ⟨heq, hb⟩ := toolBpfLabel_of_overflow ho
  have hlt := (List.getElem?_eq_some_iff.mp (h hb)).1
  rw [heq]
  exact Nat.ne_of_gt hlt

end Fresh

/-- A piece of the compiler that emits code and places only labels of its own. -/
structure Gate (g : ToolBpfBuild → ToolBpfBuild) : Prop where
  grows : ∀ {F b : ToolBpfBuild}, Grows F (g b) → Grows F b
  fresh : ∀ {l : Nat} {b : ToolBpfBuild}, Fresh l b → Fresh l (g b)

namespace Gate

variable {g g' : ToolBpfBuild → ToolBpfBuild}

theorem overflow_eq_false (hg : Gate g) {b : ToolBpfBuild} (h : (g b).overflow = false) :
    b.overflow = false :=
  (hg.grows .refl).overflow_eq_false h

protected theorem id : Gate fun b ↦ b := ⟨fun h ↦ h, fun h ↦ h⟩

theorem emit {e : Pending} (he : e.code ∈ toolCodes) : Gate (toolBpfEmit e) :=
  ⟨.emit e he, fun h ↦ h.emit e⟩

theorem comp (hg : Gate g) (hg' : Gate g') : Gate fun b ↦ g' (g b) :=
  ⟨fun h ↦ hg.grows (hg'.grows h), fun h ↦ hg'.fresh (hg.fresh h)⟩

theorem ite {c : Prop} [Decidable c] (hg : Gate g) (hg' : Gate g') :
    Gate fun b ↦ if c then g b else g' b := by
  split_ifs
  exacts [hg, hg']

/-- Code between the creation of a label and its place. -/
theorem labelled {c : Nat → ToolBpfBuild → ToolBpfBuild} (hc : ∀ ok, Gate (c ok)) :
    Gate fun b ↦ toolBpfPlace (toolBpfLabel b).1 (c (toolBpfLabel b).1 (toolBpfLabel b).2) where
  grows h := .label ((hc _).grows (.place _ ((hc _).fresh (.new _)) h))
  fresh h := ((hc _).fresh h.label).place fun ho ↦
    h.ne_new ((hc _).overflow_eq_false ho)

end Gate

theorem gate_ldhAbs (off : Nat) : Gate (ldhAbs off) := .emit (by simp [toolCodes])

theorem gate_ldbAbs (off : Nat) : Gate (ldbAbs off) := .emit (by simp [toolCodes])

theorem gate_ldhInd (off : Nat) : Gate (ldhInd off) := .emit (by simp [toolCodes])

theorem gate_ldxMsh (off : Nat) : Gate (ldxMsh off) := .emit (by simp [toolCodes])

theorem gate_jeq (k : ULong) (t f : Target) : Gate (jeq k t f) := .emit (by simp [toolCodes])

theorem gate_jset (k : ULong) (t f : Target) : Gate (jset k t f) := .emit (by simp [toolCodes])

theorem gate_ja (t : Nat) : Gate (ja t) := .emit (by simp [toolCodes])

theorem gate_ret (k : ULong) : Gate (ret k) := .emit (by simp [toolCodes])

/-! ### The shape of the code -/

/-- The code uses the compiler's instructions only, fits its buffer, and no label lies behind its
end. -/
structure Shape (b : ToolBpfBuild) : Prop where
  codes : ∀ e ∈ b.out, e.code ∈ toolCodes
  fits : b.n ≤ b.max ∧ b.n ≤ toolBpfMaxInsns
  labels : ∀ l p : Nat, b.pos[l]? = some (some p) → p ≤ b.n

theorem Shape.of_grows {F b : ToolBpfBuild} (h : Grows F b) (hF : F.overflow = false)
    (hb : Shape b) : Shape F := by
  induction h with
  | refl => exact hb
  | emit e he h ih =>
      have hroom := lt_of_toolBpfEmit (h.overflow_eq_false hF)
      rw [(toolBpfEmit_of_overflow (h.overflow_eq_false hF)).1] at ih
      refine ih ⟨fun e' he' ↦ ?_, ?_, fun l p hp ↦ ?_⟩
      · rcases List.mem_append.mp he' with hold | hnew
        · exact hb.codes e' hold
        · rw [List.mem_singleton.mp hnew]
          exact he
      · simp only [ToolBpfBuild.n, List.length_append, List.length_singleton] at hroom ⊢
        omega
      · have := hb.labels l p hp
        simp only [ToolBpfBuild.n, List.length_append] at this ⊢
        omega
  | label h ih =>
      rw [(toolBpfLabel_of_overflow (h.overflow_eq_false hF)).1] at ih
      refine ih ⟨hb.codes, hb.fits, fun l p hp ↦ hb.labels l p ?_⟩
      simp only [List.getElem?_append] at hp
      split_ifs at hp with hlt
      · exact hp
      · rw [List.getElem?_singleton] at hp
        split_ifs at hp
        cases hp
  | place l hl h ih =>
      refine ih ⟨hb.codes, hb.fits, fun l' p hp ↦ ?_⟩
      simp only [toolBpfPlace, List.getElem?_set] at hp
      split_ifs at hp
      · cases hp
        exact Nat.le_refl _
      · exact hb.labels l' p hp

/-- A return at the end of a shaped program: every label lies before the end, where the return
stands. -/
theorem Shape.ret {b : ToolBpfBuild} {k : ULong} (hb : Shape b)
    (ho : (ret k b).overflow = false) :
    (∀ l p : Nat, (ret k b).pos[l]? = some (some p) → p < (ret k b).n) ∧
      ∃ e, (ret k b).out.getLast? = some e ∧ bpfClass e.code = .ret := by
  rw [Bpf.ret, (toolBpfEmit_of_overflow ho).1]
  refine ⟨fun l p hp ↦ ?_, _, List.getLast?_concat, by simp [bpfClass]⟩
  have hle := hb.labels l p hp
  simp only [ToolBpfBuild.n, List.length_append, List.length_singleton] at hle ⊢
  omega

/-! ### Fixup -/

/-- The position that a jump of instruction `i` names. -/
def targetPos (pos : List (Option Nat)) (i : Nat) : Target → Option Nat
  | none => some (i + 1)
  | some label => pos[label]?.join

theorem toolBpfDelta_eq_some {pos : List (Option Nat)} {i label delta : Nat}
    (h : toolBpfDelta pos i label = some delta) :
    pos[label]? = some (some (i + 1 + delta)) := by
  unfold toolBpfDelta at h
  split at h
  · rename_i p hp
    split_ifs at h with hlt
    cases h
    rw [hp]
    congr 2
    omega
  · cases h

theorem fixupTarget_eq_some {pos : List (Option Nat)} {i : Nat} {t : Target} {d : UByte}
    (h : fixupTarget pos i t = some d) : targetPos pos i t = some (i + 1 + d.toNat) := by
  cases t with
  | none =>
      simp only [fixupTarget, Option.some.injEq] at h
      subst h
      rfl
  | some label =>
      simp only [fixupTarget] at h
      split at h
      · rename_i delta hdelta
        split_ifs at h with hsmall
        cases h
        rw [targetPos, toolBpfDelta_eq_some hdelta, BitVec.toNat_ofNat,
          Nat.mod_eq_of_lt (by omega)]
        rfl
      · cases h

/-- The fixup works instruction by instruction. -/
theorem fixupLoop_eq_some {pos : List (Option Nat)} {i : Nat} {es : List Pending}
    {insns : List Insn} (h : fixupLoop pos i es = some insns) :
    insns.length = es.length ∧
      ∀ (j : Nat) (e : Pending), es[j]? = some e →
        ∃ p, fixupInsn pos (i + j) e = some p ∧ insns[j]? = some p := by
  induction es generalizing i insns with
  | nil =>
      cases h
      simp
  | cons e es ih =>
      simp only [fixupLoop] at h
      split at h
      · rename_i p rest hp hrest
        cases h
        obtain ⟨hlen, hget⟩ := ih hrest
        refine ⟨by simp [hlen], fun j e' he' ↦ ?_⟩
        cases j with
        | zero =>
            cases he'
            exact ⟨p, hp, rfl⟩
        | succ j =>
            obtain ⟨p', hp', hin⟩ := hget j e' he'
            rw [Nat.add_right_comm, Nat.add_assoc] at hp'
            exact ⟨p', hp', hin⟩
      · cases h

/-! ### Validation -/

theorem allAccepted_of_forall {insns : List Insn}
    (h : ∀ i (hi : i < insns.length), insnAccepted insns[i] (insns.length - (i + 1)) = true) :
    allAccepted insns = true := by
  induction insns with
  | nil => rfl
  | cons p rest ih =>
      rw [allAccepted, Bool.and_eq_true]
      refine ⟨h 0 (by simp), ih fun i hi ↦ ?_⟩
      have hnext := h (i + 1) (Nat.succ_lt_succ hi)
      simpa only [List.getElem_cons_succ, List.length_cons, Nat.add_sub_add_right] using hnext

/-- A jump field stays inside a program of `n` instructions when its label does. -/
theorem toNat_lt_of_fixupTarget {pos : List (Option Nat)} {i n : Nat} {t : Target} {d : UByte}
    (hlabels : ∀ l p : Nat, pos[l]? = some (some p) → p < n) (hi : i + 1 < n)
    (h : fixupTarget pos i t = some d) : d.toNat < n - (i + 1) := by
  have htarget := fixupTarget_eq_some h
  cases t with
  | none =>
      simp only [targetPos, Option.some.injEq] at htarget
      omega
  | some label =>
      rw [targetPos, Option.join_eq_some_iff] at htarget
      have := hlabels label _ htarget
      omega

/-- The codes of the compiler: loads and returns that pass as they are, the unconditional jump, and
two conditional ones. -/
theorem toolCodes_cases {code : UWord} (h : code ∈ toolCodes) :
    (bpfClass code ≠ .jmp ∧ ∀ jt jf k room, insnAccepted ⟨code, jt, jf, k⟩ room = true) ∨
      (bpfClass code = .jmp ∧ (bpfJmpOp code = .ja ∨ bpfJmpOp code = .jeq ∨
        bpfJmpOp code = .jset)) := by
  simp only [toolCodes, List.mem_cons, List.not_mem_nil, or_false] at h
  rcases h with rfl | rfl | rfl | rfl | rfl | rfl | rfl | rfl | rfl
  case inr.inr.inr.inr.inr.inl | inr.inr.inr.inr.inr.inr.inl | inr.inr.inr.inr.inr.inr.inr.inl =>
    exact .inr (by decide)
  all_goals
    refine .inl ⟨by decide, fun jt jf k room ↦ ?_⟩
    simp [insnAccepted, bpfClass, bpfMode, bpfSize, bpfRval, amiBpfSizeBytes]

/-- An instruction of the compiler passes the validator after the fixup. -/
theorem insnAccepted_of_fixupInsn {pos : List (Option Nat)} {i n : Nat} {e : Pending} {p : Insn}
    (he : e.code ∈ toolCodes) (hlabels : ∀ l p : Nat, pos[l]? = some (some p) → p < n)
    (hi : bpfClass e.code = .jmp → i + 1 < n) (h : fixupInsn pos i e = some p) :
    insnAccepted p (n - (i + 1)) = true := by
  rcases toolCodes_cases he with ⟨hclass, hpass⟩ | ⟨hclass, hop⟩
  · simp only [fixupInsn, ne_eq, hclass, not_false_eq_true, if_true, Option.some.injEq] at h
    rw [← h]
    exact hpass _ _ _ _
  · have hin := hi hclass
    simp only [fixupInsn, hclass, ne_eq, not_true_eq_false, if_false] at h
    rcases hop with hop | hop
    · rw [if_pos hop] at h
      split at h
      · cases h
      · rename_i label _
        obtain ⟨delta, hdelta, rfl⟩ := Option.map_eq_some_iff.mp h
        have hlt := hlabels label _ (toolBpfDelta_eq_some hdelta)
        have hmod := Nat.mod_le delta (2 ^ 32)
        simp only [insnAccepted, hclass, hop, BitVec.toNat_ofNat, decide_eq_true_eq]
        omega
    · rw [if_neg (by rcases hop with hop | hop <;> simp [hop])] at h
      split at h
      · rename_i jt jf hjt hjf
        cases h
        have hjt := toNat_lt_of_fixupTarget hlabels hin hjt
        have hjf := toNat_lt_of_fixupTarget hlabels hin hjf
        rcases hop with hop | hop <;> simp [insnAccepted, hclass, hop, hjt, hjf]
      · cases h

/-- **The validator accepts compiled code.**  The last instruction is a return, and every label
lies before the end. -/
theorem amiBpfValidate_of_shape {F : ToolBpfBuild} {insns : List Insn} (hshape : Shape F)
    (hlabels : ∀ l p : Nat, F.pos[l]? = some (some p) → p < F.n)
    (hlast : ∃ e, F.out.getLast? = some e ∧ bpfClass e.code = .ret)
    (h : toolBpfFixup F = some insns) :
    amiBpfValidate (some insns) = 0 ∧ insns.length = F.n := by
  obtain ⟨hlen, hget⟩ := fixupLoop_eq_some h
  obtain ⟨last, hlast, hret⟩ := hlast
  have hfixed {i : Nat} (hi : i < insns.length) :
      ∃ e, F.out[i]? = some e ∧ fixupInsn F.pos i e = some insns[i] := by
    have hout : i < F.out.length := by omega
    obtain ⟨p, hp, hin⟩ := hget i _ (List.getElem?_eq_getElem hout)
    rw [List.getElem?_eq_getElem hi] at hin
    cases hin
    exact ⟨_, List.getElem?_eq_getElem hout, by simpa using hp⟩
  refine ⟨amiBpfValidate_eq_zero_iff.mpr ⟨?_, allAccepted_of_forall fun i hi ↦ ?_, ?_⟩, hlen⟩
  · have := hshape.fits.2
    simp only [ToolBpfBuild.n, toolBpfMaxInsns] at this
    simp only [bpfMaxInsns]
    omega
  · obtain ⟨e, he, hp⟩ := hfixed hi
    rw [hlen]
    refine insnAccepted_of_fixupInsn (hshape.codes e (List.mem_of_getElem? he)) hlabels
      (fun hjmp ↦ ?_) hp
    -- a jump is not the last instruction, because that one returns
    by_contra hend
    rw [List.getLast?_eq_getElem?] at hlast
    have hi' : F.out.length - 1 = i := by omega
    rw [hi', he] at hlast
    cases hlast
    rw [hjmp] at hret
    cases hret
  · have hi : insns.length - 1 < insns.length := by
      have : 0 < F.out.length := List.length_pos_of_mem (List.mem_of_getLast? hlast)
      omega
    obtain ⟨e, he, hp⟩ := hfixed hi
    refine ⟨insns[insns.length - 1], ?_, ?_⟩
    · rw [List.getLast?_eq_getElem?, List.getElem?_eq_getElem hi]
    · rw [List.getLast?_eq_getElem?, ← hlen, he] at hlast
      cases hlast
      simp only [fixupInsn, hret, ne_eq, reduceCtorEq, not_false_eq_true, if_true,
        Option.some.injEq] at hp
      rw [← hp]
      exact hret

end AmiNetXDuo.Bpf
