import AmiNetXDuo.Bpf.Builder
import AmiNetXDuo.Bpf.FilterSpec

/-!
# The gates of the filter compiler

What the code of each gate does in a finished program.  The proofs follow the code backwards: if the
code behind a gate keeps `w` bytes and the code at the reject label keeps `u`, then the code from
the gate on keeps `w` bytes when the gate's tests hold, `u` when they do not, and none when the
frame is too short for them.

## Main definitions

* `Linked` : a finished builder and the instructions that the fixup makes of it.
* `Yields` : the code from a position on keeps so many bytes, whatever the registers hold.
* `Answer.keeps` : how many bytes that is, by what the tests say.

## Main results

* `Linked.yields_test`, `Linked.yields_portTest` : the two forms of test that the gates are made
  of.
* `Linked.yields_gateProto_want`, `Linked.yields_gateProto_any`, `Linked.yields_gateHost4`,
  `Linked.yields_gateHost6`, `Linked.yields_gatePort4`, `Linked.yields_gatePort6` : the gates.
-/

namespace AmiNetXDuo.Bpf

/-- The instructions `ops` are what `tool_bpf_fixup` makes of the finished builder `F`. -/
structure Linked (F : ToolBpfBuild) (ops : List Op) : Prop where
  overflow : F.overflow = false
  shape : Shape F
  fixed : ∃ insns, toolBpfFixup F = some insns ∧ insns.map decode = ops.map some

/-- From position `i` on, with an index register that satisfies `P`, the program keeps `w`
bytes. -/
def Yields (ops : List Op) (packet : Packet) (P : ULong → Prop) (i : Nat) (w : ULong) : Prop :=
  ∀ r : Regs, P r.x → (exec packet i ops r).map Verdict.value = some w

/-- The code that a jump of instruction `i` names keeps `w` bytes. -/
def YieldsAt (F : ToolBpfBuild) (ops : List Op) (packet : Packet) (P : ULong → Prop) (i : Nat)
    (t : Target) (w : ULong) : Prop :=
  ∃ p, targetPos F.pos i t = some p ∧ Yields ops packet P p w

/-- The same for one state of the registers. -/
def ResultAt (F : ToolBpfBuild) (ops : List Op) (packet : Packet) (r : Regs) (i : Nat)
    (t : Target) (w : ULong) : Prop :=
  ∃ p, targetPos F.pos i t = some p ∧ (exec packet p ops r).map Verdict.value = some w

theorem YieldsAt.resultAt {F : ToolBpfBuild} {ops : List Op} {packet : Packet}
    {P : ULong → Prop} {i : Nat} {t : Target} {w : ULong} (h : YieldsAt F ops packet P i t w)
    {r : Regs} (hr : P r.x) : ResultAt F ops packet r i t w := by
  obtain ⟨p, hp, hyield⟩ := h
  exact ⟨p, hp, hyield r hr⟩

/-- What a load and a conditional jump keep together: nothing when the field is missing, else what
the branch keeps that the condition selects. -/
def testKeeps (field : Option ULong) (c : Cond) (k wt wf : ULong) : ULong :=
  match field with
  | none => 0
  | some v => if c.holds v k then wt else wf

/-! ### Single instructions -/

namespace Linked

variable {F : ToolBpfBuild} {ops : List Op} {packet : Packet} {P : ULong → Prop}
  {i : Nat} {w wt wf : ULong}

/-- The instruction at a position. -/
theorem op_at (hlink : Linked F ops) {e : Pending} (he : F.out[i]? = some e) :
    ∃ (p : Insn) (hi : i < ops.length), fixupInsn F.pos i e = some p ∧
      decode p = some ops[i] := by
  obtain ⟨insns, hfix, hdec⟩ := hlink.fixed
  obtain ⟨hlen, hget⟩ := fixupLoop_eq_some hfix
  obtain ⟨p, hp, hin⟩ := hget i e he
  rw [Nat.zero_add] at hp
  have hget := congrArg (fun l ↦ l[i]?) hdec
  simp only [List.getElem?_map, hin, Option.map_some] at hget
  obtain ⟨op, hop, hdecode⟩ := Option.map_eq_some_iff.mp hget.symm
  obtain ⟨hi, rfl⟩ := List.getElem?_eq_some_iff.mp hop
  exact ⟨p, hi, hp, hdecode.symm⟩

/-- An instruction that is no jump. -/
theorem plain_at (hlink : Linked F ops) {code : UWord} {k : ULong} {t f : Target} {op : Op}
    (he : F.out[i]? = some ⟨code, k, t, f⟩) (hclass : bpfClass code ≠ .jmp)
    (hop : decode ⟨code, 0, 0, k⟩ = some op) : ∃ hi : i < ops.length, ops[i] = op := by
  obtain ⟨p, hi, hp, hdec⟩ := hlink.op_at he
  simp only [fixupInsn, ne_eq, hclass, not_false_eq_true, if_true, Option.some.injEq] at hp
  rw [← hp, hop] at hdec
  exact ⟨hi, (Option.some.inj hdec).symm⟩

/-- A conditional jump goes to one of the two places that it names. -/
theorem branch_at (hlink : Linked F ops) {code : UWord} {k : ULong} {t f : Target} {c : Cond}
    (he : F.out[i]? = some ⟨code, k, t, f⟩) (hclass : bpfClass code = .jmp)
    (hja : bpfJmpOp code ≠ .ja)
    (hop : ∀ jt jf, decode ⟨code, jt, jf, k⟩ = some (.jmp c (.k k) jt.toNat jf.toNat))
    {r : Regs} (ht : ResultAt F ops packet r i t wt) (hf : ResultAt F ops packet r i f wf) :
    (exec packet i ops r).map Verdict.value = some (if c.holds r.a k then wt else wf) := by
  obtain ⟨p, hi, hp, hdec⟩ := hlink.op_at he
  simp only [fixupInsn, hclass, ne_eq, not_true_eq_false, if_false, hja] at hp
  split at hp
  · rename_i jt jf hjt hjf
    cases hp
    rw [hop] at hdec
    obtain ⟨pt, hpt, hyt⟩ := ht
    obtain ⟨pf, hpf, hyf⟩ := hf
    rw [fixupTarget_eq_some hjt] at hpt
    rw [fixupTarget_eq_some hjf] at hpf
    cases hpt
    cases hpf
    rw [exec_eq_step packet ops i hi, ← Option.some.inj hdec]
    simp only [Op.step, Operand.eval]
    by_cases hc : c.holds r.a k = true
    · simpa only [hc, if_true] using hyt
    · simpa only [hc, Bool.false_eq_true, if_false] using hyf
  · cases hp

/-- A return. -/
theorem yields_ret (hlink : Linked F ops) {k : ULong} {t f : Target}
    (he : F.out[i]? = some ⟨0x06, k, t, f⟩) : Yields ops packet P i k := by
  obtain ⟨hi, hop⟩ := hlink.plain_at he (by decide)
    (show decode _ = some (.retK k) by simp [decode, bpfClass, bpfRval])
  intro r _
  rw [exec_eq_step packet ops i hi, hop]
  rfl

/-- An unconditional jump. -/
theorem yields_ja (hlink : Linked F ops) {l : Nat} {k : ULong} {f : Target}
    (he : F.out[i]? = some ⟨0x05, k, some l, f⟩)
    (hl : YieldsAt F ops packet P i (some l) w) : Yields ops packet P i w := by
  obtain ⟨p, hi, hp, hdec⟩ := hlink.op_at he
  obtain ⟨q, hq, hyield⟩ := hl
  have hp : (toolBpfDelta F.pos i l).map
      (fun delta ↦ (⟨0x05, 0, 0, BitVec.ofNat 32 delta⟩ : Insn)) = some p := by
    simpa [fixupInsn, bpfClass, bpfJmpOp] using hp
  obtain ⟨delta, hdelta, rfl⟩ := Option.map_eq_some_iff.mp hp
  have hpos := toolBpfDelta_eq_some hdelta
  have hsmall : delta < 2 ^ 32 := by
    have hle := hlink.shape.labels l _ hpos
    have hfits := hlink.shape.fits.2
    simp only [toolBpfMaxInsns] at hfits
    omega
  have hdec' : decode ⟨0x05, 0, 0, BitVec.ofNat 32 delta⟩ = some (.ja delta) := by
    simpa [decode, decodeJmp, bpfClass, bpfJmpOp] using hsmall
  rw [hdec'] at hdec
  rw [targetPos, hpos] at hq
  cases hq
  intro r hr
  rw [exec_eq_step packet ops i hi, ← Option.some.inj hdec]
  exact hyield r hr

/-- A load from a fixed offset. -/
theorem exec_ldAbs (hlink : Linked F ops) {code : UWord} {off : Nat} {t f : Target} {width : Width}
    (he : F.out[i]? = some ⟨code, BitVec.ofNat 32 off, t, f⟩) (hclass : bpfClass code ≠ .jmp)
    (hop : ∀ k, decode ⟨code, 0, 0, k⟩ = some (.ldAbs width k)) (hoff : off < 2 ^ 32) (r : Regs) :
    exec packet i ops r =
      match packet.load off width.bytes with
      | some v => exec packet (i + 1) ops { r with a := v }
      | none => some (.reject .load) := by
  obtain ⟨hi, hop⟩ := hlink.plain_at he hclass (hop _)
  rw [exec_eq_step packet ops i hi, hop]
  simp only [Op.step, loadOr, BitVec.toNat_ofNat, Nat.mod_eq_of_lt hoff]
  cases packet.load off width.bytes <;> rfl

/-- A load of 16 bits at an offset from the index register. -/
theorem exec_ldhInd (hlink : Linked F ops) {off : Nat} {t f : Target}
    (he : F.out[i]? = some ⟨0x48, BitVec.ofNat 32 off, t, f⟩) (r : Regs)
    (hoff : r.x.toNat + off < 2 ^ 32) :
    exec packet i ops r =
      match packet.load (r.x.toNat + off) 2 with
      | some v => exec packet (i + 1) ops { r with a := v }
      | none => some (.reject .load) := by
  obtain ⟨hi, hop⟩ := hlink.plain_at he (by decide)
    (show decode _ = some (.ldInd .half (BitVec.ofNat 32 off)) by
      simp [decode, decodeWidth, bpfClass, bpfMode, bpfSize])
  rw [exec_eq_step packet ops i hi, hop]
  simp only [Op.step, loadOr, BitVec.toNat_ofNat,
    Nat.mod_eq_of_lt (show off < 2 ^ 32 by omega), if_pos hoff]
  rw [show Width.half.bytes = 2 from rfl]
  cases packet.load (r.x.toNat + off) 2 <;> rfl

/-- The load of the IPv4 header length. -/
theorem yields_ldxMsh (hlink : Linked F ops) {off : Nat} {t f : Target}
    (he : F.out[i]? = some ⟨0xb1, BitVec.ofNat 32 off, t, f⟩) (hoff : off < 2 ^ 32)
    {field : Option ULong} (hfield : packet.load off 1 = field) {w : ULong → ULong}
    (hnext : ∀ v, field = some v →
      Yields ops packet (· = (v &&& 0x0f) <<< 2) (i + 1) (w v)) :
    Yields ops packet P i (match field with | none => 0 | some v => w v) := by
  obtain ⟨hi, hop⟩ := hlink.plain_at he (by decide)
    (show decode _ = some (.ldxMsh (BitVec.ofNat 32 off)) by
      simp [decode, bpfClass, bpfMode, bpfSize])
  intro r _
  rw [exec_eq_step packet ops i hi, hop]
  simp only [Op.step, loadOr, BitVec.toNat_ofNat, Nat.mod_eq_of_lt hoff]
  cases hload : packet.load off Width.byte.bytes with
  | none =>
      rw [← hfield]
      change _ = some (match packet.load off Width.byte.bytes with | none => 0 | some v => w v)
      rw [hload]
      rfl
  | some v =>
      have hv : field = some v := hfield ▸ hload
      subst hv
      exact hnext v rfl _ rfl

end Linked

/-! ### Tests -/

/-- The code of a load of this width from a fixed offset. -/
def IsLoad (code : UWord) (width : Width) : Prop :=
  bpfClass code ≠ .jmp ∧ ∀ k, decode ⟨code, 0, 0, k⟩ = some (.ldAbs width k)

/-- The code of a jump on this comparison with a constant. -/
def IsBranch (code : UWord) (c : Cond) : Prop :=
  (code ∈ toolCodes ∧ bpfClass code = .jmp ∧ bpfJmpOp code ≠ .ja) ∧
    ∀ jt jf k, decode ⟨code, jt, jf, k⟩ = some (.jmp c (.k k) jt.toNat jf.toNat)

theorem isLoad_ldb : IsLoad 0x30 .byte :=
  ⟨by decide, fun _ ↦ by simp [decode, decodeWidth, bpfClass, bpfMode, bpfSize]⟩

theorem isLoad_ldh : IsLoad 0x28 .half :=
  ⟨by decide, fun _ ↦ by simp [decode, decodeWidth, bpfClass, bpfMode, bpfSize]⟩

theorem isLoad_ldw : IsLoad 0x20 .word :=
  ⟨by decide, fun _ ↦ by simp [decode, decodeWidth, bpfClass, bpfMode, bpfSize]⟩

theorem isBranch_jeq : IsBranch 0x15 .eq :=
  ⟨by decide, fun _ _ _ ↦ by
    simp [decode, decodeJmp, decodeOperand, bpfClass, bpfJmpOp, bpfSrc]⟩

theorem isBranch_jset : IsBranch 0x45 .set :=
  ⟨by decide, fun _ _ _ ↦ by
    simp [decode, decodeJmp, decodeOperand, bpfClass, bpfJmpOp, bpfSrc]⟩

section Tests

variable {F b : ToolBpfBuild} {ops : List Op} {frame : List UByte} {wirelen : ULong}
  {P : ULong → Prop} {k w wt wf : ULong} {t f : Target}

/-- **A test of a field at a fixed offset.** -/
theorem Linked.yields_test (hlink : Linked F ops) {code ccode : UWord} {width : Width} {c : Cond}
    {off : Nat} (hload : IsLoad code width) (hbranch : IsBranch ccode c) (hoff : off < 2 ^ 32)
    (hg : Grows F (toolBpfEmit ⟨ccode, k, t, f⟩
      (toolBpfEmit ⟨code, BitVec.ofNat 32 off, none, none⟩ b)))
    (ht : YieldsAt F ops ⟨wirelen, frame⟩ P (b.n + 1) t wt)
    (hf : YieldsAt F ops ⟨wirelen, frame⟩ P (b.n + 1) f wf) :
    Yields ops ⟨wirelen, frame⟩ P b.n
      (testKeeps (fieldAt frame off width.bytes) c k wt wf) := by
  have hg' := Grows.emit _ hbranch.1.1 hg
  have hn := hg'.n_toolBpfEmit hlink.overflow
  have hld := hg'.emitted hlink.overflow
  have hjmp := hg.emitted hlink.overflow
  rw [hn] at hjmp
  intro r hr
  rw [hlink.exec_ldAbs hld hload.1 hload.2 hoff]
  change Option.map _ (match fieldAt frame off width.bytes with | some v => _ | none => _) = _
  cases fieldAt frame off width.bytes with
  | none => rfl
  | some v =>
      exact hlink.branch_at hjmp hbranch.1.2.1 hbranch.1.2.2 (fun jt jf ↦ hbranch.2 jt jf k)
        (ht.resultAt hr) (hf.resultAt hr)

/-- A test of a 16-bit field behind the header whose length the index register holds. -/
theorem Linked.yields_portTest (hlink : Linked F ops) {off : Nat} {x : ULong}
    (hoff : x.toNat + off < 2 ^ 32) (hg : Grows F (jeq k t f (ldhInd off b)))
    (ht : YieldsAt F ops ⟨wirelen, frame⟩ (· = x) (b.n + 1) t wt)
    (hf : YieldsAt F ops ⟨wirelen, frame⟩ (· = x) (b.n + 1) f wf) :
    Yields ops ⟨wirelen, frame⟩ (· = x) b.n
      (testKeeps (fieldAt frame (x.toNat + off) 2) .eq k wt wf) := by
  have hg' := (gate_jeq k t f).grows hg
  have hn := hg'.n_toolBpfEmit hlink.overflow
  have hld := hg'.emitted hlink.overflow
  have hjmp := hg.emitted hlink.overflow
  rw [ldhInd, hn] at hjmp
  rintro r rfl
  rw [hlink.exec_ldhInd hld r hoff]
  change Option.map _ (match fieldAt frame (r.x.toNat + off) 2 with | some v => _ | none => _) = _
  cases fieldAt frame (r.x.toNat + off) 2 with
  | none => rfl
  | some v =>
      exact hlink.branch_at hjmp isBranch_jeq.1.2.1 isBranch_jeq.1.2.2
        (fun jt jf ↦ isBranch_jeq.2 jt jf k) (ht.resultAt rfl) (hf.resultAt rfl)

end Tests

/-! ### Gates -/

/-- The code at the reject label keeps `u` bytes. -/
def Rejects (F : ToolBpfBuild) (ops : List Op) (packet : Packet) (reject : Nat) (u : ULong) :
    Prop :=
  ∀ P i, YieldsAt F ops packet P i (some reject) u

/-- What code keeps of a frame: `w` bytes when its tests hold and `u` bytes when they do not. -/
def Answer.keeps (a : Answer) (w u : ULong) : ULong :=
  match a with
  | none => 0
  | some true => w
  | some false => u

theorem Answer.keeps_and (a b : Answer) (w u : ULong) :
    (a.and b).keeps w u = a.keeps (b.keeps w u) u := by
  rcases a with _ | _ | _ <;> rfl

theorem Answer.keeps_or (a b : Answer) (w u : ULong) :
    (a.or b).keeps w u = a.keeps w (b.keeps w u) := by
  rcases a with _ | _ | _ <;> rfl

theorem testKeeps_eq (frame : List UByte) (off n : Nat) (k wt wf : ULong) :
    testKeeps (fieldAt frame off n) .eq k wt wf = (fieldIs frame off n k).keeps wt wf := by
  rw [fieldIs]
  cases fieldAt frame off n with
  | none => rfl
  | some v => by_cases hv : v = k <;> simp [testKeeps, Cond.holds, Answer.keeps, hv]

section Gates

variable {F b : ToolBpfBuild} {ops : List Op} {frame : List UByte} {wirelen : ULong}
  {P : ULong → Prop} {k w u : ULong} {code : UWord} {width : Width} {off reject : Nat}

/-- A placed label yields what the code at its place yields. -/
theorem Linked.yieldsAt_placed (hlink : Linked F ops) {packet : Packet} {l i : Nat}
    (hg : Grows F (toolBpfPlace l b)) (hl : Fresh l b) (h : Yields ops packet P b.n w) :
    YieldsAt F ops packet P i (some l) w := by
  have ho : b.overflow = false := hg.overflow_eq_false hlink.overflow
  refine ⟨b.n, ?_, h⟩
  rw [targetPos, hg.placed hlink.overflow (hl ho)]
  rfl

theorem yieldsAt_next {packet : Packet} {i : Nat} (h : Yields ops packet P (i + 1) w) :
    YieldsAt F ops packet P i none w :=
  ⟨i + 1, rfl, h⟩

/-- A load of this code and width. -/
def ldAbs (code : UWord) (off : Nat) : ToolBpfBuild → ToolBpfBuild :=
  toolBpfEmit ⟨code, BitVec.ofNat 32 off, none, none⟩

theorem gate_test {c : UWord} (hc : c ∈ toolCodes) (k : ULong) (off : Nat)
    (t f : Target) : Gate fun b ↦ jeq k t f (ldAbs c off b) :=
  (Gate.emit hc).comp (gate_jeq k t f)

theorem Linked.n_test (hlink : Linked F ops) {t f : Target}
    (h : Grows F (jeq k t f (ldAbs code off b))) :
    (jeq k t f (ldAbs code off b)).n = b.n + 1 + 1 := by
  rw [jeq, h.n_toolBpfEmit hlink.overflow, ldAbs,
    ((gate_jeq k t f).grows h).n_toolBpfEmit hlink.overflow]

/-- **A gate that tests.**  It keeps what its answer says, where the code behind it keeps `w` bytes
and the code at the reject label `u`. -/
def Tests (F : ToolBpfBuild) (ops : List Op) (packet : Packet) (reject : Nat)
    (g : ToolBpfBuild → ToolBpfBuild) (C : Answer) : Prop :=
  ∀ ⦃b w u⦄, Grows F (g b) → Yields ops packet (fun _ ↦ True) (g b).n w →
    Rejects F ops packet reject u → Yields ops packet (fun _ ↦ True) b.n (C.keeps w u)

/-- One field compared with a value. -/
theorem Linked.tests_field (hlink : Linked F ops) (hload : IsLoad code width)
    (hoff : off < 2 ^ 32) :
    Tests F ops ⟨wirelen, frame⟩ reject (fun b ↦ jeq k none (some reject) (ldAbs code off b))
      (fieldIs frame off width.bytes k) := by
  intro b w u hg hnext hrej
  rw [hlink.n_test hg] at hnext
  have h := hlink.yields_test hload isBranch_jeq hoff hg (yieldsAt_next hnext) (hrej _ _)
  rwa [testKeeps_eq] at h

/-- Two fields compared with one value, the second where the first differs. -/
def eitherGate (code : UWord) (k : ULong) (off off' reject : Nat) (b : ToolBpfBuild) :
    ToolBpfBuild :=
  toolBpfPlace (toolBpfLabel b).1 (jeq k none (some reject) (ldAbs code off'
    (jeq k (some (toolBpfLabel b).1) none (ldAbs code off (toolBpfLabel b).2))))

theorem gate_eitherGate {c : UWord} (hc : c ∈ toolCodes) (k : ULong) (off off' reject : Nat) :
    Gate (eitherGate c k off off' reject) :=
  .labelled fun ok ↦ (gate_test hc k off (some ok) none).comp
    (gate_test hc k off' none (some reject))

theorem Linked.tests_eitherGate (hlink : Linked F ops) (hload : IsLoad code width)
    (hcode : code ∈ toolCodes) {off' : Nat} (hoff : off < 2 ^ 32) (hoff' : off' < 2 ^ 32) :
    Tests F ops ⟨wirelen, frame⟩ reject (eitherGate code k off off' reject)
      (eitherIs frame off off' width.bytes k) := by
  intro b w u hg hnext hrej
  unfold eitherGate at hg hnext
  have hfresh := Fresh.new b
  rw [← toolBpfLabel_n b]
  generalize (toolBpfLabel b).1 = ok at hg hnext hfresh
  generalize (toolBpfLabel b).2 = b at hg hnext hfresh
  have hgate := gate_test hcode k
  have hfresh₂ := (hgate off' none (some reject)).fresh ((hgate off (some ok) none).fresh hfresh)
  have hg₂ := Grows.place ok hfresh₂ hg
  have hg₁ := (hgate off' none (some reject)).grows hg₂
  rw [toolBpfPlace_n] at hnext
  have hok := hlink.yieldsAt_placed (i := b.n + 1) hg hfresh₂ hnext
  have hsecond := hlink.tests_field hload hoff' hg₂ hnext hrej
  rw [hlink.n_test hg₁] at hsecond
  have hfirst := hlink.yields_test hload isBranch_jeq hoff hg₁ hok (yieldsAt_next hsecond)
  rwa [testKeeps_eq, ← Answer.keeps_or] at hfirst

theorem gate_toolBpfGateHost4 (reject : Nat) (host : ULong) (srcOff dstOff : Nat) :
    Gate (toolBpfGateHost4 reject host srcOff dstOff) :=
  gate_eitherGate (c := 0x20) (by simp [toolCodes]) host srcOff dstOff reject

theorem Linked.tests_gateHost4 (hlink : Linked F ops) {host : ULong} {srcOff dstOff : Nat}
    (hsrc : srcOff < 2 ^ 32) (hdst : dstOff < 2 ^ 32) :
    Tests F ops ⟨wirelen, frame⟩ reject (toolBpfGateHost4 reject host srcOff dstOff)
      (eitherIs frame srcOff dstOff 4 host) :=
  hlink.tests_eitherGate isLoad_ldw (by simp [toolCodes]) hsrc hdst

theorem gate_toolBpfGatePort6 (reject : Nat) (port : ULong) :
    Gate (toolBpfGatePort6 reject port) :=
  gate_eitherGate (c := 0x28) (by simp [toolCodes]) port 54 56 reject

theorem Linked.tests_gatePort6 (hlink : Linked F ops) {port : ULong} :
    Tests F ops ⟨wirelen, frame⟩ reject (toolBpfGatePort6 reject port)
      (eitherIs frame 54 56 2 port) :=
  hlink.tests_eitherGate isLoad_ldh (by simp [toolCodes]) (by decide) (by decide)

theorem gate_toolBpfGateProto (reject off : Nat) (want : Option ULong) (tcp udp : ULong)
    (anyOfTwo : Bool) : Gate (toolBpfGateProto reject off want tcp udp anyOfTwo) := by
  cases anyOfTwo with
  | true =>
      exact (gate_ldbAbs off).comp (.labelled fun ok ↦
        (gate_jeq tcp (some ok) none).comp (gate_jeq udp none (some reject)))
  | false =>
      cases want with
      | none => exact Gate.id
      | some want => exact (gate_ldbAbs off).comp (gate_jeq want none (some reject))

theorem toolBpfGateProto_any_eq (reject off : Nat) (want : Option ULong) (tcp udp : ULong)
    (b : ToolBpfBuild) :
    toolBpfGateProto reject off want tcp udp true b =
      toolBpfPlace (toolBpfLabel (ldAbs 0x30 off b)).1 (jeq udp none (some reject)
        (jeq tcp (some (toolBpfLabel (ldAbs 0x30 off b)).1) none
          (toolBpfLabel (ldAbs 0x30 off b)).2)) := rfl

/-- The gate for one wanted protocol. -/
theorem Linked.tests_gateProto_want (hlink : Linked F ops) {want tcp udp : ULong}
    (hoff : off < 2 ^ 32) :
    Tests F ops ⟨wirelen, frame⟩ reject (toolBpfGateProto reject off (some want) tcp udp false)
      (fieldIs frame off 1 want) :=
  hlink.tests_field isLoad_ldb hoff

/-- The gate for TCP or UDP. -/
theorem Linked.tests_gateProto_any (hlink : Linked F ops) {want : Option ULong}
    {tcp udp : ULong} (hoff : off < 2 ^ 32) :
    Tests F ops ⟨wirelen, frame⟩ reject (toolBpfGateProto reject off want tcp udp true)
      (isOneOf frame off 1 tcp udp) := by
  intro b w u hg hnext hrej
  rw [toolBpfGateProto_any_eq] at hg hnext
  rw [toolBpfPlace_n] at hnext
  generalize hok' : (toolBpfLabel (ldAbs 0x30 off b)).1 = ok at hg hnext
  have hfresh : Fresh ok (jeq udp none (some reject)
      (jeq tcp (some ok) none (toolBpfLabel (ldAbs 0x30 off b)).2)) :=
    (gate_jeq _ _ _).fresh ((gate_jeq _ _ _).fresh (hok' ▸ .new _))
  have hg₂ := Grows.place ok hfresh hg
  have hg₁ := (gate_jeq udp none (some reject)).grows hg₂
  have hg₀ := Grows.label ((gate_jeq tcp (some ok) none).grows hg₁)
  have hok := hlink.yieldsAt_placed (i := b.n + 1) hg hfresh hnext
  have hn₁ : (toolBpfLabel (ldAbs 0x30 off b)).2.n = b.n + 1 := by
    rw [toolBpfLabel_n]
    exact hg₀.n_toolBpfEmit hlink.overflow
  have hjmp₁ := hg₁.emitted hlink.overflow
  have hn₂ : (jeq tcp (some ok) none (toolBpfLabel (ldAbs 0x30 off b)).2).n = _ :=
    hg₁.n_toolBpfEmit hlink.overflow
  have hjmp₂ := hg₂.emitted hlink.overflow
  have hn₃ : (jeq udp none (some reject)
      (jeq tcp (some ok) none (toolBpfLabel (ldAbs 0x30 off b)).2)).n = _ :=
    hg₂.n_toolBpfEmit hlink.overflow
  rw [hn₁] at hjmp₁ hn₂
  rw [hn₂] at hjmp₂
  rw [hn₃, hn₂] at hnext
  intro r hr
  rw [hlink.exec_ldAbs (hg₀.emitted hlink.overflow) isLoad_ldb.1 isLoad_ldb.2 hoff]
  change Option.map _ (match fieldAt frame off 1 with | some v => _ | none => _) = _
  rw [isOneOf, Answer.keeps_or, ← testKeeps_eq, ← testKeeps_eq]
  cases fieldAt frame off 1 with
  | none => rfl
  | some v =>
      have hsecond := hlink.branch_at hjmp₂ isBranch_jeq.1.2.1 isBranch_jeq.1.2.2
        (fun jt jf ↦ isBranch_jeq.2 jt jf udp) (r := { r with a := v })
        ((yieldsAt_next hnext).resultAt hr) ((hrej (fun _ ↦ True) _).resultAt hr)
      have hfirst := hlink.branch_at hjmp₁ isBranch_jeq.1.2.1 isBranch_jeq.1.2.2
        (fun jt jf ↦ isBranch_jeq.2 jt jf tcp) (r := { r with a := v })
        (hok.resultAt hr) ⟨_, rfl, hsecond⟩
      exact hfirst

theorem gate_wordTests (host : Vector UByte 16) (t f : Target) (off : Nat) :
    Gate (wordTests host t f off) where
  grows h := by
    have hgate := gate_test (c := 0x20) (by simp [toolCodes])
    exact (hgate _ off none f).grows ((hgate _ (off + 4) none f).grows
      ((hgate _ (off + 8) none f).grows ((hgate _ (off + 12) t f).grows h)))
  fresh h := by
    have hgate := gate_test (c := 0x20) (by simp [toolCodes])
    exact (hgate _ (off + 12) t f).fresh ((hgate _ (off + 8) none f).fresh
      ((hgate _ (off + 4) none f).fresh ((hgate _ off none f).fresh h)))

/-- The tests of an address: how many instructions they are, and what they answer. -/
theorem Linked.yields_wordTests (hlink : Linked F ops) {host : Vector UByte 16} {t f : Target}
    {off : Nat} {wf : ULong} (hoff : off + 12 < 2 ^ 32) (hg : Grows F (wordTests host t f off b))
    (hf : ∀ i, YieldsAt F ops ⟨wirelen, frame⟩ P i f wf) :
    (wordTests host t f off b).n = b.n + 8 ∧
      ∀ {wt : ULong}, YieldsAt F ops ⟨wirelen, frame⟩ P (b.n + 7) t wt →
        Yields ops ⟨wirelen, frame⟩ P b.n ((wordsAre frame off host).keeps wt wf) := by
  have hgate := gate_test (c := 0x20) (by simp [toolCodes])
  let b₁ := jeq (toolBpfV6Word host 0) none f (ldAbs 0x20 off b)
  let b₂ := jeq (toolBpfV6Word host 1) none f (ldAbs 0x20 (off + 4) b₁)
  let b₃ := jeq (toolBpfV6Word host 2) none f (ldAbs 0x20 (off + 8) b₂)
  have hg₄ : Grows F (jeq (toolBpfV6Word host 3) t f (ldAbs 0x20 (off + 12) b₃)) := hg
  have hg₃ : Grows F b₃ := (hgate _ (off + 12) t f).grows hg₄
  have hg₂ : Grows F b₂ := (hgate _ (off + 8) none f).grows hg₃
  have hg₁ : Grows F b₁ := (hgate _ (off + 4) none f).grows hg₂
  have hn₁ : b₁.n = b.n + 1 + 1 := hlink.n_test hg₁
  have hn₂ : b₂.n = b₁.n + 1 + 1 := hlink.n_test hg₂
  have hn₃ : b₃.n = b₂.n + 1 + 1 := hlink.n_test hg₃
  have hn₄ : (wordTests host t f off b).n = b₃.n + 1 + 1 := hlink.n_test hg₄
  refine ⟨by omega, fun ht ↦ ?_⟩
  have hstep {v : ULong} (b : ToolBpfBuild) (k : ULong) (t : Target) {off' : Nat}
      (hle : off' ≤ off + 12) (hg : Grows F (jeq k t f (ldAbs 0x20 off' b)))
      (ht : YieldsAt F ops ⟨wirelen, frame⟩ P (b.n + 1) t v) :
      Yields ops ⟨wirelen, frame⟩ P b.n ((fieldIs frame off' 4 k).keeps v wf) := by
    rw [← testKeeps_eq]
    exact hlink.yields_test isLoad_ldw isBranch_jeq (by omega) hg ht (hf _)
  have h₃ := hstep b₃ _ t (by omega) hg₄ (by rwa [hn₃, hn₂, hn₁])
  rw [hn₃] at h₃
  have h₂ := hstep b₂ _ none (by omega) hg₃ (yieldsAt_next h₃)
  rw [hn₂] at h₂
  have h₁ := hstep b₁ _ none (by omega) hg₂ (yieldsAt_next h₂)
  rw [hn₁] at h₁
  rw [wordsAre_eq, Answer.keeps_and, Answer.keeps_and, Answer.keeps_and]
  exact hstep b _ none (by omega) hg₁ (yieldsAt_next h₁)

theorem toolBpfGateHost6_eq (reject : Nat) (host : Vector UByte 16) (b : ToolBpfBuild) :
    toolBpfGateHost6 reject host b =
      toolBpfPlace (toolBpfLabel (toolBpfLabel b).2).1 (wordTests host none (some reject) 38
        (toolBpfPlace (toolBpfLabel b).1 (wordTests host
          (some (toolBpfLabel (toolBpfLabel b).2).1) (some (toolBpfLabel b).1) 22
          (toolBpfLabel (toolBpfLabel b).2).2))) := rfl

/-- The label of the destination tests waits while the source is tested. -/
theorem fresh_dst (host : Vector UByte 16) (t f : Target) (b : ToolBpfBuild) :
    Fresh (toolBpfLabel b).1 (wordTests host t f 22 (toolBpfLabel (toolBpfLabel b).2).2) :=
  (gate_wordTests host t f 22).fresh (Fresh.new b).label

/-- The label behind the gate waits until its end. -/
theorem fresh_ok (host : Vector UByte 16) (t f t' f' : Target) (b : ToolBpfBuild) :
    Fresh (toolBpfLabel (toolBpfLabel b).2).1 (wordTests host t' f' 38
      (toolBpfPlace (toolBpfLabel b).1
        (wordTests host t f 22 (toolBpfLabel (toolBpfLabel b).2).2))) := by
  have hnew := (gate_wordTests host t f 22).fresh (Fresh.new (toolBpfLabel b).2)
  refine (gate_wordTests host t' f' 38).fresh (hnew.place fun ho ↦ ?_)
  exact ((Fresh.new b).ne_new ((gate_wordTests host t f 22).overflow_eq_false ho)).symm

theorem gate_toolBpfGateHost6 (reject : Nat) (host : Vector UByte 16) :
    Gate (toolBpfGateHost6 reject host) where
  grows {F b} h := by
    rw [toolBpfGateHost6_eq] at h
    have hg₂ := Grows.place _ (fresh_ok host _ _ _ _ b) h
    have hg₁ := (gate_wordTests _ _ _ _).grows hg₂
    have hg₀ := Grows.place _ (fresh_dst host _ _ b) hg₁
    exact .label (.label ((gate_wordTests _ _ _ _).grows hg₀))
  fresh {l b} h := by
    rw [toolBpfGateHost6_eq]
    have hsrc := (gate_wordTests host (some (toolBpfLabel (toolBpfLabel b).2).1)
      (some (toolBpfLabel b).1) 22).fresh h.label.label
    have hdst := hsrc.place (k := (toolBpfLabel b).1) fun ho ↦
      h.ne_new (Grows.overflow_eq_false (.label .refl)
        ((gate_wordTests _ _ _ _).overflow_eq_false ho))
    have hall := (gate_wordTests host none (some reject) 38).fresh hdst
    refine hall.place fun ho ↦ h.label.ne_new ?_
    have ho' := (gate_wordTests host none (some reject) 38).overflow_eq_false ho
    rw [toolBpfPlace_overflow] at ho'
    exact (gate_wordTests _ _ _ _).overflow_eq_false ho'

theorem Linked.tests_gateHost6 (hlink : Linked F ops) {host : Vector UByte 16} :
    Tests F ops ⟨wirelen, frame⟩ reject (toolBpfGateHost6 reject host)
      ((wordsAre frame 22 host).or (wordsAre frame 38 host)) := by
  intro b w u hg hnext hrej
  rw [toolBpfGateHost6_eq] at hg hnext
  rw [toolBpfPlace_n] at hnext
  have hok {i : Nat} := hlink.yieldsAt_placed (i := i) hg (fresh_ok host _ _ _ _ b) hnext
  have hg₂ := Grows.place _ (fresh_ok host _ _ _ _ b) hg
  have hg₁ := (gate_wordTests _ _ _ _).grows hg₂
  have hg₀ := Grows.place _ (fresh_dst host _ _ b) hg₁
  obtain ⟨hn, hwords⟩ := hlink.yields_wordTests (by decide) hg₂ (hrej _)
  rw [hn] at hnext
  have hdst := hwords (yieldsAt_next hnext)
  rw [toolBpfPlace_n] at hdst
  have hsrc := (hlink.yields_wordTests (by decide) hg₀
    fun i ↦ hlink.yieldsAt_placed (i := i) hg₁ (fresh_dst host _ _ b) hdst).2 hok
  rw [toolBpfLabel_n, toolBpfLabel_n] at hsrc
  rw [Answer.keeps_or]
  exact hsrc

/-- The IPv4 port gate between its label and the place of it. -/
def portBody (reject : Nat) (port : ULong) (ok : Nat) (b : ToolBpfBuild) : ToolBpfBuild :=
  jeq port none (some reject) (ldhInd 16 (jeq port (some ok) none (ldhInd 14 (ldxMsh 14
    (jset 0x1fff (some reject) none (ldAbs 0x28 20 b))))))

theorem toolBpfGatePort4_eq (reject : Nat) (port : ULong) (b : ToolBpfBuild) :
    toolBpfGatePort4 reject port b =
      toolBpfPlace (toolBpfLabel b).1
        (portBody reject port (toolBpfLabel b).1 (toolBpfLabel b).2) := rfl

theorem gate_portBody (reject : Nat) (port : ULong) (ok : Nat) :
    Gate (portBody reject port ok) where
  grows h := (gate_ldhAbs 20).grows ((gate_jset _ _ _).grows ((gate_ldxMsh _).grows
    ((gate_ldhInd _).grows ((gate_jeq _ _ _).grows ((gate_ldhInd _).grows
      ((gate_jeq _ _ _).grows h))))))
  fresh h := (gate_jeq _ _ _).fresh ((gate_ldhInd _).fresh ((gate_jeq _ _ _).fresh
    ((gate_ldhInd _).fresh ((gate_ldxMsh _).fresh ((gate_jset _ _ _).fresh
      ((gate_ldhAbs 20).fresh h))))))

theorem gate_toolBpfGatePort4 (reject : Nat) (port : ULong) :
    Gate (toolBpfGatePort4 reject port) :=
  .labelled (c := portBody reject port) (gate_portBody reject port)

theorem Yields.mono {packet : Packet} {Q : ULong → Prop} {i : Nat}
    (h : Yields ops packet P i w) (hQ : ∀ x, Q x → P x) : Yields ops packet Q i w :=
  fun r hr ↦ h r (hQ r.x hr)

theorem Linked.n_indTest (hlink : Linked F ops) {k : ULong} {off : Nat} {t f : Target}
    (h : Grows F (jeq k t f (ldhInd off b))) : (jeq k t f (ldhInd off b)).n = b.n + 1 + 1 := by
  rw [jeq, h.n_toolBpfEmit hlink.overflow, ldhInd,
    ((gate_jeq k t f).grows h).n_toolBpfEmit hlink.overflow]

/-- The header length in bytes that the first byte of an IPv4 header gives. -/
theorem toNat_headerLength (v : ULong) : ((v &&& 0x0f) <<< 2).toNat = v.toNat % 16 * 4 := by
  have hand : (v &&& 0x0f).toNat = v.toNat % 16 := Nat.and_two_pow_sub_one_eq_mod v.toNat 4
  rw [BitVec.toNat_shiftLeft, hand, Nat.shiftLeft_eq]
  omega

/-- The two port tests behind the header. -/
theorem Linked.yields_ports (hlink : Linked F ops) {port x : ULong} {ok : Nat}
    (hx : x.toNat < 64) (hfresh : Fresh ok b)
    (hg : Grows F (toolBpfPlace ok (jeq port none (some reject) (ldhInd 16
      (jeq port (some ok) none (ldhInd 14 b))))))
    (hnext : Yields ops ⟨wirelen, frame⟩ (· = x) (toolBpfPlace ok (jeq port none (some reject)
      (ldhInd 16 (jeq port (some ok) none (ldhInd 14 b))))).n w)
    (hrej : Rejects F ops ⟨wirelen, frame⟩ reject u) :
    Yields ops ⟨wirelen, frame⟩ (· = x) b.n
      ((eitherIs frame (14 + x.toNat) (14 + x.toNat + 2) 2 port).keeps w u) := by
  have hgate (off : Nat) (t f : Target) : Gate fun b ↦ jeq port t f (ldhInd off b) :=
    (gate_ldhInd off).comp (gate_jeq port t f)
  have hfresh₂ := (hgate 16 none (some reject)).fresh ((hgate 14 (some ok) none).fresh hfresh)
  have hg₂ := Grows.place ok hfresh₂ hg
  have hg₁ := (hgate 16 none (some reject)).grows hg₂
  rw [toolBpfPlace_n] at hnext
  have hok := hlink.yieldsAt_placed (i := b.n + 1) hg hfresh₂ hnext
  rw [hlink.n_indTest hg₂] at hnext
  have hsecond := hlink.yields_portTest (by omega) hg₂ (yieldsAt_next hnext) (hrej _ _)
  rw [hlink.n_indTest hg₁] at hsecond
  have hfirst := hlink.yields_portTest (by omega) hg₁ hok (yieldsAt_next hsecond)
  rwa [testKeeps_eq, testKeeps_eq, ← Answer.keeps_or, Nat.add_comm x.toNat 14,
    show x.toNat + 16 = 14 + x.toNat + 2 by omega] at hfirst

theorem Linked.tests_gatePort4 (hlink : Linked F ops) {port : ULong} :
    Tests F ops ⟨wirelen, frame⟩ reject (toolBpfGatePort4 reject port) (portBehind frame port) := by
  intro b w u hg hnext hrej
  rw [toolBpfGatePort4_eq] at hg hnext
  have hok := Fresh.new b
  generalize (toolBpfLabel b).1 = ok at hg hnext hok
  rw [← toolBpfLabel_n b]
  generalize (toolBpfLabel b).2 = b₀ at hg hnext hok
  have hports : Grows F (jeq port none (some reject) (ldhInd 16 (jeq port (some ok) none
      (ldhInd 14 (ldxMsh 14 (jset 0x1fff (some reject) none (ldAbs 0x28 20 b₀))))))) :=
    .place ok ((gate_portBody reject port ok).fresh hok) hg
  have hg₂ := (gate_ldhInd 14).grows ((gate_jeq port (some ok) none).grows
    ((gate_ldhInd 16).grows ((gate_jeq port none (some reject)).grows hports)))
  have hg₁ := (gate_ldxMsh 14).grows hg₂
  have hn₁ : (jset 0x1fff (some reject) none (ldAbs 0x28 20 b₀)).n = b₀.n + 1 + 1 := by
    rw [jset, hg₁.n_toolBpfEmit hlink.overflow, ldAbs,
      ((gate_jset _ _ _).grows hg₁).n_toolBpfEmit hlink.overflow]
  have hn₂ : (ldxMsh 14 (jset 0x1fff (some reject) none (ldAbs 0x28 20 b₀))).n = _ :=
    hg₂.n_toolBpfEmit hlink.overflow
  have hfresh := (gate_ldxMsh 14).fresh ((gate_jset 0x1fff (some reject) none).fresh
    ((gate_ldhAbs 20).fresh hok))
  have hmsh : Yields ops ⟨wirelen, frame⟩ (fun _ ↦ True) _ _ :=
    hlink.yields_ldxMsh (hg₂.emitted hlink.overflow) (by decide) rfl fun v _ ↦ by
      rw [← hn₂]
      exact hlink.yields_ports (by rw [toNat_headerLength]; omega) hfresh hg
        (hnext.mono fun _ _ ↦ trivial) hrej
  rw [hn₁] at hmsh
  have hall := hlink.yields_test isLoad_ldh isBranch_jset (by decide) hg₁
    (hrej _ _) (yieldsAt_next hmsh)
  have hload (off n : Nat) : Packet.load ⟨wirelen, frame⟩ off n = fieldAt frame off n := rfl
  simp only [hload, toNat_headerLength] at hall
  rw [portBehind, Answer.keeps_and]
  convert hall using 1
  change _ = testKeeps (fieldAt frame 20 2) _ _ _ _
  cases fieldAt frame 20 2 with
  | none => rfl
  | some flags =>
      by_cases hfirst : flags &&& 0x1fff = 0
      · simp only [Option.map_some, Answer.keeps, testKeeps, Cond.holds, hfirst]
        cases fieldAt frame 14 1 <;> rfl
      · rw [Option.map_some, decide_eq_false hfirst]
        exact (if_pos (decide_eq_true hfirst)).symm

end Gates

end AmiNetXDuo.Bpf
