import AmiNetXDuo.Bpf.Semantics

/-!
# Validated programs are safe and total

A program that `ami_bpf_validate` accepts runs in `ami_bpf_filter_view` without a fault, one
instruction after the other with the program counter always ahead of itself, to a `BPF_RET` or to
one of the three early rejections of classic BPF, and its value is the value of the reference
semantics.

## Main definitions

* `Accepted` : the instructions of a program, with everything the validator has checked.
* `Steps` : a run of the interpreter, counted in instructions.

## Main results

* `exists_accepted_of_amiBpfValidate` : what the validator checks is `Accepted`.
* `amiBpfStep_of_accepted` : one step of the interpreter on a validated program.
* `amiBpfFilterView_of_accepted` : the result of a whole run.
* `amiBpfFilterView_safe_of_amiBpfValidate` : safety, termination and meaning of a validated
  program.
-/

namespace AmiNetXDuo.Bpf

/-- The instructions `ops` of the program `insns`, each with its jumps inside the program, the last
one a return. -/
structure Accepted (insns : List Insn) (ops : List Op) : Prop where
  decoded : insns.map decode = ops.map some
  fits : ∀ i (hi : i < ops.length), ops[i].fits (ops.length - (i + 1))
  ends : ∃ op, ops.getLast? = some op ∧ op.isRet = true

namespace Accepted

variable {insns : List Insn} {ops : List Op}

theorem length_eq (h : Accepted insns ops) : insns.length = ops.length := by
  simpa using congrArg List.length h.decoded

theorem length_pos (h : Accepted insns ops) : 0 < ops.length := by
  obtain ⟨op, hop, -⟩ := h.ends
  exact List.length_pos_of_mem (List.mem_of_getLast? hop)

theorem decode_getElem (h : Accepted insns ops) {i : Nat} (hi : i < ops.length) :
    ∃ p, insns[i]? = some p ∧ decode p = some ops[i] := by
  have hin : i < insns.length := by rw [h.length_eq]; exact hi
  refine ⟨insns[i], List.getElem?_eq_getElem hin, ?_⟩
  have hget := congrArg (fun l ↦ l[i]?) h.decoded
  simpa [hin, hi] using hget

/-- The last instruction returns, so an instruction that goes on is not the last one. -/
theorem isRet_of_last (h : Accepted insns ops) {i : Nat} (hi : i < ops.length)
    (hlast : ops.length = i + 1) : ops[i].isRet = true := by
  obtain ⟨op, hop, hret⟩ := h.ends
  rw [List.getLast?_eq_getElem?, hlast, Nat.add_sub_cancel, List.getElem?_eq_getElem hi] at hop
  cases hop
  exact hret

end Accepted

/-- **What the validator checks.** -/
theorem exists_accepted_of_amiBpfValidate {insns : List Insn}
    (h : amiBpfValidate (some insns) = 0) : ∃ ops, Accepted insns ops := by
  obtain ⟨-, hall, last, hlast, hret⟩ := amiBpfValidate_eq_zero_iff.mp h
  have hdec (i : Nat) (hi : i < insns.length) :=
    exists_decode_of_insnAccepted (insnAccepted_of_allAccepted hall hi)
  let ops : List Op := insns.pmap (fun p hp ↦ (decode p).get hp) fun p hp ↦ by
    obtain ⟨i, hi, rfl⟩ := List.getElem_of_mem hp
    obtain ⟨op, hop, -⟩ := hdec i hi
    simp [hop]
  have hops (i : Nat) (hi : i < insns.length) (hi' : i < ops.length) :
      decode insns[i] = some ops[i] := by
    simp [ops]
  have hlen : ops.length = insns.length := by simp [ops]
  refine ⟨ops, ?_, fun i hi ↦ ?_, ?_⟩
  · refine List.ext_getElem (by simp [hlen]) fun i h₁ h₂ ↦ ?_
    simp only [List.getElem_map]
    exact hops i (by simpa using h₁) (by simpa using h₂)
  · obtain ⟨op, hop, hfit, -⟩ := hdec i (hlen ▸ hi)
    rw [hops i (hlen ▸ hi) hi] at hop
    cases hop
    rwa [hlen]
  · rw [List.getLast?_eq_getElem?] at hlast
    obtain ⟨hi, rfl⟩ := List.getElem?_eq_some_iff.mp hlast
    obtain ⟨op, hop, -, hisRet⟩ := hdec _ hi
    have hi' : insns.length - 1 < ops.length := by omega
    rw [hops _ hi hi'] at hop
    cases hop
    refine ⟨_, ?_, hisRet hret⟩
    rw [List.getLast?_eq_getElem?, hlen, List.getElem?_eq_getElem hi']

/-! ### One step -/

theorem skip_eq_zero_of_loadOr {packet : Packet} {off : Nat} {w : Width} {f : ULong → Regs}
    {r : Regs} {skip : Nat} (h : loadOr packet off w f = .next r skip) : skip = 0 := by
  unfold loadOr at h
  split at h <;> simp only [Effect.next.injEq, reduceCtorEq] at h
  exact h.2.symm

/-- A step that goes on lands on one of the instructions behind it. -/
theorem Op.skip_lt {op : Op} {packet : Packet} {r r' : Regs} {room skip : Nat}
    (hfit : op.fits room) (hroom : op.isRet = false → 0 < room)
    (h : op.step packet r = .next r' skip) : skip < room := by
  have hzero (hret : op.isRet = false) (hskip : skip = 0) : skip < room := by
    have := hroom hret
    omega
  cases op with
  | ja n =>
      simp only [Op.step, Effect.next.injEq] at h
      obtain ⟨-, rfl⟩ := h
      exact hfit
  | jmp c v jt jf =>
      simp only [Op.step, Effect.next.injEq] at h
      obtain ⟨-, rfl⟩ := h
      split_ifs
      exacts [hfit.1, hfit.2]
  | retK k => simp [Op.step] at h
  | retA => simp [Op.step] at h
  | ldAbs w k => exact hzero rfl (skip_eq_zero_of_loadOr h)
  | ldxMsh k => exact hzero rfl (skip_eq_zero_of_loadOr h)
  | ldInd w k =>
      simp only [Op.step] at h
      split_ifs at h
      exact hzero rfl (skip_eq_zero_of_loadOr h)
  | divX =>
      simp only [Op.step] at h
      split_ifs at h
      simp only [Effect.next.injEq] at h
      exact hzero rfl h.2.symm
  | _ =>
      simp only [Op.step, Effect.next.injEq] at h
      exact hzero rfl h.2.symm

variable {insns : List Insn} {ops : List Op}

/-- **One step on a validated program** is the reference step of the instruction it fetches. -/
theorem amiBpfStep_of_accepted (h : Accepted insns ops) (view : View) {m : Machine}
    (hpc : m.pc < ops.length) :
    amiBpfStep insns view m =
      .ok ((ops[m.pc].step view.packet m.toRegs).toStep (m.pc + 1)) := by
  obtain ⟨p, hp, hdec⟩ := h.decode_getElem hpc
  rw [amiBpfStep, hp]
  refine execInsn_of_decode hdec view ?_
  rw [h.length_eq]
  exact h.fits m.pc hpc

/-- The program counter moves forward and stays inside the program. -/
theorem pc_of_amiBpfStep (h : Accepted insns ops) {view : View} {m m' : Machine}
    (hpc : m.pc < ops.length) (hstep : amiBpfStep insns view m = .ok (.next m')) :
    m.pc < m'.pc ∧ m'.pc < ops.length := by
  rw [amiBpfStep_of_accepted h view hpc] at hstep
  cases heff : ops[m.pc].step view.packet m.toRegs with
  | halt v => simp [heff, Effect.toStep] at hstep
  | next r skip =>
      simp only [heff, Effect.toStep, Except.ok.injEq, Step.next.injEq] at hstep
      subst hstep
      have hskip : skip < ops.length - (m.pc + 1) := by
        refine Op.skip_lt (h.fits m.pc hpc) (fun hret ↦ ?_) heff
        by_contra hzero
        rw [h.isRet_of_last hpc (by omega)] at hret
        cases hret
      simp only
      omega

/-! ### Runs -/

/-- A run of `n` instructions from one state to another. -/
inductive Steps (insns : List Insn) (view : View) : Nat → Machine → Machine → Prop
  | refl (m : Machine) : Steps insns view 0 m m
  | head {n : Nat} {m m₁ m' : Machine} (h : amiBpfStep insns view m = .ok (.next m₁))
      (rest : Steps insns view n m₁ m') : Steps insns view (n + 1) m m'

/-- A run advances the program counter by at least one for each instruction, and never leaves the
program. -/
theorem pc_of_steps (h : Accepted insns ops) {view : View} {n : Nat} {m m' : Machine}
    (hrun : Steps insns view n m m') (hpc : m.pc < ops.length) :
    m.pc + n ≤ m'.pc ∧ m'.pc < ops.length := by
  induction hrun with
  | refl m => exact ⟨Nat.le_refl _, hpc⟩
  | head hstep _ ih =>
      obtain ⟨hlt, hin⟩ := pc_of_amiBpfStep h hpc hstep
      obtain ⟨hle, hin'⟩ := ih hin
      exact ⟨by omega, hin'⟩

/-- The reference run from instruction `pc` on. -/
theorem exec_eq_step (packet : Packet) (ops : List Op) (pc : Nat) (hpc : pc < ops.length)
    (r : Regs) :
    exec packet pc ops r =
      match ops[pc].step packet r with
      | .next r' skip => exec packet (pc + 1 + skip) ops r'
      | .halt v => some v := by
  induction ops generalizing pc with
  | nil => simp at hpc
  | cons op rest ih =>
      cases pc with
      | zero =>
          simp only [exec, List.getElem_cons_zero]
          cases op.step packet r with
          | halt v => rfl
          | next r' skip =>
              simp only [Nat.zero_add, Nat.add_comm 1 skip]
              rfl
      | succ pc =>
          have hpc' : pc < rest.length := by simpa using hpc
          simp only [exec, List.getElem_cons_succ]
          rw [ih pc hpc']
          cases rest[pc].step packet r with
          | halt v => rfl
          | next r' skip =>
              simp only [Nat.add_right_comm (pc + 1) 1 skip]
              rfl

/-- **The loop computes the reference verdict**, within as many passes as there are instructions
left. -/
theorem filterLoop_of_accepted (h : Accepted insns ops) (view : View) (fuel : Nat) (m : Machine)
    (hpc : m.pc < ops.length) (hfuel : ops.length ≤ m.pc + fuel) :
    ∃ v, exec view.packet m.pc ops m.toRegs = some v ∧
      filterLoop insns view fuel m = .ok (some v.toHalt) := by
  induction fuel generalizing m with
  | zero => omega
  | succ fuel ih =>
      have hstep := amiBpfStep_of_accepted h view hpc
      have hin : m.pc < insns.length := by rw [h.length_eq]; exact hpc
      rw [exec_eq_step view.packet ops m.pc hpc, filterLoop, if_pos hin, hstep]
      cases heff : ops[m.pc].step view.packet m.toRegs with
      | halt v => exact ⟨v, rfl, rfl⟩
      | next r skip =>
          rw [heff] at hstep
          obtain ⟨hlt, hin'⟩ := pc_of_amiBpfStep h hpc hstep
          exact ih _ hin' (by omega)

/-- A loop that ends does so at the last state of a run. -/
theorem exists_steps_of_filterLoop {view : View} {fuel : Nat} {m : Machine} {v : Verdict}
    (h : filterLoop insns view fuel m = .ok (some v.toHalt)) :
    ∃ n m', Steps insns view n m m' ∧ amiBpfStep insns view m' = .ok (.halt v.toHalt) := by
  have hfell : Halt.reject .fellOff ≠ v.toHalt := by
    rcases v with _ | why
    · exact fun heq ↦ by cases heq
    · cases why <;> exact fun heq ↦ by cases heq
  induction fuel generalizing m with
  | zero =>
      simp only [filterLoop] at h
      split_ifs at h
      · cases h
      · simp only [Except.ok.injEq, Option.some.injEq] at h
        exact absurd h hfell
  | succ fuel ih =>
      simp only [filterLoop] at h
      split_ifs at h
      · cases hstep : amiBpfStep insns view m with
        | error f =>
            rw [hstep] at h
            cases h
        | ok s =>
            rw [hstep] at h
            cases s with
            | halt halt =>
                have hhalt : halt = v.toHalt := by
                  injection h with h
                  exact Option.some.inj h
                exact ⟨0, m, .refl m, hhalt ▸ hstep⟩
            | next m₁ =>
                obtain ⟨n, m', hrun, hend⟩ := ih h
                exact ⟨n + 1, m', .head hstep hrun, hend⟩
      · simp only [Except.ok.injEq, Option.some.injEq] at h
        exact absurd h hfell

/-- The result of the interpreter on a validated program. -/
theorem amiBpfFilterView_of_accepted (h : Accepted insns ops) (view : View) :
    ∃ v, exec view.packet 0 ops Machine.init.toRegs = some v ∧
      filterLoop insns view insns.length .init = .ok (some v.toHalt) ∧
      amiBpfFilterView (some insns) (some view) = .ok (some v.value) := by
  obtain ⟨v, hexec, hloop⟩ := filterLoop_of_accepted h view insns.length .init h.length_pos
    (by rw [h.length_eq]; exact Nat.le_add_left _ _)
  refine ⟨v, hexec, hloop, ?_⟩
  have hne : insns ≠ [] := by
    rintro rfl
    have := h.length_pos
    rw [← h.length_eq] at this
    cases this
  unfold amiBpfFilterView
  split
  · rename_i heq
    cases heq
  · rename_i heq
    exact absurd (Option.some.inj heq) hne
  · rename_i heq
    cases heq
    simp only [hloop, ← Verdict.value_toHalt]
    rfl

/-! ### Safety and totality -/

/-- The instruction reads or writes the scratch word `k`. -/
def Insn.usesScratch (p : Insn) : Bool :=
  match bpfClass p.code with
  | .st | .stx => true
  | .ld | .ldx => bpfMode p.code = .mem
  | _ => false

theorem lt_memWords_of_decode {p : Insn} {op : Op} (hd : decode p = some op)
    (h : p.usesScratch = true) : p.k.toNat < bpfMemWords := by
  have hindex {f : Fin bpfMemWords → Op} (hd : (decodeIndex p.k).map f = some op) :
      p.k.toNat < bpfMemWords := by
    obtain ⟨i, hi, -⟩ := Option.map_eq_some_iff.mp hd
    exact (decodeIndex_eq_some hi).1
  unfold Insn.usesScratch at h
  unfold decode at hd
  cases hclass : bpfClass p.code <;> simp only [hclass, reduceCtorEq, decide_eq_true_eq] at h hd
  case st => exact hindex hd
  case stx => exact hindex hd
  all_goals
    simp only [h] at hd
    exact hindex hd

theorem halt_of_toStep {e : Effect} {pc : Nat} {value : ULong}
    (h : e.toStep pc = .halt (Verdict.toHalt (.ret value))) : e = .halt (.ret value) := by
  rcases e with _ | (_ | _) <;> simp_all [Effect.toStep, Verdict.toHalt]

theorem isRet_of_step_ret {op : Op} {packet : Packet} {r : Regs} {value : ULong}
    (h : op.step packet r = .halt (.ret value)) : op.isRet = true := by
  have hload {off : Nat} {w : Width} {f : ULong → Regs} :
      loadOr packet off w f ≠ .halt (.ret value) := by
    unfold loadOr
    split <;> simp
  cases op with
  | retK k => rfl
  | retA => rfl
  | ldAbs w k => exact absurd h hload
  | ldxMsh k => exact absurd h hload
  | ldInd w k =>
      simp only [Op.step] at h
      split_ifs at h
      · exact absurd h hload
      · simp at h
  | divX =>
      simp only [Op.step] at h
      split_ifs at h
      simp at h
  | _ => simp [Op.step] at h

theorem isRet_of_decodeAlu {p : Insn} {op : Op} (hd : decodeAlu p = some op) :
    op.isRet = false := by
  unfold decodeAlu at hd
  split at hd <;> (try split at hd) <;> (try split_ifs at hd) <;> cases hd <;> rfl

theorem isRet_of_decodeJmp {p : Insn} {op : Op} (hd : decodeJmp p = some op) :
    op.isRet = false := by
  unfold decodeJmp at hd
  split at hd <;> cases hd <;> rfl

/-- Only a `BPF_RET` stands for an instruction that returns. -/
theorem bpfClass_of_isRet {p : Insn} {op : Op} (hd : decode p = some op)
    (h : op.isRet = true) : bpfClass p.code = .ret := by
  have hmap {α : Type} {o : Option α} {f : α → Op} (hf : ∀ a, (f a).isRet = false)
      (hd : o.map f = some op) : op.isRet = false := by
    obtain ⟨a, -, rfl⟩ := Option.map_eq_some_iff.mp hd
    exact hf a
  have hnot : ¬op.isRet = false := by simp [h]
  cases hclass : bpfClass p.code <;> simp only [decode, hclass] at hd
  case ret => rfl
  case alu => exact absurd (isRet_of_decodeAlu hd) hnot
  case jmp => exact absurd (isRet_of_decodeJmp hd) hnot
  case st => exact absurd (hmap (fun _ ↦ rfl) hd) hnot
  case stx => exact absurd (hmap (fun _ ↦ rfl) hd) hnot
  case misc => split at hd <;> cases hd <;> exact absurd rfl hnot
  case ld =>
      split at hd
      case h_3 | h_4 | h_5 => exact absurd (hmap (fun _ ↦ rfl) hd) hnot
      all_goals cases hd
      all_goals exact absurd rfl hnot
  case ldx =>
      split at hd
      case h_3 => exact absurd (hmap (fun _ ↦ rfl) hd) hnot
      case h_4 =>
          split_ifs at hd
          cases hd
          exact absurd rfl hnot
      all_goals cases hd
      all_goals exact absurd rfl hnot

/-- **Validated programs are safe and total.**  On every view, the interpreter fetches every
instruction from inside the program, with a scratch index inside the memory, and executes it
without a fault; the program counter grows with every instruction.  The run ends within as many
instructions as the program has, at a `BPF_RET` or at one of the three early rejections of the
reference semantics, whose value is the result. -/
theorem amiBpfFilterView_safe_of_amiBpfValidate (insns : List Insn) (view : View)
    (h : amiBpfValidate (some insns) = 0) :
    (∀ n m, Steps insns view n .init m →
      n ≤ m.pc ∧ (∃ p, insns[m.pc]? = some p ∧
        (p.usesScratch = true → p.k.toNat < bpfMemWords)) ∧
      ∃ s, amiBpfStep insns view m = .ok s ∧
        ∀ m', s = .next m' → m.pc < m'.pc ∧ m'.pc < insns.length) ∧
    ∃ ops v, insns.map decode = ops.map some ∧
      exec view.packet 0 ops Machine.init.toRegs = some v ∧
      (∃ n m, n < insns.length ∧ Steps insns view n .init m ∧
        amiBpfStep insns view m = .ok (.halt v.toHalt) ∧
        ∀ value, v = .ret value → ∃ p, insns[m.pc]? = some p ∧ bpfClass p.code = .ret) ∧
      amiBpfFilterView (some insns) (some view) = .ok (some v.value) := by
  obtain ⟨ops, hacc⟩ := exists_accepted_of_amiBpfValidate h
  have hlen := hacc.length_eq
  have hreach {n : Nat} {m : Machine} (hrun : Steps insns view n .init m) :
      n ≤ m.pc ∧ m.pc < ops.length := by
    have := pc_of_steps hacc hrun hacc.length_pos
    exact ⟨by simpa [Machine.init] using this.1, this.2⟩
  refine ⟨fun n m hrun ↦ ?_, ?_⟩
  · obtain ⟨hle, hpc⟩ := hreach hrun
    obtain ⟨p, hp, hdec⟩ := hacc.decode_getElem hpc
    refine ⟨hle, ⟨p, hp, lt_memWords_of_decode hdec⟩, _, amiBpfStep_of_accepted hacc view hpc, ?_⟩
    intro m' hm'
    rw [hlen]
    exact pc_of_amiBpfStep hacc hpc ((amiBpfStep_of_accepted hacc view hpc).trans (by rw [hm']))
  · obtain ⟨v, hexec, hloop, hresult⟩ := amiBpfFilterView_of_accepted hacc view
    obtain ⟨n, m, hrun, hend⟩ := exists_steps_of_filterLoop hloop
    obtain ⟨hle, hpc⟩ := hreach hrun
    refine ⟨ops, v, hacc.decoded, hexec, ⟨n, m, by omega, hrun, hend, ?_⟩, hresult⟩
    rintro value rfl
    obtain ⟨p, hp, hdec⟩ := hacc.decode_getElem hpc
    refine ⟨p, hp, bpfClass_of_isRet hdec (isRet_of_step_ret
      (?_ : Op.step view.packet m.toRegs _ = .halt (.ret value)))⟩
    rw [amiBpfStep_of_accepted hacc view hpc] at hend
    exact halt_of_toStep (Except.ok.inj hend)

/-- Keep 96 bytes of every IPv4 frame. -/
def keepIpv4 : List Insn :=
  [bpfStmt 0x28 12, bpfJump 0x15 0x800 0 1, bpfStmt 0x06 96, bpfStmt 0x06 0]

/-- An IPv4 frame of fifteen bytes, split behind its first thirteen. -/
def splitFrame : View where
  wirelen := 15
  caplen := 15
  segs := [List.replicate 12 0 ++ [0x08], [0x00, 0x45]]
  nsegs_le := by decide
  bytes_lt := by decide

theorem amiBpfFilterView_safe_keepIpv4 :
    amiBpfValidate (some keepIpv4) = 0 ∧
      ∃ v : Verdict, amiBpfFilterView (some keepIpv4) (some splitFrame) = .ok (some v.value) := by
  have hvalid : amiBpfValidate (some keepIpv4) = 0 := by decide
  obtain ⟨-, ops, v, -, -, -, hresult⟩ :=
    amiBpfFilterView_safe_of_amiBpfValidate keepIpv4 splitFrame hvalid
  exact ⟨hvalid, v, hresult⟩

example : amiBpfFilterView (some keepIpv4) (some splitFrame) = .ok (some 96) := by decide

end AmiNetXDuo.Bpf
