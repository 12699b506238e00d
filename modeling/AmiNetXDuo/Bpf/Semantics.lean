import AmiNetXDuo.Bpf.Validate
import AmiNetXDuo.Bpf.Filter

/-!
# Classic BPF

A reference semantics of the BPF machine on a flat packet, over a syntax in which an ill-formed
instruction cannot be written: scratch indexes are below the memory size, a constant divisor is
not zero, loads have one of the three widths.  A program runs by walking down its list of
instructions, so a jump can only skip forward.

The interpreter simulates it: `execInsn_of_decode` for one instruction, and
`filterLoop_of_accepted` for a whole run of a validated program.

## Main definitions

* `Op` : the instructions.
* `Op.step`, `exec` : their meaning.
* `decode` : the instruction that an encoding stands for.

## Main results

* `exists_decode_of_insnAccepted` : the validator accepts only encodings of instructions, with
  jumps inside the program.
* `execInsn_of_decode` : the interpreter executes an encoding as the instruction it stands for.
* `filterLoop_of_accepted` : a run of the interpreter on a validated program.
-/

namespace AmiNetXDuo.Bpf

/-! ### Syntax and meaning -/

/-- The widths of a packet load. -/
inductive Width
  | byte | half | word
  deriving DecidableEq, Repr

/-- The bytes of a load. -/
def Width.bytes : Width → Nat
  | .byte => 1
  | .half => 2
  | .word => 4

/-- A second operand: a constant or the index register. -/
inductive Operand
  | k (value : ULong)
  | x
  deriving DecidableEq, Repr

/-- The arithmetic operations that never fail. -/
inductive BinOp
  | add | sub | mul | or | and | lsh | rsh
  deriving DecidableEq, Repr

/-- The jump conditions. -/
inductive Cond
  | eq | gt | ge | set
  deriving DecidableEq, Repr

/-- The instructions of classic BPF. -/
inductive Op
  | ldImm (k : ULong)
  | ldLen
  | ldMem (i : Fin bpfMemWords)
  | ldAbs (w : Width) (k : ULong)
  | ldInd (w : Width) (k : ULong)
  | ldxImm (k : ULong)
  | ldxLen
  | ldxMem (i : Fin bpfMemWords)
  | ldxMsh (k : ULong)
  | st (i : Fin bpfMemWords)
  | stx (i : Fin bpfMemWords)
  | alu (op : BinOp) (v : Operand)
  | divK (k : ULong) (hk : k ≠ 0)
  | divX
  | neg
  | ja (skip : Nat)
  | jmp (c : Cond) (v : Operand) (jt jf : Nat)
  | retK (k : ULong)
  | retA
  | tax
  | txa
  deriving DecidableEq, Repr

/-- The early rejections of classic BPF. -/
inductive EarlyReject
  | load
  | wrap
  | divByX
  deriving DecidableEq, Repr

/-- How a program ends. -/
inductive Verdict
  | ret (value : ULong)
  | reject (why : EarlyReject)
  deriving DecidableEq, Repr

/-- The number of bytes to keep; a rejection keeps none. -/
def Verdict.value : Verdict → ULong
  | .ret value => value
  | .reject _ => 0

/-- What one instruction does: go on, skipping `skip` instructions, or end. -/
inductive Effect
  | next (r : Regs) (skip : Nat)
  | halt (v : Verdict)
  deriving DecidableEq

def Operand.eval (r : Regs) : Operand → ULong
  | .k value => value
  | .x => r.x

/-- Arithmetic is modulo `2 ^ 32`; a shift by the width or more leaves nothing. -/
def BinOp.eval (a v : ULong) : BinOp → ULong
  | .add => a + v
  | .sub => a - v
  | .mul => a * v
  | .or => a ||| v
  | .and => a &&& v
  | .lsh => if v.toNat < 32 then a <<< v.toNat else 0
  | .rsh => if v.toNat < 32 then a >>> v.toNat else 0

def Cond.holds (a v : ULong) : Cond → Bool
  | .eq => a = v
  | .gt => a > v
  | .ge => a ≥ v
  | .set => a &&& v ≠ 0

/-- A packet load, or the rejection when the packet ends before it. -/
def loadOr (packet : Packet) (off : Nat) (w : Width) (r : ULong → Regs) : Effect :=
  match packet.load off w.bytes with
  | some v => .next (r v) 0
  | none => .halt (.reject .load)

/-- The meaning of one instruction. -/
def Op.step (packet : Packet) (r : Regs) : Op → Effect
  | .ldImm k => .next { r with a := k } 0
  | .ldLen => .next { r with a := packet.wirelen } 0
  | .ldMem i => .next { r with a := r.mem.get i } 0
  | .ldAbs w k => loadOr packet k.toNat w fun v ↦ { r with a := v }
  | .ldInd w k =>
      if r.x.toNat + k.toNat < 2 ^ 32 then
        loadOr packet (r.x.toNat + k.toNat) w fun v ↦ { r with a := v }
      else .halt (.reject .wrap)
  | .ldxImm k => .next { r with x := k } 0
  | .ldxLen => .next { r with x := packet.wirelen } 0
  | .ldxMem i => .next { r with x := r.mem.get i } 0
  | .ldxMsh k => loadOr packet k.toNat .byte fun v ↦ { r with x := (v &&& 0x0f) <<< 2 }
  | .st i => .next { r with mem := r.mem.set i r.a } 0
  | .stx i => .next { r with mem := r.mem.set i r.x } 0
  | .alu op v => .next { r with a := op.eval r.a (v.eval r) } 0
  | .divK k _ => .next { r with a := r.a / k } 0
  | .divX =>
      if r.x = 0 then .halt (.reject .divByX) else .next { r with a := r.a / r.x } 0
  | .neg => .next { r with a := -r.a } 0
  | .ja skip => .next r skip
  | .jmp c v jt jf => .next r (if c.holds r.a (v.eval r) then jt else jf)
  | .retK k => .halt (.ret k)
  | .retA => .halt (.ret r.a)
  | .tax => .next { r with x := r.a } 0
  | .txa => .next { r with a := r.x } 0

/-- Run a program after skipping `skip` of its instructions; `none` when it ends without a
return. -/
def exec (packet : Packet) : Nat → List Op → Regs → Option Verdict
  | _, [], _ => none
  | skip + 1, _ :: rest, r => exec packet skip rest r
  | 0, op :: rest, r =>
      match op.step packet r with
      | .next r skip => exec packet skip rest r
      | .halt v => some v

/-! ### Decoding -/

/-- The width of a size field. -/
def decodeWidth (code : UWord) : Option Width :=
  match bpfSize code with
  | .w => some .word
  | .h => some .half
  | .b => some .byte
  | .unknown => none

/-- A scratch index. -/
def decodeIndex (k : ULong) : Option (Fin bpfMemWords) :=
  if h : k.toNat < bpfMemWords then some ⟨k.toNat, h⟩ else none

/-- The second operand of an instruction. -/
def decodeOperand (p : Insn) : Operand :=
  match bpfSrc p.code with
  | .k => .k p.k
  | .x => .x

/-- The arithmetic instruction of an encoding. -/
def decodeAlu (p : Insn) : Option Op :=
  match bpfAluOp p.code with
  | .add => some (.alu .add (decodeOperand p))
  | .sub => some (.alu .sub (decodeOperand p))
  | .mul => some (.alu .mul (decodeOperand p))
  | .or => some (.alu .or (decodeOperand p))
  | .and => some (.alu .and (decodeOperand p))
  | .lsh => some (.alu .lsh (decodeOperand p))
  | .rsh => some (.alu .rsh (decodeOperand p))
  | .div =>
      match bpfSrc p.code with
      | .k => if h : p.k = 0 then none else some (.divK p.k h)
      | .x => some .divX
  | .neg => some .neg
  | .unknown => none

/-- The jump of an encoding. -/
def decodeJmp (p : Insn) : Option Op :=
  match bpfJmpOp p.code with
  | .ja => some (.ja p.k.toNat)
  | .jeq => some (.jmp .eq (decodeOperand p) p.jt.toNat p.jf.toNat)
  | .jgt => some (.jmp .gt (decodeOperand p) p.jt.toNat p.jf.toNat)
  | .jge => some (.jmp .ge (decodeOperand p) p.jt.toNat p.jf.toNat)
  | .jset => some (.jmp .set (decodeOperand p) p.jt.toNat p.jf.toNat)
  | .unknown => none

/-- The instruction that an encoding stands for. -/
def decode (p : Insn) : Option Op :=
  match bpfClass p.code with
  | .ld =>
      match bpfMode p.code with
      | .imm => some (.ldImm p.k)
      | .len => some .ldLen
      | .mem => (decodeIndex p.k).map .ldMem
      | .abs => (decodeWidth p.code).map (.ldAbs · p.k)
      | .ind => (decodeWidth p.code).map (.ldInd · p.k)
      | .msh | .unknown => none
  | .ldx =>
      match bpfMode p.code with
      | .imm => some (.ldxImm p.k)
      | .len => some .ldxLen
      | .mem => (decodeIndex p.k).map .ldxMem
      | .msh => if bpfSize p.code = .b then some (.ldxMsh p.k) else none
      | .abs | .ind | .unknown => none
  | .st => (decodeIndex p.k).map .st
  | .stx => (decodeIndex p.k).map .stx
  | .alu => decodeAlu p
  | .jmp => decodeJmp p
  | .ret =>
      match bpfRval p.code with
      | .k => some (.retK p.k)
      | .a => some .retA
      | .unknown => none
  | .misc =>
      match bpfMiscOp p.code with
      | .tax => some .tax
      | .txa => some .txa
      | .unknown => none

/-- The instruction jumps to one of the `room` instructions behind it, if it jumps. -/
def Op.fits (room : Nat) : Op → Prop
  | .ja skip => skip < room
  | .jmp _ _ jt jf => jt < room ∧ jf < room
  | _ => True

/-- The instruction ends the program. -/
def Op.isRet : Op → Bool
  | .retK _ | .retA => true
  | _ => false

theorem decodeWidth_of_ne_zero {code : UWord} (h : amiBpfSizeBytes code ≠ 0) :
    ∃ w, decodeWidth code = some w := by
  unfold amiBpfSizeBytes at h
  unfold decodeWidth
  cases hs : bpfSize code <;> simp_all

theorem amiBpfSizeBytes_of_decodeWidth {code : UWord} {w : Width}
    (h : decodeWidth code = some w) : amiBpfSizeBytes code = w.bytes := by
  unfold decodeWidth at h
  unfold amiBpfSizeBytes
  cases hs : bpfSize code <;> simp only [hs, Option.some.injEq, reduceCtorEq] at h <;> subst h <;>
    rfl

/-- **The validator accepts only instructions.**  An accepted encoding stands for an instruction
whose jumps stay inside the program. -/
theorem exists_decode_of_insnAccepted {p : Insn} {room : Nat} (h : insnAccepted p room = true) :
    ∃ op, decode p = some op ∧ op.fits room ∧ (bpfClass p.code = .ret → op.isRet = true) := by
  unfold insnAccepted at h
  unfold decode
  cases hclass : bpfClass p.code with
  | ld =>
      cases hmode : bpfMode p.code <;> simp only [hclass, hmode] at h <;> simp at h
      case imm => exact ⟨_, rfl, trivial, by simp⟩
      case len => exact ⟨_, rfl, trivial, by simp⟩
      case mem => exact ⟨.ldMem ⟨_, h.2⟩, by simp [decodeIndex, h.2], trivial, by simp⟩
      case abs =>
          obtain ⟨w, hw⟩ := decodeWidth_of_ne_zero h
          exact ⟨.ldAbs w p.k, by simp [hw], trivial, by simp⟩
      case ind =>
          obtain ⟨w, hw⟩ := decodeWidth_of_ne_zero h
          exact ⟨.ldInd w p.k, by simp [hw], trivial, by simp⟩
  | ldx =>
      cases hmode : bpfMode p.code <;> simp only [hclass, hmode] at h <;> simp at h
      case imm => exact ⟨_, rfl, trivial, by simp⟩
      case len => exact ⟨_, rfl, trivial, by simp⟩
      case mem => exact ⟨.ldxMem ⟨_, h.2⟩, by simp [decodeIndex, h.2], trivial, by simp⟩
      case msh => exact ⟨.ldxMsh p.k, by simp [h], trivial, by simp⟩
  | st =>
      simp only [hclass] at h
      simp at h
      exact ⟨.st ⟨_, h.2⟩, by simp [decodeIndex, h.2], trivial, by simp⟩
  | stx =>
      simp only [hclass] at h
      simp at h
      exact ⟨.stx ⟨_, h.2⟩, by simp [decodeIndex, h.2], trivial, by simp⟩
  | alu =>
      simp only [hclass] at h
      simp only [decodeAlu]
      cases hop : bpfAluOp p.code
      case unknown => simp [hop] at h
      case div =>
          simp [hop] at h
          cases hsrc : bpfSrc p.code with
          | k =>
              have hk : p.k ≠ 0 := by simpa [hsrc] using h
              exact ⟨.divK p.k hk, by simpa using hk, trivial, by simp⟩
          | x => exact ⟨_, rfl, trivial, by simp⟩
      all_goals exact ⟨_, rfl, trivial, by simp⟩
  | jmp =>
      simp only [hclass] at h
      simp only [decodeJmp]
      cases hop : bpfJmpOp p.code <;> simp only [hop] at h <;> simp at h
      all_goals exact ⟨_, rfl, h, by simp⟩
  | ret =>
      simp only [hclass] at h
      cases hval : bpfRval p.code
      case unknown => simp [hval] at h
      all_goals exact ⟨_, rfl, trivial, fun _ ↦ rfl⟩
  | misc =>
      simp only [hclass] at h
      cases hop : bpfMiscOp p.code
      case unknown => simp [hop] at h
      all_goals exact ⟨_, rfl, trivial, by simp⟩

/-! ### Simulation -/

/-- The interpreter's name for an early rejection. -/
def EarlyReject.toReject : EarlyReject → Reject
  | .load => .load
  | .wrap => .wrap
  | .divByX => .div

/-- The interpreter's end of a run with this verdict. -/
def Verdict.toHalt : Verdict → Halt
  | .ret value => .ret value
  | .reject why => .reject why.toReject

@[simp] theorem Verdict.value_toHalt (v : Verdict) : v.toHalt.value = v.value := by
  cases v <;> rfl

/-- The step of the interpreter that has this effect, from behind the instruction at `pc`. -/
def Effect.toStep (pc : Nat) : Effect → Step
  | .next r skip => .next { r with pc := pc + skip }
  | .halt v => .halt v.toHalt

theorem Width.bytes_pos (w : Width) : 0 < w.bytes := by
  cases w <;> decide

theorem Width.bytes_le_four (w : Width) : w.bytes ≤ 4 := by
  cases w <;> decide

theorem loadThen_eq_loadOr (view : View) (off : ULong) (w : Width) (pc : Nat)
    (r : ULong → Regs) :
    loadThen view off w.bytes (fun v ↦ { r v with pc := pc }) =
      .ok ((loadOr view.packet off.toNat w r).toStep pc) := by
  rw [loadThen, amiBpfLoad_eq view off w.bytes_pos w.bytes_le_four, loadOr]
  cases view.packet.load off.toNat w.bytes <;> rfl

theorem decodeIndex_eq_some {k : ULong} {i : Fin bpfMemWords} (h : decodeIndex k = some i) :
    ∃ hk : k.toNat < bpfMemWords, i = ⟨k.toNat, hk⟩ := by
  unfold decodeIndex at h
  split_ifs at h with hk
  exact ⟨hk, (Option.some.inj h).symm⟩

theorem Machine.memGet_of_lt (m : Machine) {k : ULong} (hk : k.toNat < bpfMemWords) :
    m.memGet k = .ok (m.mem.get ⟨k.toNat, hk⟩) := by
  rw [Machine.memGet, Vector.getElem?_eq_getElem hk]
  rfl

theorem operand_eq_eval (p : Insn) (m : Machine) :
    operand p m = (decodeOperand p).eval m.toRegs := by
  unfold operand decodeOperand
  cases bpfSrc p.code <;> rfl

theorem jumpBy_of_lt {count jump : Nat} {m : Machine} (h : jump < count - m.pc) :
    jumpBy count jump m = .ok (.next { m with pc := m.pc + jump }) := by
  rw [jumpBy, if_neg (by omega)]

theorem execLd_of_decode {p : Insn} {op : Op} (hclass : bpfClass p.code = .ld)
    (hd : decode p = some op) (view : View) (m : Machine) :
    execLd view p m = .ok ((op.step view.packet m.toRegs).toStep m.pc) := by
  simp only [decode, hclass] at hd
  unfold execLd
  cases hmode : bpfMode p.code <;> simp only [hmode, Option.map_eq_some_iff] at hd
  case imm => cases hd; rfl
  case len => cases hd; rfl
  case mem =>
      obtain ⟨i, hi, rfl⟩ := hd
      obtain ⟨hk, rfl⟩ := decodeIndex_eq_some hi
      simp only [ge_iff_le, not_le.mpr hk, if_false, Machine.memGet_of_lt m hk]
      rfl
  case abs =>
      obtain ⟨w, hw, rfl⟩ := hd
      rw [amiBpfSizeBytes_of_decodeWidth hw]
      exact loadThen_eq_loadOr view p.k w m.pc fun v ↦ { m.toRegs with a := v }
  case ind =>
      obtain ⟨w, hw, rfl⟩ := hd
      rw [amiBpfSizeBytes_of_decodeWidth hw]
      by_cases hwrap : m.x.toNat + p.k.toNat < 2 ^ 32
      · have hsum : (m.x + p.k).toNat = m.x.toNat + p.k.toNat := by
          rw [BitVec.toNat_add, Nat.mod_eq_of_lt hwrap]
        have hnot : ¬m.x + p.k < m.x := by
          rw [BitVec.lt_def, hsum]
          omega
        simp only [hnot, if_false, Op.step, if_pos hwrap]
        rw [← hsum]
        exact loadThen_eq_loadOr view (m.x + p.k) w m.pc fun v ↦ { m.toRegs with a := v }
      · have hlt : m.x + p.k < m.x := by
          rw [BitVec.lt_def, BitVec.toNat_add]
          omega
        simp only [hlt, if_true, Op.step, hwrap, if_false]
        rfl
  all_goals cases hd

theorem execLdx_of_decode {p : Insn} {op : Op} (hclass : bpfClass p.code = .ldx)
    (hd : decode p = some op) (view : View) (m : Machine) :
    execLdx view p m = .ok ((op.step view.packet m.toRegs).toStep m.pc) := by
  simp only [decode, hclass] at hd
  unfold execLdx
  cases hmode : bpfMode p.code <;> simp only [hmode, Option.map_eq_some_iff] at hd
  case imm => cases hd; rfl
  case len => cases hd; rfl
  case mem =>
      obtain ⟨i, hi, rfl⟩ := hd
      obtain ⟨hk, rfl⟩ := decodeIndex_eq_some hi
      simp only [ge_iff_le, not_le.mpr hk, if_false, Machine.memGet_of_lt m hk]
      rfl
  case msh =>
      split_ifs at hd with hsize
      cases hd
      simp only [hsize, ne_eq, not_true_eq_false, if_false]
      exact loadThen_eq_loadOr view p.k .byte m.pc
        fun v ↦ { m.toRegs with x := (v &&& 0x0f) <<< 2 }
  all_goals cases hd

theorem execStore_of_lt {p : Insn} (hk : p.k.toNat < bpfMemWords) (v : ULong) (m : Machine) :
    execStore p v m = .ok (.next { m with mem := m.mem.set p.k.toNat v hk }) := by
  simp only [execStore, ge_iff_le, not_le.mpr hk, if_false, Machine.memSet, hk, dif_pos]
  rfl

theorem execAlu_of_decode {p : Insn} {op : Op} (hd : decodeAlu p = some op) (packet : Packet)
    (m : Machine) : execAlu p m = .ok ((op.step packet m.toRegs).toStep m.pc) := by
  have hshift (v : ULong) : v > 31 ↔ ¬v.toNat < 32 := by
    rw [gt_iff_lt, BitVec.lt_def]
    change 31 < v.toNat ↔ _
    omega
  unfold decodeAlu at hd
  simp only [execAlu, operand_eq_eval]
  cases hop : bpfAluOp p.code <;> simp only [hop] at hd
  case unknown => cases hd
  case div =>
      cases hsrc : bpfSrc p.code <;> simp only [hsrc] at hd
      case k =>
          split_ifs at hd with hk
          cases hd
          simp only [decodeOperand, hsrc, Operand.eval, hk, if_false]
          rfl
      case x =>
          cases hd
          simp only [decodeOperand, hsrc, Operand.eval, Op.step]
          split_ifs <;> rfl
  case neg =>
      cases hd
      simp [Op.step, Effect.toStep]
  case lsh =>
      cases hd
      simp only [Op.step, Effect.toStep, BinOp.eval, hshift, ite_not]
      rfl
  case rsh =>
      cases hd
      simp only [Op.step, Effect.toStep, BinOp.eval, hshift, ite_not]
      rfl
  all_goals
    cases hd
    rfl

theorem execJmp_of_decode {p : Insn} {op : Op} (hd : decodeJmp p = some op) (packet : Packet)
    {count : Nat} {m : Machine} (hfit : op.fits (count - m.pc)) :
    execJmp count p m = .ok ((op.step packet m.toRegs).toStep m.pc) := by
  unfold decodeJmp at hd
  simp only [execJmp, operand_eq_eval]
  cases hop : bpfJmpOp p.code <;> simp only [hop] at hd
  case unknown => cases hd
  case ja =>
      cases hd
      exact jumpBy_of_lt hfit
  all_goals
    cases hd
    refine jumpBy_of_lt ?_
    split_ifs
    exacts [hfit.1, hfit.2]

/-- **The interpreter executes an encoding as the instruction it stands for**, on the flat packet
of the view, without a fault and without any rejection but those of the instruction. -/
theorem execInsn_of_decode {p : Insn} {op : Op} (hd : decode p = some op) (view : View)
    {count : Nat} {m : Machine} (hfit : op.fits (count - m.pc)) :
    execInsn count view p m = .ok ((op.step view.packet m.toRegs).toStep m.pc) := by
  unfold execInsn
  cases hclass : bpfClass p.code with
  | ld => exact execLd_of_decode hclass hd view m
  | ldx => exact execLdx_of_decode hclass hd view m
  | st =>
      simp only [decode, hclass, Option.map_eq_some_iff] at hd
      obtain ⟨i, hi, rfl⟩ := hd
      obtain ⟨hk, rfl⟩ := decodeIndex_eq_some hi
      exact execStore_of_lt hk m.a m
  | stx =>
      simp only [decode, hclass, Option.map_eq_some_iff] at hd
      obtain ⟨i, hi, rfl⟩ := hd
      obtain ⟨hk, rfl⟩ := decodeIndex_eq_some hi
      exact execStore_of_lt hk m.x m
  | alu =>
      simp only [decode, hclass] at hd
      exact execAlu_of_decode hd view.packet m
  | jmp =>
      simp only [decode, hclass] at hd
      exact execJmp_of_decode hd view.packet hfit
  | ret =>
      simp only [decode, hclass] at hd
      unfold execRet
      cases hval : bpfRval p.code <;> simp only [hval] at hd <;> cases hd <;> rfl
  | misc =>
      simp only [decode, hclass] at hd
      unfold execMisc
      cases hop : bpfMiscOp p.code <;> simp only [hop] at hd <;> cases hd <;> rfl

end AmiNetXDuo.Bpf
