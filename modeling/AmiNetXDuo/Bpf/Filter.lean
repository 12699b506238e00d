import AmiNetXDuo.Bpf.Insn
import AmiNetXDuo.Bpf.View

/-!
# The BPF interpreter

`ami_bpf_filter_view` of `bpf_filter.c`, as a step function on a machine state and the loop over
it.  A step that would read an instruction outside the program, a scratch word outside the memory
or a byte outside the view is a `Fault`; a `return 0` of the source that no `BPF_RET` asks for is a
`Reject` with the place it comes from.

## Main definitions

* `Machine` : the registers, the scratch memory and the program counter.
* `execInsn` : one instruction, with the program counter already behind it.
* `amiBpfStep` : fetch and execute.
* `amiBpfFilterView`, `amiBpfFilter` : the entry points.
-/

namespace AmiNetXDuo.Bpf

/-- The locals `A`, `X` and `mem` of the interpreter. -/
structure Regs where
  a : ULong
  x : ULong
  mem : Vector ULong bpfMemWords
  deriving DecidableEq

/-- The state of the interpreter between two instructions. -/
structure Machine extends Regs where
  pc : Nat
  deriving DecidableEq

/-- The places where the interpreter returns `0` without a `BPF_RET`. -/
inductive Reject
  | mode | scratch | load | wrap | size | div | op | jump | rval | misc | fellOff
  deriving DecidableEq, Repr

/-- How a run ends: at a `BPF_RET`, or at one of the other returns of `0`. -/
inductive Halt
  | ret (value : ULong)
  | reject (why : Reject)
  deriving DecidableEq, Repr

/-- The value that the function returns. -/
def Halt.value : Halt → ULong
  | .ret value => value
  | .reject _ => 0

/-- What one instruction does. -/
inductive Step
  | next (m : Machine)
  | halt (h : Halt)
  deriving DecidableEq

/-- A `return 0` inside the loop. -/
def reject (why : Reject) : Except Fault Step := .ok (.halt (.reject why))

/-- `mem[k]`. -/
def Machine.memGet (m : Machine) (k : ULong) : Except Fault ULong :=
  match m.mem[k.toNat]? with
  | some v => .ok v
  | none => .error .scratch

/-- `mem[k] = v`. -/
def Machine.memSet (m : Machine) (k v : ULong) : Except Fault Machine :=
  if h : k.toNat < bpfMemWords then .ok { m with mem := m.mem.set k.toNat v h }
  else .error .scratch

/-- Load from the packet, reject when out of range, and go on with the value. -/
def loadThen (view : View) (off : ULong) (size : Nat) (m : ULong → Machine) :
    Except Fault Step := do
  match ← amiBpfLoad view off size with
  | none => reject .load
  | some v => return .next (m v)

/-- `case BPF_LD`. -/
def execLd (view : View) (p : Insn) (m : Machine) : Except Fault Step :=
  match bpfMode p.code with
  | .imm => .ok (.next { m with a := p.k })
  | .len => .ok (.next { m with a := view.wirelen })
  | .mem =>
      if p.k.toNat ≥ bpfMemWords then reject .scratch
      else do
        let v ← m.memGet p.k
        return .next { m with a := v }
  | .abs => loadThen view p.k (amiBpfSizeBytes p.code) fun v ↦ { m with a := v }
  | .ind =>
      let tmp := m.x + p.k
      if tmp < m.x then reject .wrap
      else loadThen view tmp (amiBpfSizeBytes p.code) fun v ↦ { m with a := v }
  | .msh | .unknown => reject .mode

/-- `case BPF_LDX`. -/
def execLdx (view : View) (p : Insn) (m : Machine) : Except Fault Step :=
  match bpfMode p.code with
  | .imm => .ok (.next { m with x := p.k })
  | .len => .ok (.next { m with x := view.wirelen })
  | .mem =>
      if p.k.toNat ≥ bpfMemWords then reject .scratch
      else do
        let v ← m.memGet p.k
        return .next { m with x := v }
  | .msh =>
      if bpfSize p.code ≠ .b then reject .size
      else loadThen view p.k 1 fun tmp ↦ { m with x := (tmp &&& 0x0f) <<< 2 }
  | .abs | .ind | .unknown => reject .mode

/-- `case BPF_ST` and `case BPF_STX`: store register value `v`. -/
def execStore (p : Insn) (v : ULong) (m : Machine) : Except Fault Step :=
  if p.k.toNat ≥ bpfMemWords then reject .scratch
  else do
    let m ← m.memSet p.k v
    return .next m

/-- The operand of an arithmetic instruction or of a jump. -/
def operand (p : Insn) (m : Machine) : ULong :=
  match bpfSrc p.code with
  | .x => m.x
  | .k => p.k

/-- `case BPF_ALU`. -/
def execAlu (p : Insn) (m : Machine) : Except Fault Step :=
  let v := operand p m
  match bpfAluOp p.code with
  | .add => .ok (.next { m with a := m.a + v })
  | .sub => .ok (.next { m with a := m.a - v })
  | .mul => .ok (.next { m with a := m.a * v })
  | .div => if v = 0 then reject .div else .ok (.next { m with a := m.a / v })
  | .or => .ok (.next { m with a := m.a ||| v })
  | .and => .ok (.next { m with a := m.a &&& v })
  | .lsh => .ok (.next { m with a := if v > 31 then 0 else m.a <<< v.toNat })
  | .rsh => .ok (.next { m with a := if v > 31 then 0 else m.a >>> v.toNat })
  | .neg => .ok (.next { m with a := 0 - m.a })
  | .unknown => reject .op

/-- Step `jump` instructions forward when the program has that many left. -/
def jumpBy (count : Nat) (jump : Nat) (m : Machine) : Except Fault Step :=
  let room := count - m.pc
  if jump > room then reject .jump else .ok (.next { m with pc := m.pc + jump })

/-- `case BPF_JMP`. -/
def execJmp (count : Nat) (p : Insn) (m : Machine) : Except Fault Step :=
  let v := operand p m
  let branch (taken : Bool) := jumpBy count (if taken then p.jt.toNat else p.jf.toNat) m
  match bpfJmpOp p.code with
  | .ja => jumpBy count p.k.toNat m
  | .jgt => branch (m.a > v)
  | .jge => branch (m.a ≥ v)
  | .jeq => branch (m.a = v)
  | .jset => branch (m.a &&& v ≠ 0)
  | .unknown => reject .op

/-- `case BPF_RET`. -/
def execRet (p : Insn) (m : Machine) : Except Fault Step :=
  match bpfRval p.code with
  | .k => .ok (.halt (.ret p.k))
  | .a => .ok (.halt (.ret m.a))
  | .unknown => reject .rval

/-- `case BPF_MISC`. -/
def execMisc (p : Insn) (m : Machine) : Except Fault Step :=
  match bpfMiscOp p.code with
  | .tax => .ok (.next { m with x := m.a })
  | .txa => .ok (.next { m with a := m.x })
  | .unknown => reject .misc

/-- The `switch` of the interpreter.  The program counter of `m` is already behind `p`. -/
def execInsn (count : Nat) (view : View) (p : Insn) (m : Machine) : Except Fault Step :=
  match bpfClass p.code with
  | .ld => execLd view p m
  | .ldx => execLdx view p m
  | .st => execStore p m.a m
  | .stx => execStore p m.x m
  | .alu => execAlu p m
  | .jmp => execJmp count p m
  | .ret => execRet p m
  | .misc => execMisc p m

/-- One pass through the loop body: fetch `insns[pc]`, step the program counter, execute. -/
def amiBpfStep (insns : List Insn) (view : View) (m : Machine) : Except Fault Step :=
  match insns[m.pc]? with
  | none => .error .insn
  | some p => execInsn insns.length view p { m with pc := m.pc + 1 }

/-- The loop `while (pc < count)`, for at most `fuel` passes; `none` when they do not suffice. -/
def filterLoop (insns : List Insn) (view : View) : Nat → Machine → Except Fault (Option Halt)
  | 0, m => if m.pc < insns.length then .ok none else .ok (some (.reject .fellOff))
  | fuel + 1, m =>
      if m.pc < insns.length then do
        match ← amiBpfStep insns view m with
        | .next m => filterLoop insns view fuel m
        | .halt h => return some h
      else
        .ok (some (.reject .fellOff))

/-- The state at entry: everything is zero. -/
def Machine.init : Machine where
  a := 0
  x := 0
  mem := Vector.replicate bpfMemWords 0
  pc := 0

/-- `ami_bpf_filter_view`.  A null pointer is `none`; so is the result of a run that would need
more passes than the program has instructions. -/
def amiBpfFilterView (insns : Option (List Insn)) (view : Option View) :
    Except Fault (Option ULong) :=
  match insns with
  | none | some [] => .ok (some (-1))
  | some insns =>
      match view with
      | none => .ok (some 0)
      | some view => do
          let halt ← filterLoop insns view insns.length .init
          return halt.map Halt.value

/-- The one-segment view that `ami_bpf_filter` and `ami_bpf_view_linear` build. -/
def View.linear (frame : List UByte) (wirelen : ULong) (h : frame.length < 2 ^ 32) : View where
  wirelen := wirelen
  caplen := BitVec.ofNat 32 frame.length
  segs := [frame]
  nsegs_le := by simp [amiBpfMaxSegs]
  bytes_lt := by simpa using h

/-- `ami_bpf_filter`: the interpreter on the first `caplen` bytes of a frame. -/
def amiBpfFilter (insns : Option (List Insn)) (frame : List UByte) (wirelen : ULong)
    (h : frame.length < 2 ^ 32) : Except Fault (Option ULong) :=
  amiBpfFilterView insns (some (.linear frame wirelen h))

end AmiNetXDuo.Bpf
