import AmiNetXDuo.Basic

/-!
# BPF instructions and their encoding

The instruction record of `include/aminetxduo/bpf.h`, and the bit fields that `bpf_validate.c` and
`bpf_filter.c` switch on.  Each field macro is a function from the 16-bit code to an enumeration;
an encoding that the header does not define is the value `unknown`.

## Main definitions

* `Insn` : `struct bpf_insn`.
* `bpfClass`, `bpfSize`, `bpfMode`, `bpfAluOp`, `bpfJmpOp`, `bpfSrc`, `bpfRval`, `bpfMiscOp` :
  the field macros.
* `amiBpfSizeBytes` : the byte count of a size field.
-/

namespace AmiNetXDuo.Bpf

/-- `BPF_MAXINSNS`: the longest program the validator accepts. -/
def bpfMaxInsns : Nat := 512

/-- `BPF_MEMWORDS`: the number of scratch words. -/
def bpfMemWords : Nat := 16

/-- `struct bpf_insn`.  The field `k` is declared `LONG` and always read as `ULONG`. -/
structure Insn where
  code : UWord
  jt : UByte
  jf : UByte
  k : ULong
  deriving DecidableEq, Repr

/-- `BPF_STMT`. -/
def bpfStmt (code : UWord) (k : ULong) : Insn := ⟨code, 0, 0, k⟩

/-- `BPF_JUMP`. -/
def bpfJump (code : UWord) (k : ULong) (jt jf : UByte) : Insn := ⟨code, jt, jf, k⟩

/-- The values of `BPF_CLASS`. -/
inductive InsnClass
  | ld | ldx | st | stx | alu | jmp | ret | misc
  deriving DecidableEq, Repr

/-- The values of `BPF_SIZE`. -/
inductive Size
  | w | h | b | unknown
  deriving DecidableEq, Repr

/-- The values of `BPF_MODE`. -/
inductive Mode
  | imm | abs | ind | mem | len | msh | unknown
  deriving DecidableEq, Repr

/-- The values of `BPF_OP` in an arithmetic instruction. -/
inductive AluOp
  | add | sub | mul | div | or | and | lsh | rsh | neg | unknown
  deriving DecidableEq, Repr

/-- The values of `BPF_OP` in a jump. -/
inductive JmpOp
  | ja | jeq | jgt | jge | jset | unknown
  deriving DecidableEq, Repr

/-- The values of `BPF_SRC`. -/
inductive Src
  | k | x
  deriving DecidableEq, Repr

/-- The values of `BPF_RVAL`. -/
inductive Rval
  | k | a | unknown
  deriving DecidableEq, Repr

/-- The values of `BPF_MISCOP`. -/
inductive MiscOp
  | tax | txa | unknown
  deriving DecidableEq, Repr

/-- `BPF_CLASS(code)`: the low three bits. -/
def bpfClass (code : UWord) : InsnClass :=
  match (code &&& 0x07).toNat with
  | 0 => .ld
  | 1 => .ldx
  | 2 => .st
  | 3 => .stx
  | 4 => .alu
  | 5 => .jmp
  | 6 => .ret
  | _ => .misc

/-- `BPF_SIZE(code)`. -/
def bpfSize (code : UWord) : Size :=
  match (code &&& 0x18).toNat with
  | 0x00 => .w
  | 0x08 => .h
  | 0x10 => .b
  | _ => .unknown

/-- `BPF_MODE(code)`. -/
def bpfMode (code : UWord) : Mode :=
  match (code &&& 0xe0).toNat with
  | 0x00 => .imm
  | 0x20 => .abs
  | 0x40 => .ind
  | 0x60 => .mem
  | 0x80 => .len
  | 0xa0 => .msh
  | _ => .unknown

/-- `BPF_OP(code)` read as an arithmetic operation. -/
def bpfAluOp (code : UWord) : AluOp :=
  match (code &&& 0xf0).toNat with
  | 0x00 => .add
  | 0x10 => .sub
  | 0x20 => .mul
  | 0x30 => .div
  | 0x40 => .or
  | 0x50 => .and
  | 0x60 => .lsh
  | 0x70 => .rsh
  | 0x80 => .neg
  | _ => .unknown

/-- `BPF_OP(code)` read as a jump condition. -/
def bpfJmpOp (code : UWord) : JmpOp :=
  match (code &&& 0xf0).toNat with
  | 0x00 => .ja
  | 0x10 => .jeq
  | 0x20 => .jgt
  | 0x30 => .jge
  | 0x40 => .jset
  | _ => .unknown

/-- `BPF_SRC(code)`. -/
def bpfSrc (code : UWord) : Src :=
  if code &&& 0x08 = 0 then .k else .x

/-- `BPF_RVAL(code)`. -/
def bpfRval (code : UWord) : Rval :=
  match (code &&& 0x18).toNat with
  | 0x00 => .k
  | 0x10 => .a
  | _ => .unknown

/-- `BPF_MISCOP(code)`. -/
def bpfMiscOp (code : UWord) : MiscOp :=
  match (code &&& 0xf8).toNat with
  | 0x00 => .tax
  | 0x80 => .txa
  | _ => .unknown

/-- `ami_bpf_size_bytes`: the byte count of a size field, `0` for the undefined one. -/
def amiBpfSizeBytes (code : UWord) : Nat :=
  match bpfSize code with
  | .w => 4
  | .h => 2
  | .b => 1
  | .unknown => 0

end AmiNetXDuo.Bpf
