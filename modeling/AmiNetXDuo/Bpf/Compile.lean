import AmiNetXDuo.Bpf.Insn

/-!
# The filter compiler

`tool_bpf_compile` of `tools/bpffilter.c`: HOST, PORT, PROTO and NOT, ANDed.  The gates emit
instructions whose jumps name labels, and `tool_bpf_fixup` turns the labels into offsets.

## Main definitions

* `ToolBpfFilter` : what the user asked for.
* `ToolBpfBuild` : the builder, with its operations `toolBpfLabel`, `toolBpfPlace`, `toolBpfEmit`
  and `toolBpfFixup`.
* `toolBpfCompile` : the compiler.
-/

namespace AmiNetXDuo.Bpf

/-! ### The filter -/

/-- `enum ToolBpfProto`. -/
inductive ToolBpfProto
  | any | tcp | udp | icmp | arp | ip | ip6
  deriving DecidableEq, Repr

/-- `ToolBpfFilter`. -/
structure ToolBpfFilter where
  snaplen : ULong
  proto : ToolBpfProto
  haveHost : Bool
  hostIsV6 : Bool
  hostV4 : ULong
  hostV6 : Vector UByte 16
  havePort : Bool
  port : ULong
  invert : Bool
  deriving DecidableEq

/-- The results of the compiler other than `TOOL_BPF_OK`. -/
inductive ToolBpfError
  | snap | port | impossible | space
  deriving DecidableEq, Repr

/-! ### The frame -/

def ethTypeOff : Nat := 12
def ethHdrLen : Nat := 14
def ethertypeIp : ULong := 0x0800
def ethertypeArp : ULong := 0x0806
def ethertypeIp6 : ULong := 0x86dd
def ip4FlagsOff : Nat := ethHdrLen + 6
def ip4ProtoOff : Nat := ethHdrLen + 9
def ip4SrcOff : Nat := ethHdrLen + 12
def ip4DstOff : Nat := ethHdrLen + 16
def ip4FragMask : ULong := 0x1fff
def ip6NextOff : Nat := ethHdrLen + 6
def ip6SrcOff : Nat := ethHdrLen + 8
def ip6DstOff : Nat := ethHdrLen + 24
def ip6HdrLen : Nat := 40
def arpPtypeOff : Nat := ethHdrLen + 2
def arpSpaOff : Nat := ethHdrLen + 14
def arpTpaOff : Nat := ethHdrLen + 24
def ipprotoIcmp : ULong := 1
def ipprotoTcp : ULong := 6
def ipprotoUdp : ULong := 17
def ipprotoIcmpv6 : ULong := 58

/-! ### The builder -/

/-- `LBL_MAX`. -/
def lblMax : Nat := 16

/-- `TOOL_BPF_MAX_INSNS`. -/
def toolBpfMaxInsns : Nat := 64

/-- A label, or `none` for `LBL_NEXT`. -/
abbrev Target : Type := Option Nat

/-- An instruction before the fixup, with the labels its jumps name. -/
structure Pending where
  code : UWord
  k : ULong
  jt : Target
  jf : Target
  deriving DecidableEq, Repr

/-- `ToolBpfBuild`: the instructions emitted so far, and the position of each label, `none` for
`LBL_UNPLACED`.  The counters `n` and `nlabels` are the lengths of the two lists. -/
structure ToolBpfBuild where
  max : Nat
  out : List Pending
  pos : List (Option Nat)
  overflow : Bool

/-- `b->n`. -/
def ToolBpfBuild.n (b : ToolBpfBuild) : Nat := b.out.length

/-- `tool_bpf_label`: a new label, and the builder that knows it. -/
def toolBpfLabel (b : ToolBpfBuild) : Nat × ToolBpfBuild :=
  if b.pos.length ≥ lblMax then (0, { b with overflow := true })
  else (b.pos.length, { b with pos := b.pos ++ [none] })

/-- `tool_bpf_place`: the label stands for the next instruction. -/
def toolBpfPlace (label : Nat) (b : ToolBpfBuild) : ToolBpfBuild :=
  { b with pos := b.pos.set label (some b.n) }

/-- `tool_bpf_emit`. -/
def toolBpfEmit (e : Pending) (b : ToolBpfBuild) : ToolBpfBuild :=
  if b.n ≥ b.max ∨ b.n ≥ toolBpfMaxInsns then { b with overflow := true }
  else { b with out := b.out ++ [e] }

/-- The distance from instruction `i` to a label, `none` when the label has no place or lies
behind. -/
def toolBpfDelta (pos : List (Option Nat)) (i label : Nat) : Option Nat :=
  match pos[label]? with
  | some (some p) => if p < i + 1 then none else some (p - (i + 1))
  | _ => none

/-- An 8-bit jump field of instruction `i`. -/
def fixupTarget (pos : List (Option Nat)) (i : Nat) : Target → Option UByte
  | none => some 0
  | some label =>
      match toolBpfDelta pos i label with
      | some delta => if delta > 255 then none else some (BitVec.ofNat 8 delta)
      | none => none

/-- The body of the loop of `tool_bpf_fixup`, for instruction `i`. -/
def fixupInsn (pos : List (Option Nat)) (i : Nat) (e : Pending) : Option Insn :=
  if bpfClass e.code ≠ .jmp then
    some ⟨e.code, 0, 0, e.k⟩
  else if bpfJmpOp e.code = .ja then
    match e.jt with
    | none => none
    | some label => (toolBpfDelta pos i label).map fun delta ↦
        ⟨e.code, 0, 0, BitVec.ofNat 32 delta⟩
  else
    match fixupTarget pos i e.jt, fixupTarget pos i e.jf with
    | some jt, some jf => some ⟨e.code, jt, jf, e.k⟩
    | _, _ => none

/-- The loop of `tool_bpf_fixup` from instruction `i` on. -/
def fixupLoop (pos : List (Option Nat)) : Nat → List Pending → Option (List Insn)
  | _, [] => some []
  | i, e :: rest =>
      match fixupInsn pos i e, fixupLoop pos (i + 1) rest with
      | some p, some insns => some (p :: insns)
      | _, _ => none

/-- `tool_bpf_fixup`: labels into offsets. -/
def toolBpfFixup (b : ToolBpfBuild) : Option (List Insn) :=
  fixupLoop b.pos 0 b.out

/-! ### Shorthand -/

def ldhAbs (off : Nat) : ToolBpfBuild → ToolBpfBuild :=
  toolBpfEmit ⟨0x28, BitVec.ofNat 32 off, none, none⟩

def ldwAbs (off : Nat) : ToolBpfBuild → ToolBpfBuild :=
  toolBpfEmit ⟨0x20, BitVec.ofNat 32 off, none, none⟩

def ldbAbs (off : Nat) : ToolBpfBuild → ToolBpfBuild :=
  toolBpfEmit ⟨0x30, BitVec.ofNat 32 off, none, none⟩

def ldhInd (off : Nat) : ToolBpfBuild → ToolBpfBuild :=
  toolBpfEmit ⟨0x48, BitVec.ofNat 32 off, none, none⟩

/-- `X` becomes the IPv4 header length in bytes. -/
def ldxMsh (off : Nat) : ToolBpfBuild → ToolBpfBuild :=
  toolBpfEmit ⟨0xb1, BitVec.ofNat 32 off, none, none⟩

def jeq (k : ULong) (t f : Target) : ToolBpfBuild → ToolBpfBuild :=
  toolBpfEmit ⟨0x15, k, t, f⟩

def jset (k : ULong) (t f : Target) : ToolBpfBuild → ToolBpfBuild :=
  toolBpfEmit ⟨0x45, k, t, f⟩

def ja (t : Nat) : ToolBpfBuild → ToolBpfBuild :=
  toolBpfEmit ⟨0x05, 0, some t, none⟩

def ret (k : ULong) : ToolBpfBuild → ToolBpfBuild :=
  toolBpfEmit ⟨0x06, k, none, none⟩

/-! ### The gates -/

/-- `tool_bpf_v6_word`: word `word` of an IPv6 address. -/
def toolBpfV6Word (a : Vector UByte 16) (word : Fin 4) : ULong :=
  (a[word.val * 4].setWidth 32 <<< 24) ||| (a[word.val * 4 + 1].setWidth 32 <<< 16) |||
    (a[word.val * 4 + 2].setWidth 32 <<< 8) ||| a[word.val * 4 + 3].setWidth 32

/-- `tool_bpf_gate_proto`.  No wanted protocol, the source's `-1`, is `none`. -/
def toolBpfGateProto (reject off : Nat) (want : Option ULong) (tcp udp : ULong)
    (anyOfTwo : Bool) (b : ToolBpfBuild) : ToolBpfBuild :=
  if anyOfTwo then
    let b := ldbAbs off b
    let (ok, b) := toolBpfLabel b
    b |> jeq tcp (some ok) none |> jeq udp none (some reject) |> toolBpfPlace ok
  else
    match want with
    | none => b
    | some want => b |> ldbAbs off |> jeq want none (some reject)

/-- `tool_bpf_gate_host4`: source or destination, one 32-bit compare each. -/
def toolBpfGateHost4 (reject : Nat) (host : ULong) (srcOff dstOff : Nat) (b : ToolBpfBuild) :
    ToolBpfBuild :=
  let (ok, b) := toolBpfLabel b
  b |> ldwAbs srcOff |> jeq host (some ok) none
    |> ldwAbs dstOff |> jeq host none (some reject) |> toolBpfPlace ok

/-- `tool_bpf_gate_host6`: sixteen bytes as four words, of the source and then of the
destination. -/
def toolBpfGateHost6 (reject : Nat) (host : Vector UByte 16) (b : ToolBpfBuild) : ToolBpfBuild :=
  let (dst, b) := toolBpfLabel b
  let (ok, b) := toolBpfLabel b
  b |> ldwAbs ip6SrcOff |> jeq (toolBpfV6Word host 0) none (some dst)
    |> ldwAbs (ip6SrcOff + 4) |> jeq (toolBpfV6Word host 1) none (some dst)
    |> ldwAbs (ip6SrcOff + 8) |> jeq (toolBpfV6Word host 2) none (some dst)
    |> ldwAbs (ip6SrcOff + 12) |> jeq (toolBpfV6Word host 3) (some ok) (some dst)
    |> toolBpfPlace dst
    |> ldwAbs ip6DstOff |> jeq (toolBpfV6Word host 0) none (some reject)
    |> ldwAbs (ip6DstOff + 4) |> jeq (toolBpfV6Word host 1) none (some reject)
    |> ldwAbs (ip6DstOff + 8) |> jeq (toolBpfV6Word host 2) none (some reject)
    |> ldwAbs (ip6DstOff + 12) |> jeq (toolBpfV6Word host 3) none (some reject)
    |> toolBpfPlace ok

/-- The four tests of one address in the IPv6 host gate. -/
def wordTests (host : Vector UByte 16) (t f : Target) (off : Nat) (b : ToolBpfBuild) :
    ToolBpfBuild :=
  b |> ldwAbs off |> jeq (toolBpfV6Word host 0) none f
    |> ldwAbs (off + 4) |> jeq (toolBpfV6Word host 1) none f
    |> ldwAbs (off + 8) |> jeq (toolBpfV6Word host 2) none f
    |> ldwAbs (off + 12) |> jeq (toolBpfV6Word host 3) t f

/-- `tool_bpf_gate_port4`: the loads are indexed by the header length, behind a test for a first
fragment. -/
def toolBpfGatePort4 (reject : Nat) (port : ULong) (b : ToolBpfBuild) : ToolBpfBuild :=
  let (ok, b) := toolBpfLabel b
  b |> ldhAbs ip4FlagsOff |> jset ip4FragMask (some reject) none
    |> ldxMsh ethHdrLen
    |> ldhInd ethHdrLen |> jeq port (some ok) none
    |> ldhInd (ethHdrLen + 2) |> jeq port none (some reject) |> toolBpfPlace ok

/-- `tool_bpf_gate_port6`: at a fixed offset. -/
def toolBpfGatePort6 (reject : Nat) (port : ULong) (b : ToolBpfBuild) : ToolBpfBuild :=
  let (ok, b) := toolBpfLabel b
  b |> ldhAbs (ethHdrLen + ip6HdrLen) |> jeq port (some ok) none
    |> ldhAbs (ethHdrLen + ip6HdrLen + 2) |> jeq port none (some reject) |> toolBpfPlace ok

/-! ### Compilation -/

/-- The switch on the protocol, which is the same in the IPv4 and in the IPv6 branch but for the
offset of the protocol field and the number of ICMP. -/
def gateProtoOf (f : ToolBpfFilter) (reject off : Nat) (icmp : ULong) (b : ToolBpfBuild) :
    ToolBpfBuild :=
  match f.proto with
  | .tcp => toolBpfGateProto reject off (some ipprotoTcp) 0 0 false b
  | .udp => toolBpfGateProto reject off (some ipprotoUdp) 0 0 false b
  | .icmp => toolBpfGateProto reject off (some icmp) 0 0 false b
  | _ => if f.havePort then toolBpfGateProto reject off none ipprotoTcp ipprotoUdp true b else b

/-- Whether the IPv4 branch can carry a frame the filter would accept. -/
def ToolBpfFilter.useV4 (f : ToolBpfFilter) : Bool :=
  !(f.proto = .arp || f.proto = .ip6 || (f.haveHost && f.hostIsV6))

/-- Whether the IPv6 branch can. -/
def ToolBpfFilter.useV6 (f : ToolBpfFilter) : Bool :=
  !(f.proto = .arp || f.proto = .ip || (f.haveHost && !f.hostIsV6))

/-- Whether the ARP branch can. -/
def ToolBpfFilter.useArp (f : ToolBpfFilter) : Bool :=
  !(f.proto = .tcp || f.proto = .udp || f.proto = .icmp || f.proto = .ip || f.proto = .ip6 ||
    f.havePort || (f.haveHost && f.hostIsV6))

/-- The IPv4 branch. -/
def compileV4 (f : ToolBpfFilter) (accept reject lV4 : Nat) (b : ToolBpfBuild) : ToolBpfBuild :=
  let b := toolBpfPlace lV4 b
  let b := gateProtoOf f reject ip4ProtoOff ipprotoIcmp b
  let b := if f.haveHost then toolBpfGateHost4 reject f.hostV4 ip4SrcOff ip4DstOff b else b
  let b := if f.havePort then toolBpfGatePort4 reject f.port b else b
  ja accept b

/-- The IPv6 branch. -/
def compileV6 (f : ToolBpfFilter) (accept reject lV6 : Nat) (b : ToolBpfBuild) : ToolBpfBuild :=
  let b := toolBpfPlace lV6 b
  let b := gateProtoOf f reject ip6NextOff ipprotoIcmpv6 b
  let b := if f.haveHost then toolBpfGateHost6 reject f.hostV6 b else b
  let b := if f.havePort then toolBpfGatePort6 reject f.port b else b
  ja accept b

/-- The ARP branch. -/
def compileArp (f : ToolBpfFilter) (accept reject lArp : Nat) (b : ToolBpfBuild) : ToolBpfBuild :=
  let b := toolBpfPlace lArp b
  let b :=
    if f.haveHost then
      b |> ldhAbs arpPtypeOff |> jeq ethertypeIp none (some reject)
        |> toolBpfGateHost4 reject f.hostV4 arpSpaOff arpTpaOff
    else b
  ja accept b

/-- The dispatch on the ethertype, the branches and the two returns. -/
def compileBuild (f : ToolBpfFilter) (b : ToolBpfBuild) : ToolBpfBuild :=
  let (accept, b) := toolBpfLabel b
  let (reject, b) := toolBpfLabel b
  let (lV4, b) := toolBpfLabel b
  let (lV6, b) := toolBpfLabel b
  let (lArp, b) := toolBpfLabel b
  let b := b |> ldhAbs ethTypeOff
    |> jeq ethertypeIp (some (if f.useV4 then lV4 else reject)) none
    |> jeq ethertypeIp6 (some (if f.useV6 then lV6 else reject)) none
    |> jeq ethertypeArp (some (if f.useArp then lArp else reject)) (some reject)
  let b := if f.useV4 then compileV4 f accept reject lV4 b else b
  let b := if f.useV6 then compileV6 f accept reject lV6 b else b
  let b := if f.useArp then compileArp f accept reject lArp b else b
  b |> toolBpfPlace accept |> ret (if f.invert then 0 else f.snaplen)
    |> toolBpfPlace reject |> ret (if f.invert then f.snaplen else 0)

/-- The empty builder with room for `max` instructions. -/
def ToolBpfBuild.empty (max : Nat) : ToolBpfBuild := ⟨max, [], [], false⟩

/-- `tool_bpf_compile`, into a buffer that holds `max` instructions. -/
def toolBpfCompile (f : ToolBpfFilter) (max : Nat) : Except ToolBpfError (List Insn) :=
  if max = 0 then .error .space
  else if f.snaplen = 0 ∨ f.snaplen > 65535 then .error .snap
  else if f.havePort ∧ f.port > 65535 then .error .port
  else if f.havePort ∧ (f.proto = .icmp ∨ f.proto = .arp) then .error .impossible
  else if f.proto = .any ∧ ¬f.haveHost ∧ ¬f.havePort then
    if f.invert then .error .impossible else .ok [⟨0x06, 0, 0, f.snaplen⟩]
  else if !f.useV4 && !f.useV6 && !f.useArp then .error .impossible
  else
    let b := compileBuild f (.empty max)
    if b.overflow then .error .space
    else
      match toolBpfFixup b with
      | none => .error .space
      | some insns => .ok insns

end AmiNetXDuo.Bpf
