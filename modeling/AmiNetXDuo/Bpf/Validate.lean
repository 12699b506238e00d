import AmiNetXDuo.Bpf.Insn

/-!
# The BPF validator

`ami_bpf_validate` of `bpf_validate.c`, which runs when a program is installed.  The loop runs over
the instructions still to come, so that the room of a forward jump is the length of the rest.

## Main definitions

* `insnAccepted` : the body of the validator's loop.
* `amiBpfValidate` : `ami_bpf_validate`.
-/

namespace AmiNetXDuo.Bpf

/-- The body of the loop of `ami_bpf_validate`: whether instruction `p` passes, with `room`
instructions behind it. -/
def insnAccepted (p : Insn) (room : Nat) : Bool :=
  match bpfClass p.code with
  | .ld | .ldx =>
      match bpfMode p.code with
      | .abs | .ind => bpfClass p.code = .ld && amiBpfSizeBytes p.code ≠ 0
      | .imm | .len => bpfSize p.code = .w
      | .mem => bpfSize p.code = .w && p.k.toNat < bpfMemWords
      | .msh => bpfClass p.code = .ldx && bpfSize p.code = .b
      | .unknown => false
  | .st | .stx =>
      -- size `BPF_W` and mode `BPF_IMM` are the zero encodings
      bpfSize p.code = .w && bpfMode p.code = .imm && p.k.toNat < bpfMemWords
  | .alu =>
      match bpfAluOp p.code with
      | .add | .sub | .mul | .or | .and | .lsh | .rsh | .neg => true
      | .div => !(bpfSrc p.code = .k && p.k = 0)
      | .unknown => false
  | .jmp =>
      match bpfJmpOp p.code with
      | .ja => p.k.toNat < room
      | .jeq | .jgt | .jge | .jset => p.jt.toNat < room && p.jf.toNat < room
      | .unknown => false
  | .ret =>
      match bpfRval p.code with
      | .k | .a => true
      | .unknown => false
  | .misc =>
      match bpfMiscOp p.code with
      | .tax | .txa => true
      | .unknown => false

/-- The loop of `ami_bpf_validate`, over the instructions that remain. -/
def allAccepted : List Insn → Bool
  | [] => true
  | p :: rest => insnAccepted p rest.length && allAccepted rest

/-- `ami_bpf_validate`: `0` when the program may be installed, `-1` when not.  The argument is
`none` for a null pointer. -/
def amiBpfValidate (insns : Option (List Insn)) : Int :=
  match insns with
  | none => -1
  | some insns =>
      if insns.length = 0 || insns.length > bpfMaxInsns then -1
      else if !allAccepted insns then -1
      else
        match insns.getLast? with
        | some last => if bpfClass last.code ≠ .ret then -1 else 0
        | none => -1

/-- What an accepted program is. -/
theorem amiBpfValidate_eq_zero_iff {insns : List Insn} :
    amiBpfValidate (some insns) = 0 ↔
      insns.length ≤ bpfMaxInsns ∧ allAccepted insns = true ∧
        ∃ last, insns.getLast? = some last ∧ bpfClass last.code = .ret := by
  unfold amiBpfValidate
  cases hlast : insns.getLast? with
  | none =>
      rw [List.getLast?_eq_none_iff] at hlast
      simp [hlast]
  | some last =>
      have hne : insns ≠ [] := by
        rintro rfl
        simp at hlast
      by_cases hmax : bpfMaxInsns < insns.length
      · have hnle : ¬insns.length ≤ bpfMaxInsns := by omega
        simp [hmax, hnle]
      · have hle : insns.length ≤ bpfMaxInsns := by omega
        cases hall : allAccepted insns <;> by_cases hret : bpfClass last.code = .ret <;>
          simp [hne, hmax, hle, hall, hret, hlast]

/-- Every suffix of an accepted program passes the loop. -/
theorem allAccepted_drop {insns : List Insn} (h : allAccepted insns = true) (n : Nat) :
    allAccepted (insns.drop n) = true := by
  induction insns generalizing n with
  | nil => simpa using h
  | cons p rest ih =>
      simp only [allAccepted, Bool.and_eq_true] at h
      cases n with
      | zero => simpa [allAccepted] using h
      | succ n => exact ih h.2 n

theorem insnAccepted_of_allAccepted {insns : List Insn} (h : allAccepted insns = true) {i : Nat}
    (hi : i < insns.length) : insnAccepted insns[i] (insns.length - (i + 1)) = true := by
  have hsuffix := allAccepted_drop h i
  rw [List.drop_eq_getElem_cons hi] at hsuffix
  simp only [allAccepted, Bool.and_eq_true, List.length_drop] at hsuffix
  exact hsuffix.1

end AmiNetXDuo.Bpf
