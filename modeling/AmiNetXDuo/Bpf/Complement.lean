import AmiNetXDuo.Bpf.CompileCorrect

/-!
# NOT

The program of an inverted filter is that of the filter with the values of its two returns
exchanged.  A run that ends at a return is therefore kept by exactly one of the two programs.  A run
that comes to a field behind the end of the frame is rejected by both: on a frame that is too short
for the tests of the filter NOT is not a complement.

## Main definitions

* `ToolBpfFilter.inverted` : the filter with NOT.
* `Accepts` : a program keeps something of a frame.

## Main results

* `amiBpfFilter_of_compile` : what the program of a filter keeps.
* `toolBpfCompile_complement` : NOT is the complement exactly on the frames that the tests of the
  filter have an answer for.
* `toolBpfCompile_both_reject` : a frame that both programs reject.
-/

namespace AmiNetXDuo.Bpf

/-- The filter with NOT. -/
def ToolBpfFilter.inverted (f : ToolBpfFilter) : ToolBpfFilter := { f with invert := true }

/-- The program keeps something of the frame. -/
def Accepts (insns : List Insn) (frame : List UByte) (wirelen : ULong) (h : frame.length < 2 ^ 32) :
    Prop :=
  ∃ v, v ≠ 0 ∧ amiBpfFilter (some insns) frame wirelen h = .ok (some v)

/-- A filter with NOT that compiles has something to test. -/
theorem tests_of_inverted {f : ToolBpfFilter} {max : Nat} {insns : List Insn}
    (h : toolBpfCompile f.inverted max = .ok insns) : f.Tests := by
  rintro ⟨hproto, hhost, hport⟩
  unfold toolBpfCompile at h
  split_ifs at h with hmax hsnap hport' himp htriv hinvert
  · exact hinvert rfl
  · exact htriv ⟨hproto, hhost, hport⟩

/-- What the program of a filter keeps, by the tests of the filter. -/
theorem amiBpfFilter_of_compile {f : ToolBpfFilter} (htests : f.Tests) {max : Nat}
    {insns : List Insn} (hc : toolBpfCompile f max = .ok insns) (frame : List UByte)
    (wirelen : ULong) (h : frame.length < 2 ^ 32) :
    f.snaplen ≠ 0 ∧ amiBpfFilter (some insns) frame wirelen h =
      .ok (some ((f.answer frame).keeps f.returns.1 f.returns.2)) := by
  obtain ⟨-, hsnap, ⟨hproto, hhost, hport, -⟩ | ⟨-, -, hover, hfix⟩⟩ := toolBpfCompile_eq_ok hc
  · exact absurd ⟨hproto, Bool.eq_false_iff.mp hhost, Bool.eq_false_iff.mp hport⟩ htests
  · obtain ⟨-, -, ops, hops, hlink⟩ := amiBpfValidate_of_compileBuild hover hfix
    exact ⟨hsnap, amiBpfFilter_of_yields hops (yields_compileBuild hlink) h⟩

theorem accepts_iff {insns : List Insn} {frame : List UByte} {wirelen v : ULong}
    {h : frame.length < 2 ^ 32}
    (hv : amiBpfFilter (some insns) frame wirelen h = .ok (some v)) :
    Accepts insns frame wirelen h ↔ v ≠ 0 := by
  refine ⟨?_, fun hne ↦ ⟨v, hne, hv⟩⟩
  rintro ⟨v', hne, hv'⟩
  rw [hv] at hv'
  cases hv'
  exact hne

/-- **NOT is the complement exactly on the frames that hold every field the tests of the filter come
to.**  A frame that is too short for them is kept by neither program. -/
theorem toolBpfCompile_complement {f : ToolBpfFilter} (hf : f.invert = false) {max : Nat}
    {insns insns' : List Insn} (hc : toolBpfCompile f max = .ok insns)
    (hc' : toolBpfCompile f.inverted max = .ok insns') (frame : List UByte) (wirelen : ULong)
    (h : frame.length < 2 ^ 32) :
    ((Accepts insns' frame wirelen h ↔ ¬Accepts insns frame wirelen h) ↔
      (f.answer frame).isSome = true) ∧
    (f.answer frame = none →
      ¬Accepts insns' frame wirelen h ∧ ¬Accepts insns frame wirelen h) := by
  have htests := tests_of_inverted hc'
  obtain ⟨hsnap, hkept⟩ := amiBpfFilter_of_compile htests hc frame wirelen h
  have hkept' := (amiBpfFilter_of_compile (f := f.inverted) htests hc' frame wirelen h).2
  have hreturns' : f.inverted.returns = (0, f.snaplen) := rfl
  have hanswer' : f.inverted.answer frame = f.answer frame := rfl
  rw [returns_of_not_invert hf] at hkept
  rw [hreturns', hanswer'] at hkept'
  rw [accepts_iff hkept, accepts_iff hkept', not_not]
  rcases f.answer frame with _ | _ | _
  · simp [Answer.keeps]
  · simpa [Answer.keeps] using hsnap
  · simpa [Answer.keeps] using hsnap

/-- The filter `tcp`. -/
def tcpFilter : ToolBpfFilter :=
  { proto := .tcp, haveHost := false, hostIsV6 := false, hostV4 := 0,
    hostV6 := Vector.replicate 16 0, havePort := false, port := 0, snaplen := 96, invert := false }

/-- A UDP packet over IPv4, of which the header is there up to the protocol. -/
def udpFrame : List UByte :=
  List.replicate 12 0 ++ [0x08, 0x00, 0x45] ++ List.replicate 8 0 ++ [17]

/-- The program of `tcpFilter`, with the values of its returns. -/
def tcpProgram (accept reject : ULong) : List Insn :=
  [⟨0x28, 0, 0, 12⟩, ⟨0x15, 2, 0, 0x0800⟩, ⟨0x15, 4, 0, 0x86dd⟩, ⟨0x15, 7, 7, 0x0806⟩,
    ⟨0x30, 0, 0, 23⟩, ⟨0x15, 0, 5, 6⟩, ⟨0x05, 0, 0, 3⟩,
    ⟨0x30, 0, 0, 20⟩, ⟨0x15, 0, 2, 6⟩, ⟨0x05, 0, 0, 0⟩,
    ⟨0x06, 0, 0, accept⟩, ⟨0x06, 0, 0, reject⟩]

theorem toolBpfCompile_complement_udp :
    (tcpFilter.answer udpFrame).isSome = true ∧
      (Accepts (tcpProgram 0 96) udpFrame 64 (by decide) ↔
        ¬Accepts (tcpProgram 96 0) udpFrame 64 (by decide)) := by
  have hanswer : (tcpFilter.answer udpFrame).isSome = true := by decide +kernel
  have hc : toolBpfCompile tcpFilter 64 = .ok (tcpProgram 96 0) := by decide +kernel
  have hc' : toolBpfCompile tcpFilter.inverted 64 = .ok (tcpProgram 0 96) := by decide +kernel
  exact ⟨hanswer, (toolBpfCompile_complement rfl hc hc' udpFrame 64 (by decide)).1.mpr hanswer⟩

/-- **A frame that both programs reject.**  It is an IPv4 frame that ends behind its ethertype. -/
theorem toolBpfCompile_both_reject :
    toolBpfCompile tcpFilter 64 = .ok (tcpProgram 96 0) ∧
      toolBpfCompile tcpFilter.inverted 64 = .ok (tcpProgram 0 96) ∧
      amiBpfFilter (some (tcpProgram 96 0)) (List.replicate 12 0 ++ [0x08, 0x00]) 14 (by decide) =
        .ok (some 0) ∧
      amiBpfFilter (some (tcpProgram 0 96)) (List.replicate 12 0 ++ [0x08, 0x00]) 14 (by decide) =
        .ok (some 0) := by
  refine ⟨?_, ?_, ?_, ?_⟩ <;> decide +kernel

end AmiNetXDuo.Bpf
