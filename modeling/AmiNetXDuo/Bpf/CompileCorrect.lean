import AmiNetXDuo.Bpf.Gates

/-!
# The filter compiler is correct

A compiled program passes the validator and keeps the snap length of exactly the frames that the
filter asks for, and a filter that the compiler calls impossible asks for no frame.

## Main definitions

* `Ip4Clause`, `Ip6Clause`, `ArpClause` : what the filter asks of a frame of each family.
* `ToolBpfFilter.returns` : the values of the two returns.

## Main results

* `matches_iff_of_ip4`, `matches_iff_of_ip6`, `matches_iff_of_arp` : the meaning of a filter, family
  by family.
* `answer_eq_true_iff` : the tests of a filter hold for the frames that match.
* `yields_compileBuild` : the code of a filter keeps what its tests say.
* `toolBpfCompile_correct` : validity and meaning of compiled programs, and of the refusal.
-/

namespace AmiNetXDuo.Bpf

/-! ### The clauses, family by family -/

/-- The protocol test of an IP branch, with the protocol number at `off`. -/
def ProtoTest (f : ToolBpfFilter) (frame : List UByte) (off : Nat) (icmp : ULong) : Prop :=
  match f.proto with
  | .tcp => fieldAt frame off 1 = some ipprotoTcp
  | .udp => fieldAt frame off 1 = some ipprotoUdp
  | .icmp => fieldAt frame off 1 = some icmp
  | _ => f.havePort = true →
      fieldAt frame off 1 = some ipprotoTcp ∨ fieldAt frame off 1 = some ipprotoUdp

/-- The port clause of the IPv4 branch. -/
def PortBehindHeader (frame : List UByte) (port : ULong) : Prop :=
  (∃ flags, fieldAt frame 20 2 = some flags ∧ flags &&& 0x1fff = 0) ∧
    ∃ vhl, fieldAt frame 14 1 = some vhl ∧ HasPortAt frame (14 + vhl.toNat % 16 * 4) port

/-- What the IPv4 branch tests. -/
def Ip4Clause (f : ToolBpfFilter) (frame : List UByte) : Prop :=
  ProtoTest f frame 23 ipprotoIcmp ∧
    (f.haveHost = true → fieldAt frame 26 4 = some f.hostV4 ∨ fieldAt frame 30 4 = some f.hostV4) ∧
    (f.havePort = true → PortBehindHeader frame f.port)

/-- What the IPv6 branch tests. -/
def Ip6Clause (f : ToolBpfFilter) (frame : List UByte) : Prop :=
  ProtoTest f frame 20 ipprotoIcmpv6 ∧
    (f.haveHost = true → BigEndian.window frame 22 16 = some f.hostV6.toList ∨
      BigEndian.window frame 38 16 = some f.hostV6.toList) ∧
    (f.havePort = true → HasPortAt frame 54 f.port)

/-- What the ARP branch tests. -/
def ArpClause (f : ToolBpfFilter) (frame : List UByte) : Prop :=
  f.haveHost = true → fieldAt frame 16 2 = some ethertypeIp ∧
    (fieldAt frame 28 4 = some f.hostV4 ∨ fieldAt frame 38 4 = some f.hostV4)

/-- The filter has something to test. -/
def ToolBpfFilter.Tests (f : ToolBpfFilter) : Prop :=
  ¬(f.proto = .any ∧ ¬f.haveHost = true ∧ ¬f.havePort = true)

theorem hasEtherType_iff {frame : List UByte} {s : ULong} (hs : HasEtherType frame s) (t : ULong) :
    HasEtherType frame t ↔ s = t :=
  ⟨hs.unique, fun h ↦ h ▸ hs⟩

/-- The meaning of a filter on an IPv4 frame: the truth table over what the filter asks for. -/
theorem matches_iff_of_ip4 {f : ToolBpfFilter} {frame : List UByte}
    (h : HasEtherType frame ethertypeIp)
    (hport : f.havePort = true → f.proto ≠ .icmp ∧ f.proto ≠ .arp) :
    Matches f frame ↔ f.useV4 = true ∧ Ip4Clause f frame := by
  have hip6 : ¬HasEtherType frame ethertypeIp6 := by simp [hasEtherType_iff h]; decide
  have harp : ¬HasEtherType frame ethertypeArp := by simp [hasEtherType_iff h]; decide
  unfold Matches ProtoClause HostClause PortClause Ip4Clause ProtoTest Carries HasHost4 HasHost6
    HasPort PortBehindHeader ToolBpfFilter.useV4
  simp only [h, hip6, harp, true_and, false_and, or_false]
  cases hproto : f.proto <;> cases hhost : f.haveHost <;> cases hv6 : f.hostIsV6 <;>
    cases hp : f.havePort <;> simp_all
  all_goals exact and_left_comm

/-- The meaning of a filter on an IPv6 frame. -/
theorem matches_iff_of_ip6 {f : ToolBpfFilter} {frame : List UByte}
    (h : HasEtherType frame ethertypeIp6)
    (hport : f.havePort = true → f.proto ≠ .icmp ∧ f.proto ≠ .arp) :
    Matches f frame ↔ f.useV6 = true ∧ Ip6Clause f frame := by
  have hip : ¬HasEtherType frame ethertypeIp := by simp [hasEtherType_iff h]; decide
  have harp : ¬HasEtherType frame ethertypeArp := by simp [hasEtherType_iff h]; decide
  unfold Matches ProtoClause HostClause PortClause Ip6Clause ProtoTest Carries HasHost4 HasHost6
    HasPort ToolBpfFilter.useV6
  simp only [h, hip, harp, true_and, false_and, false_or]
  cases hproto : f.proto <;> cases hhost : f.haveHost <;> cases hv6 : f.hostIsV6 <;>
    cases hp : f.havePort <;> simp_all
  all_goals exact and_left_comm

/-- The meaning of a filter on an ARP frame. -/
theorem matches_iff_of_arp {f : ToolBpfFilter} {frame : List UByte}
    (h : HasEtherType frame ethertypeArp) :
    Matches f frame ↔ f.useArp = true ∧ ArpClause f frame := by
  have hip : ¬HasEtherType frame ethertypeIp := by simp [hasEtherType_iff h]; decide
  have hip6 : ¬HasEtherType frame ethertypeIp6 := by simp [hasEtherType_iff h]; decide
  unfold Matches ProtoClause HostClause PortClause ArpClause Carries HasHost4 HasHost6 HasPort
    ToolBpfFilter.useArp
  simp only [h, hip, hip6, true_and, false_and, false_or]
  cases hproto : f.proto <;> cases hhost : f.haveHost <;> cases hv6 : f.hostIsV6 <;>
    cases hp : f.havePort <;> simp_all

/-- A filter that tests something asks only for frames of the three families. -/
theorem hasEtherType_of_matches {f : ToolBpfFilter} {frame : List UByte} (htests : f.Tests)
    (h : Matches f frame) :
    HasEtherType frame ethertypeIp ∨ HasEtherType frame ethertypeIp6 ∨
      HasEtherType frame ethertypeArp := by
  obtain ⟨hproto, hhost, hport⟩ := h
  by_contra hnone
  simp only [not_or] at hnone
  obtain ⟨hip, hip6, harp⟩ := hnone
  refine htests ⟨?_, fun hh ↦ ?_, fun hp ↦ ?_⟩
  · cases hf : f.proto <;> simp_all [ProtoClause, Carries]
  · have := hhost hh
    split_ifs at this <;> simp_all [HasHost6, HasHost4]
  · have := hport hp
    simp_all [HasPort]

/-! ### The tests and the clauses -/

section Answers

variable {f : ToolBpfFilter} {frame : List UByte}

theorem protoAnswer_eq_true {off : Nat} {icmp : ULong} :
    f.protoAnswer frame off icmp = some true ↔ ProtoTest f frame off icmp := by
  unfold ToolBpfFilter.protoAnswer ProtoTest
  cases f.proto <;> simp

theorem portBehind_eq_true {port : ULong} :
    portBehind frame port = some true ↔ PortBehindHeader frame port := by
  simp [portBehind, PortBehindHeader, HasPortAt, eitherIs_eq_true, Option.bind_eq_some_iff]

/-- A frame that is too short for the source is too short for the destination. -/
theorem wordsAre_eq_none {host : Vector UByte 16} (h : wordsAre frame 22 host = none) :
    wordsAre frame 38 host = none := by
  have hshort : frame.length < 38 := by
    by_contra hlen
    have hfield (off : Nat) (hoff : off + 4 ≤ 38) (k : ULong) :
        ∃ v, fieldIs frame off 4 k = some v := by
      rw [fieldIs, fieldAt, BigEndian.window_of_le (by omega)]
      exact ⟨_, rfl⟩
    obtain ⟨v₀, h₀⟩ := hfield 22 (by decide) (toolBpfV6Word host 0)
    obtain ⟨v₁, h₁⟩ := hfield 26 (by decide) (toolBpfV6Word host 1)
    obtain ⟨v₂, h₂⟩ := hfield 30 (by decide) (toolBpfV6Word host 2)
    obtain ⟨v₃, h₃⟩ := hfield 34 (by decide) (toolBpfV6Word host 3)
    simp only [wordsAre_eq, h₀, h₁, h₂, h₃] at h
    revert h
    cases v₀ <;> cases v₁ <;> cases v₂ <;> simp [Answer.and]
  rw [wordsAre_eq, fieldIs, fieldAt, BigEndian.window_of_lt (by omega)]
  rfl

theorem ip4Answer_eq_true : f.ip4Answer frame = some true ↔ Ip4Clause f frame := by
  simp [ToolBpfFilter.ip4Answer, Ip4Clause, protoAnswer_eq_true, portBehind_eq_true,
    eitherIs_eq_true]

theorem ip6Answer_eq_true : f.ip6Answer frame = some true ↔ Ip6Clause f frame := by
  simp [ToolBpfFilter.ip6Answer, Ip6Clause, HasPortAt, protoAnswer_eq_true, eitherIs_eq_true,
    Answer.or_eq_true wordsAre_eq_none, wordsAre_eq_true]

theorem arpAnswer_eq_true : f.arpAnswer frame = some true ↔ ArpClause f frame := by
  simp [ToolBpfFilter.arpAnswer, ArpClause, eitherIs_eq_true]

/-- **The tests of a filter hold for the frames that it asks for.** -/
theorem answer_eq_true_iff (htests : f.Tests)
    (hport : f.havePort = true → f.proto ≠ .icmp ∧ f.proto ≠ .arp) :
    f.answer frame = some true ↔ Matches f frame := by
  have hused {use : Bool} {a : Answer} {C : Prop} (ha : a = some true ↔ C) :
      (if use then a else some false) = some true ↔ use = true ∧ C := by
    cases use <;> simp [ha]
  have hne : ethertypeIp6 ≠ ethertypeIp ∧ ethertypeArp ≠ ethertypeIp ∧
    ethertypeArp ≠ ethertypeIp6 := by decide
  by_cases hip : HasEtherType frame ethertypeIp
  · rw [matches_iff_of_ip4 hip hport, ToolBpfFilter.answer, show fieldAt frame 12 2 = _ from hip,
      Option.bind_some, if_pos rfl, hused ip4Answer_eq_true]
  by_cases hip6 : HasEtherType frame ethertypeIp6
  · rw [matches_iff_of_ip6 hip6 hport, ToolBpfFilter.answer, show fieldAt frame 12 2 = _ from hip6,
      Option.bind_some, if_neg hne.1, if_pos rfl, hused ip6Answer_eq_true]
  by_cases harp : HasEtherType frame ethertypeArp
  · rw [matches_iff_of_arp harp, ToolBpfFilter.answer, show fieldAt frame 12 2 = _ from harp,
      Option.bind_some, if_neg hne.2.1, if_neg hne.2.2, if_pos rfl, hused arpAnswer_eq_true]
  · refine iff_of_false (fun h ↦ ?_) fun h ↦ ?_
    · obtain ⟨type, htype, hanswer⟩ := Option.bind_eq_some_iff.mp h
      have hother {t : ULong} (ht : ¬HasEtherType frame t) : type ≠ t := by
        rintro rfl
        exact ht htype
      rw [if_neg (hother hip), if_neg (hother hip6), if_neg (hother harp)] at hanswer
      cases hanswer
    · rcases hasEtherType_of_matches htests h with ht | ht | ht
      exacts [hip ht, hip6 ht, harp ht]

end Answers

/-! ### The branches -/

section Branches

variable {F : ToolBpfBuild} {ops : List Op} {packet : Packet} {frame : List UByte}
  {wirelen : ULong} {reject : Nat} {g g' : ToolBpfBuild → ToolBpfBuild} {C D : Answer}

/-- One gate behind the other. -/
theorem Tests.comp (hg' : Gate g') (h : Tests F ops packet reject g C)
    (h' : Tests F ops packet reject g' D) :
    Tests F ops packet reject (fun b ↦ g' (g b)) (C.and D) := by
  intro b w u hg hnext hrej
  rw [Answer.keeps_and]
  exact h (hg'.grows hg) (h' hg hnext hrej) hrej

/-- A gate that is there only when the filter asks for it. -/
theorem Tests.optional {c : Bool} (h : Tests F ops packet reject g C) :
    Tests F ops packet reject (fun b ↦ if c then g b else b) (.when c C) := by
  cases c with
  | true => exact h
  | false => exact fun _ _ _ _ hnext _ ↦ hnext

theorem gate_gateProtoOf (f : ToolBpfFilter) (reject off : Nat) (icmp : ULong) :
    Gate (gateProtoOf f reject off icmp) := by
  unfold gateProtoOf
  cases f.proto
  case tcp | udp | icmp => exact gate_toolBpfGateProto ..
  all_goals exact (gate_toolBpfGateProto ..).ite .id

/-- The switch on the protocol. -/
theorem Linked.tests_gateProtoOf (hlink : Linked F ops) {f : ToolBpfFilter} {off : Nat}
    {icmp : ULong} (hoff : off < 2 ^ 32) :
    Tests F ops ⟨wirelen, frame⟩ reject (gateProtoOf f reject off icmp)
      (f.protoAnswer frame off icmp) := by
  unfold gateProtoOf ToolBpfFilter.protoAnswer
  cases f.proto
  case tcp | udp | icmp => exact hlink.tests_gateProto_want hoff
  all_goals exact (hlink.tests_gateProto_any hoff).optional

/-- An IP branch behind its label: the protocol gate, the gates for host and port where the filter
asks for them, and the jump to the accept label. -/
def codeIp (f : ToolBpfFilter) (accept reject off : Nat) (icmp : ULong)
    (host port : ToolBpfBuild → ToolBpfBuild) (b : ToolBpfBuild) : ToolBpfBuild :=
  let b := gateProtoOf f reject off icmp b
  let b := if f.haveHost then host b else b
  let b := if f.havePort then port b else b
  ja accept b

variable {host port : ToolBpfBuild → ToolBpfBuild} {f : ToolBpfFilter} {accept off : Nat}
  {icmp : ULong}

theorem gate_codeIp (hhost : Gate host) (hport : Gate port) :
    Gate (codeIp f accept reject off icmp host port) := by
  have hproto := gate_gateProtoOf f reject off icmp
  have hhost := hhost.ite (c := f.haveHost = true) .id
  have hport := hport.ite (c := f.havePort = true) .id
  exact ⟨fun h ↦ hproto.grows (hhost.grows (hport.grows ((gate_ja accept).grows h))),
    fun h ↦ (gate_ja accept).fresh (hport.fresh (hhost.fresh (hproto.fresh h)))⟩

/-- **A branch that decides.**  It keeps what its answer says, where the code at the accept label
keeps `w` bytes and the code at the reject label `u`. -/
def Decides (F : ToolBpfBuild) (ops : List Op) (packet : Packet) (accept reject : Nat)
    (c : ToolBpfBuild → ToolBpfBuild) (C : Answer) : Prop :=
  ∀ ⦃b w u⦄, Grows F (c b) → (∀ i, YieldsAt F ops packet (fun _ ↦ True) i (some accept) w) →
    Rejects F ops packet reject u → Yields ops packet (fun _ ↦ True) b.n (C.keeps w u)

/-- Behind its tests a branch jumps to the accept label. -/
theorem Linked.decides (hlink : Linked F ops) (h : Tests F ops packet reject g C) :
    Decides F ops packet accept reject (fun b ↦ ja accept (g b)) C :=
  fun _ _ _ hg hacc hrej ↦ h ((gate_ja accept).grows hg)
    (hlink.yields_ja (hg.emitted hlink.overflow) (hacc _)) hrej

/-- An IP branch tests the protocol, the host and the port. -/
theorem Linked.decides_codeIp (hlink : Linked F ops) (hoff : off < 2 ^ 32) (hhost : Gate host)
    (hport : Gate port) (hostC : Tests F ops ⟨wirelen, frame⟩ reject host C)
    (portC : Tests F ops ⟨wirelen, frame⟩ reject port D) :
    Decides F ops ⟨wirelen, frame⟩ accept reject (codeIp f accept reject off icmp host port)
      ((f.protoAnswer frame off icmp).and ((Answer.when f.haveHost C).and
        (.when f.havePort D))) := by
  have hport := hport.ite (c := f.havePort = true) .id
  have hhost := hhost.ite (c := f.haveHost = true) .id
  have hgates := (hostC.optional (c := f.haveHost)).comp hport portC.optional
  exact hlink.decides ((hlink.tests_gateProtoOf hoff).comp (hhost.comp hport) hgates)

/-- The host gate of the ARP branch: an ARP about IPv4, and the address in one of its places. -/
def arpHost (f : ToolBpfFilter) (reject : Nat) (b : ToolBpfBuild) : ToolBpfBuild :=
  toolBpfGateHost4 reject f.hostV4 28 38 (jeq ethertypeIp none (some reject) (ldAbs 0x28 16 b))

theorem gate_arpHost : Gate (arpHost f reject) where
  grows h := (gate_test (by simp [toolCodes]) _ _ _ _).grows
    ((gate_toolBpfGateHost4 reject f.hostV4 28 38).grows h)
  fresh h := (gate_toolBpfGateHost4 reject f.hostV4 28 38).fresh
    ((gate_test (by simp [toolCodes]) _ _ _ _).fresh h)

theorem Linked.tests_arpHost (hlink : Linked F ops) :
    Tests F ops ⟨wirelen, frame⟩ reject (arpHost f reject)
      ((fieldIs frame 16 2 ethertypeIp).and (eitherIs frame 28 38 4 f.hostV4)) := by
  have htype : Tests F ops ⟨wirelen, frame⟩ reject _ (fieldIs frame 16 2 ethertypeIp) :=
    hlink.tests_field isLoad_ldh (by decide)
  have hhost : Tests F ops ⟨wirelen, frame⟩ reject _ (eitherIs frame 28 38 4 f.hostV4) :=
    hlink.tests_gateHost4 (by decide) (by decide)
  have hboth := htype.comp (gate_toolBpfGateHost4 ..) hhost
  exact hboth

/-- The ARP branch behind its label. -/
def codeArp (f : ToolBpfFilter) (accept reject : Nat) (b : ToolBpfBuild) : ToolBpfBuild :=
  ja accept (if f.haveHost then arpHost f reject b else b)

theorem gate_codeArp : Gate (codeArp f accept reject) :=
  have hhost := gate_arpHost.ite (c := f.haveHost = true) .id
  ⟨fun h ↦ hhost.grows ((gate_ja accept).grows h),
    fun h ↦ (gate_ja accept).fresh (hhost.fresh h)⟩

theorem Linked.decides_codeArp (hlink : Linked F ops) :
    Decides F ops ⟨wirelen, frame⟩ accept reject (codeArp f accept reject) (f.arpAnswer frame) :=
  hlink.decides hlink.tests_arpHost.optional

end Branches

/-! ### The whole program -/

/-- The builder with the labels accept, reject, IPv4, IPv6 and ARP. -/
def ToolBpfBuild.start (max : Nat) : ToolBpfBuild :=
  ⟨max, [], [none, none, none, none, none], false⟩

@[simp] theorem ToolBpfBuild.start_n (max : Nat) : (ToolBpfBuild.start max).n = 0 := rfl

/-- The dispatch on the ethertype. -/
def dispatch (t4 t6 tArp : Nat) (b : ToolBpfBuild) : ToolBpfBuild :=
  jeq ethertypeArp (some tArp) (some 1) (jeq ethertypeIp6 (some t6) none
    (jeq ethertypeIp (some t4) none (ldAbs 0x28 12 b)))

/-- A branch with its label, when the filter uses it. -/
def arm (use : Bool) (l : Nat) (code : ToolBpfBuild → ToolBpfBuild) (b : ToolBpfBuild) :
    ToolBpfBuild :=
  if use then code (toolBpfPlace l b) else b

def codeV4 (f : ToolBpfFilter) : ToolBpfBuild → ToolBpfBuild :=
  codeIp f 0 1 23 ipprotoIcmp (toolBpfGateHost4 1 f.hostV4 26 30) (toolBpfGatePort4 1 f.port)

def codeV6 (f : ToolBpfFilter) : ToolBpfBuild → ToolBpfBuild :=
  codeIp f 0 1 20 ipprotoIcmpv6 (toolBpfGateHost6 1 f.hostV6) (toolBpfGatePort6 1 f.port)

/-- The values of the two returns. -/
def ToolBpfFilter.returns (f : ToolBpfFilter) : ULong × ULong :=
  if f.invert then (0, f.snaplen) else (f.snaplen, 0)

theorem returns_of_not_invert {f : ToolBpfFilter} (h : f.invert = false) :
    f.returns = (f.snaplen, 0) :=
  if_neg (by rw [h]; exact Bool.false_ne_true)

/-- The two returns. -/
def finish (f : ToolBpfFilter) (b : ToolBpfBuild) : ToolBpfBuild :=
  ret (if f.invert then f.snaplen else 0) (toolBpfPlace 1
    (ret (if f.invert then 0 else f.snaplen) (toolBpfPlace 0 b)))

/-- The builder behind the dispatch. -/
def stage₁ (f : ToolBpfFilter) (max : Nat) : ToolBpfBuild :=
  dispatch (if f.useV4 then 2 else 1) (if f.useV6 then 3 else 1) (if f.useArp then 4 else 1)
    (.start max)

/-- The builder behind the IPv4 branch. -/
def stage₂ (f : ToolBpfFilter) (max : Nat) : ToolBpfBuild :=
  arm f.useV4 2 (codeV4 f) (stage₁ f max)

/-- The builder behind the IPv6 branch. -/
def stage₃ (f : ToolBpfFilter) (max : Nat) : ToolBpfBuild :=
  arm f.useV6 3 (codeV6 f) (stage₂ f max)

/-- The builder behind the ARP branch. -/
def stage₄ (f : ToolBpfFilter) (max : Nat) : ToolBpfBuild :=
  arm f.useArp 4 (codeArp f 0 1) (stage₃ f max)

theorem compileBuild_eq (f : ToolBpfFilter) (max : Nat) :
    compileBuild f (.empty max) = finish f (stage₄ f max) := rfl

section Program

variable {F b : ToolBpfBuild} {ops : List Op} {frame : List UByte} {wirelen w u : ULong}
  {f : ToolBpfFilter} {C : Answer}

theorem gate_codeV4 : Gate (codeV4 f) :=
  gate_codeIp (gate_toolBpfGateHost4 ..) (gate_toolBpfGatePort4 ..)

theorem gate_codeV6 : Gate (codeV6 f) :=
  gate_codeIp (gate_toolBpfGateHost6 ..) (gate_toolBpfGatePort6 ..)

theorem grows_of_arm {use : Bool} {l : Nat} {code : ToolBpfBuild → ToolBpfBuild}
    (hcode : Gate code) (hl : Fresh l b) (h : Grows F (arm use l code b)) : Grows F b := by
  unfold arm at h
  split_ifs at h
  · exact .place l hl (hcode.grows h)
  · exact h

theorem fresh_arm {use : Bool} {l l' : Nat} {code : ToolBpfBuild → ToolBpfBuild}
    (hcode : Gate code) (hne : l ≠ l') (h : Fresh l' b) : Fresh l' (arm use l code b) := by
  unfold arm
  split_ifs
  · exact hcode.fresh (h.place fun _ ↦ hne)
  · exact h

theorem gate_dispatch (t4 t6 tArp : Nat) : Gate (dispatch t4 t6 tArp) where
  grows h := (gate_test (by simp [toolCodes]) _ _ _ _).grows ((gate_jeq _ _ _).grows
    ((gate_jeq _ _ _).grows h))
  fresh h := (gate_jeq _ _ _).fresh ((gate_jeq _ _ _).fresh
    ((gate_test (by simp [toolCodes]) _ _ _ _).fresh h))

/-- The target of the dispatch for a branch: the branch when the filter uses it, else the reject
label. -/
theorem Linked.yieldsAt_arm (hlink : Linked F ops) {use : Bool} {l i : Nat}
    {c : ToolBpfBuild → ToolBpfBuild} (hcode : Gate c) (hl : Fresh l b)
    (hg : Grows F (arm use l c b)) (hrej : Rejects F ops ⟨wirelen, frame⟩ 1 u)
    (hacc : ∀ i, YieldsAt F ops ⟨wirelen, frame⟩ (fun _ ↦ True) i (some 0) w)
    (hc : Decides F ops ⟨wirelen, frame⟩ 0 1 c C) :
    YieldsAt F ops ⟨wirelen, frame⟩ (fun _ ↦ True) i (some (if use then l else 1))
      (Answer.keeps (if use then C else some false) w u) := by
  cases use with
  | false => exact hrej _ _
  | true =>
      have hplace : Grows F (toolBpfPlace l b) := hcode.grows hg
      have hbranch := hc hg hacc hrej
      rw [toolBpfPlace_n] at hbranch
      exact hlink.yieldsAt_placed hplace hl hbranch

/-- What the dispatch keeps. -/
theorem Linked.yields_dispatch (hlink : Linked F ops) {t4 t6 tArp : Nat} {w4 w6 wArp : ULong}
    (hg : Grows F (dispatch t4 t6 tArp b)) (hrej : Rejects F ops ⟨wirelen, frame⟩ 1 u)
    (h4 : ∀ i, YieldsAt F ops ⟨wirelen, frame⟩ (fun _ ↦ True) i (some t4) w4)
    (h6 : ∀ i, YieldsAt F ops ⟨wirelen, frame⟩ (fun _ ↦ True) i (some t6) w6)
    (hArp : ∀ i, YieldsAt F ops ⟨wirelen, frame⟩ (fun _ ↦ True) i (some tArp) wArp) :
    Yields ops ⟨wirelen, frame⟩ (fun _ ↦ True) b.n
      (match fieldAt frame 12 2 with
        | none => 0
        | some type =>
            if type = ethertypeIp then w4 else if type = ethertypeIp6 then w6
            else if type = ethertypeArp then wArp else u) := by
  have hg₃ := (gate_jeq ethertypeArp (some tArp) (some 1)).grows hg
  have hg₂ := (gate_jeq ethertypeIp6 (some t6) none).grows hg₃
  have hg₁ := (gate_jeq ethertypeIp (some t4) none).grows hg₂
  have hn₁ : (ldAbs 0x28 12 b).n = _ := hg₁.n_toolBpfEmit hlink.overflow
  have hn₂ : (jeq ethertypeIp (some t4) none (ldAbs 0x28 12 b)).n = _ :=
    hg₂.n_toolBpfEmit hlink.overflow
  have hn₃ : (jeq ethertypeIp6 (some t6) none (jeq ethertypeIp (some t4) none
      (ldAbs 0x28 12 b))).n = _ := hg₃.n_toolBpfEmit hlink.overflow
  have hjmp₁ := hg₂.emitted hlink.overflow
  have hjmp₂ := hg₃.emitted hlink.overflow
  have hjmp₃ := hg.emitted hlink.overflow
  rw [hn₁] at hn₂ hjmp₁
  rw [hn₂] at hn₃ hjmp₂
  rw [hn₃] at hjmp₃
  have hbranch {i : Nat} {k wt wf : ULong} {t t' : Target} {r : Regs}
      (he : F.out[i]? = some ⟨0x15, k, t, t'⟩)
      (ht : ResultAt F ops ⟨wirelen, frame⟩ r i t wt)
      (hf : ResultAt F ops ⟨wirelen, frame⟩ r i t' wf) :=
    hlink.branch_at he isBranch_jeq.1.2.1 isBranch_jeq.1.2.2
      (fun jt jf ↦ isBranch_jeq.2 jt jf k) ht hf
  intro r _
  rw [hlink.exec_ldAbs (hg₁.emitted hlink.overflow) isLoad_ldh.1 isLoad_ldh.2 (by decide)]
  rw [show Packet.load ⟨wirelen, frame⟩ 12 Width.half.bytes = fieldAt frame 12 2 from rfl]
  cases fieldAt frame 12 2 with
  | none => rfl
  | some type =>
      let r' : Regs := { r with a := type }
      have h₃ := hbranch hjmp₃ (r := r') ((hArp _).resultAt trivial)
        ((hrej (fun _ ↦ True) _).resultAt trivial)
      have h₂ := hbranch hjmp₂ (r := r') ((h6 _).resultAt trivial) ⟨_, rfl, h₃⟩
      have h₁ := hbranch hjmp₁ (r := r') ((h4 _).resultAt trivial) ⟨_, rfl, h₂⟩
      simpa [Cond.holds] using h₁

section Stages

variable (f : ToolBpfFilter) (max : Nat)

theorem fresh_stage₁ {l : Nat} (hl : l < 5) : Fresh l (stage₁ f max) := by
  refine (gate_dispatch ..).fresh fun _ ↦ ?_
  obtain rfl | rfl | rfl | rfl | rfl : l = 0 ∨ l = 1 ∨ l = 2 ∨ l = 3 ∨ l = 4 := by omega
  all_goals rfl

theorem fresh_stage₂ {l : Nat} (hl : l < 5) (hne : 2 ≠ l) : Fresh l (stage₂ f max) :=
  fresh_arm gate_codeV4 hne (fresh_stage₁ f max hl)

theorem fresh_stage₃ {l : Nat} (hl : l < 5) (hne : 2 ≠ l ∧ 3 ≠ l) : Fresh l (stage₃ f max) :=
  fresh_arm gate_codeV6 hne.2 (fresh_stage₂ f max hl hne.1)

theorem fresh_stage₄ {l : Nat} (hl : l < 2) : Fresh l (stage₄ f max) :=
  fresh_arm gate_codeArp (by omega) (fresh_stage₃ f max (by omega) (by omega))

/-- The reject label still waits when the accept label has its place and its return. -/
theorem fresh_reject (k : ULong) : Fresh 1 (ret k (toolBpfPlace 0 (stage₄ f max))) :=
  (gate_ret k).fresh ((fresh_stage₄ f max (by decide)).place fun _ ↦ by decide)

variable {f max}

theorem grows_stage₄ (h : Grows F (finish f (stage₄ f max))) : Grows F (stage₄ f max) :=
  .place 0 (fresh_stage₄ f max (by decide)) ((gate_ret _).grows
    (.place 1 (fresh_reject f max _) ((gate_ret _).grows h)))

theorem grows_stage₃ (h : Grows F (stage₄ f max)) : Grows F (stage₃ f max) :=
  grows_of_arm gate_codeArp (fresh_stage₃ f max (by decide) (by decide)) h

theorem grows_stage₂ (h : Grows F (stage₃ f max)) : Grows F (stage₂ f max) :=
  grows_of_arm gate_codeV6 (fresh_stage₂ f max (by decide) (by decide)) h

theorem grows_stage₁ (h : Grows F (stage₂ f max)) : Grows F (stage₁ f max) :=
  grows_of_arm gate_codeV4 (fresh_stage₁ f max (by decide)) h

end Stages

/-- The code at the reject label. -/
theorem Linked.rejects {max : Nat} (hlink : Linked (finish f (stage₄ f max)) ops) :
    Rejects (finish f (stage₄ f max)) ops ⟨wirelen, frame⟩ 1 f.returns.2 := by
  intro P i
  have hret := (Grows.refl (F := finish f (stage₄ f max))).emitted hlink.overflow
  have hyield : Yields ops ⟨wirelen, frame⟩ P _ _ := hlink.yields_ret hret
  have hkeep : (if f.invert = true then f.snaplen else 0) = f.returns.2 := by
    rw [ToolBpfFilter.returns]
    split <;> rfl
  rw [hkeep] at hyield
  exact hlink.yieldsAt_placed ((gate_ret _).grows .refl) (fresh_reject f max _) hyield

/-- The code at the accept label. -/
theorem Linked.accepts {max : Nat} (hlink : Linked (finish f (stage₄ f max)) ops) (i : Nat) :
    YieldsAt (finish f (stage₄ f max)) ops ⟨wirelen, frame⟩ (fun _ ↦ True) i (some 0)
      f.returns.1 := by
  have hg := Grows.place 1 (fresh_reject f max _) ((gate_ret _).grows
    (.refl (F := finish f (stage₄ f max))))
  have hyield : Yields ops ⟨wirelen, frame⟩ (fun _ ↦ True) _ _ :=
    hlink.yields_ret (hg.emitted hlink.overflow)
  have hkeep : (if f.invert = true then 0 else f.snaplen) = f.returns.1 := by
    rw [ToolBpfFilter.returns]
    split <;> rfl
  rw [hkeep] at hyield
  exact hlink.yieldsAt_placed ((gate_ret _).grows hg) (fresh_stage₄ f max (by decide)) hyield

theorem Linked.decides_codeV4 (hlink : Linked F ops) :
    Decides F ops ⟨wirelen, frame⟩ 0 1 (codeV4 f) (f.ip4Answer frame) :=
  hlink.decides_codeIp (by decide) (gate_toolBpfGateHost4 ..) (gate_toolBpfGatePort4 ..)
    (hlink.tests_gateHost4 (by decide) (by decide)) hlink.tests_gatePort4

theorem Linked.decides_codeV6 (hlink : Linked F ops) :
    Decides F ops ⟨wirelen, frame⟩ 0 1 (codeV6 f) (f.ip6Answer frame) :=
  hlink.decides_codeIp (by decide) (gate_toolBpfGateHost6 ..) (gate_toolBpfGatePort6 ..)
    hlink.tests_gateHost6 hlink.tests_gatePort6

/-- **The code of a filter** keeps what the tests of the filter say. -/
theorem yields_compileBuild {max : Nat} (hlink : Linked (compileBuild f (.empty max)) ops) :
    Yields ops ⟨wirelen, frame⟩ (fun _ ↦ True) 0
      ((f.answer frame).keeps f.returns.1 f.returns.2) := by
  rw [compileBuild_eq] at hlink
  have hrej : Rejects _ ops ⟨wirelen, frame⟩ 1 _ := hlink.rejects
  have hacc (i : Nat) : YieldsAt _ ops ⟨wirelen, frame⟩ _ i _ _ := hlink.accepts i
  have hg₄ : Grows (finish f (stage₄ f max)) (stage₄ f max) := grows_stage₄ .refl
  have hg₃ := grows_stage₃ hg₄
  have hg₂ := grows_stage₂ hg₃
  have harp (i : Nat) := hlink.yieldsAt_arm (i := i) (b := stage₃ f max)
    (c := codeArp f 0 1) gate_codeArp (fresh_stage₃ f max (l := 4) (by decide) (by decide)) hg₄
    hrej hacc hlink.decides_codeArp
  have h6 (i : Nat) := hlink.yieldsAt_arm (i := i) (b := stage₂ f max)
    (c := codeV6 f) gate_codeV6 (fresh_stage₂ f max (l := 3) (by decide) (by decide)) hg₃ hrej
    hacc hlink.decides_codeV6
  have h4 (i : Nat) := hlink.yieldsAt_arm (i := i) (b := stage₁ f max)
    (c := codeV4 f) gate_codeV4 (fresh_stage₁ f max (l := 2) (by decide)) hg₂ hrej
    hacc hlink.decides_codeV4
  have hall := hlink.yields_dispatch (grows_stage₁ hg₂) hrej h4 h6 harp
  convert hall using 1
  · exact (ToolBpfBuild.start_n max).symm
  · rw [ToolBpfFilter.answer]
    cases fieldAt frame 12 2 with
    | none => rfl
    | some type =>
      dsimp only [Option.bind_some]
      split_ifs <;> rfl

end Program

/-! ### Compiled programs -/

theorem shape_start (max : Nat) : Shape (.start max) where
  codes e he := by cases he
  fits := ⟨Nat.zero_le _, Nat.zero_le _⟩
  labels l p hp := by
    have hmem := List.mem_of_getElem? hp
    simp [ToolBpfBuild.start] at hmem

theorem grows_start {F : ToolBpfBuild} {f : ToolBpfFilter} {max : Nat}
    (h : Grows F (stage₄ f max)) : Grows F (.start max) :=
  (gate_dispatch ..).grows (grows_stage₁ (grows_stage₂ (grows_stage₃ h)))

/-- **A compiled program fits its buffer and passes the validator.** -/
theorem amiBpfValidate_of_compileBuild {f : ToolBpfFilter} {max : Nat} {insns : List Insn}
    (hoverflow : (compileBuild f (.empty max)).overflow = false)
    (hfix : toolBpfFixup (compileBuild f (.empty max)) = some insns) :
    insns.length ≤ max ∧ amiBpfValidate (some insns) = 0 ∧
      ∃ ops, Accepted insns ops ∧ Linked (compileBuild f (.empty max)) ops := by
  rw [compileBuild_eq] at hoverflow hfix ⊢
  -- the builder before the last return, which every label precedes
  have hbody (F : ToolBpfBuild) (h : Grows F (toolBpfPlace 1
      (ret (if f.invert then 0 else f.snaplen) (toolBpfPlace 0 (stage₄ f max))))) :
      Grows F (.start max) :=
    grows_start (.place 0 (fresh_stage₄ f max (by decide)) ((gate_ret _).grows
      (.place 1 (fresh_reject f max _) h)))
  unfold finish at hoverflow hfix ⊢
  generalize toolBpfPlace 1 (ret (if f.invert then 0 else f.snaplen)
    (toolBpfPlace 0 (stage₄ f max))) = body at hoverflow hfix hbody ⊢
  have hgrows := hbody _ ((gate_ret (if f.invert then f.snaplen else 0)).grows .refl)
  have hshape := Shape.of_grows hgrows hoverflow (shape_start max)
  obtain ⟨hlabels, hlast⟩ :=
    (Shape.of_grows (hbody _ .refl) ((gate_ret _).overflow_eq_false hoverflow)
      (shape_start max)).ret hoverflow
  obtain ⟨hvalid, hlen⟩ := amiBpfValidate_of_shape hshape hlabels hlast hfix
  obtain ⟨ops, hops⟩ := exists_accepted_of_amiBpfValidate hvalid
  refine ⟨?_, hvalid, ops, hops, hoverflow, hshape, insns, hfix, hops.decoded⟩
  rw [hlen]
  exact hshape.fits.1.trans_eq (hgrows.max_eq hoverflow)

/-- What the interpreter returns for an accepted program whose meaning is known. -/
theorem amiBpfFilter_of_yields {insns : List Insn} {ops : List Op} {frame : List UByte}
    {wirelen w : ULong} (hops : Accepted insns ops)
    (hyield : Yields ops ⟨wirelen, frame⟩ (fun _ ↦ True) 0 w) (h : frame.length < 2 ^ 32) :
    amiBpfFilter (some insns) frame wirelen h = .ok (some w) := by
  obtain ⟨v, hexec, -, hfilter⟩ := amiBpfFilterView_of_accepted hops (View.linear frame wirelen h)
  have hpacket : (View.linear frame wirelen h).packet = ⟨wirelen, frame⟩ := by
    have hlen : frame.length % 4294967296 = frame.length := Nat.mod_eq_of_lt h
    simp [View.packet, View.linear, hlen]
  have hv := hyield Machine.init.toRegs trivial
  rw [← hpacket, hexec, Option.map_some, Option.some.injEq] at hv
  rw [amiBpfFilter, hfilter, hv]

/-- The filter without a clause keeps every frame. -/
theorem matches_of_trivial {f : ToolBpfFilter} (hproto : f.proto = .any)
    (hhost : f.haveHost = false) (hport : f.havePort = false) (frame : List UByte) :
    Matches f frame := by
  simp [Matches, ProtoClause, HostClause, PortClause, hproto, hhost, hport]

theorem not_matches_of_port {f : ToolBpfFilter} (hport : f.havePort = true)
    (hproto : f.proto = .icmp ∨ f.proto = .arp) (frame : List UByte) : ¬Matches f frame := by
  rintro ⟨hclause, -, hports⟩
  have hne : ethertypeIp6 ≠ ethertypeIp ∧ ethertypeIp ≠ ethertypeIp6 ∧
    ethertypeIp ≠ ethertypeArp ∧ ethertypeIp6 ≠ ethertypeArp := by decide
  have hnum : ipprotoIcmp ≠ ipprotoTcp ∧ ipprotoIcmp ≠ ipprotoUdp ∧
    ipprotoIcmpv6 ≠ ipprotoTcp ∧ ipprotoIcmpv6 ≠ ipprotoUdp := by decide
  rcases hproto with hproto | hproto <;> rcases hports hport with ⟨ht, hp, -⟩ | ⟨ht, hp, -⟩ <;>
    simp_all [ProtoClause, Carries, hasEtherType_iff ht]

theorem not_matches_of_unused {f : ToolBpfFilter} (htests : f.Tests)
    (hport : f.havePort = true → f.proto ≠ .icmp ∧ f.proto ≠ .arp) (h4 : f.useV4 = false)
    (h6 : f.useV6 = false) (harp : f.useArp = false) (frame : List UByte) : ¬Matches f frame := by
  intro h
  rcases hasEtherType_of_matches htests h with ht | ht | ht
  · exact Bool.false_ne_true (h4 ▸ ((matches_iff_of_ip4 ht hport).mp h).1)
  · exact Bool.false_ne_true (h6 ▸ ((matches_iff_of_ip6 ht hport).mp h).1)
  · exact Bool.false_ne_true (harp ▸ ((matches_iff_of_arp ht).mp h).1)

/-- What it takes for the compiler to produce a program. -/
theorem toolBpfCompile_eq_ok {f : ToolBpfFilter} {max : Nat} {insns : List Insn}
    (h : toolBpfCompile f max = .ok insns) :
    0 < max ∧ f.snaplen ≠ 0 ∧
      ((f.proto = .any ∧ f.haveHost = false ∧ f.havePort = false ∧
          insns = [⟨0x06, 0, 0, f.snaplen⟩]) ∨
        (f.Tests ∧ (f.havePort = true → f.proto ≠ .icmp ∧ f.proto ≠ .arp) ∧
          (compileBuild f (.empty max)).overflow = false ∧
          toolBpfFixup (compileBuild f (.empty max)) = some insns)) := by
  unfold toolBpfCompile at h
  split_ifs at h with hmax hsnap hport himp htriv hinvert huse
  · cases h
    simp only [Bool.not_eq_true] at htriv
    exact ⟨by omega, by tauto, .inl ⟨htriv.1, htriv.2.1, htriv.2.2, rfl⟩⟩
  · refine ⟨by omega, by tauto, .inr ⟨htriv, by tauto, ?_⟩⟩
    dsimp only at h
    split_ifs at h with hover
    split at h
    · cases h
    · rename_i fixed hfix
      cases h
      exact ⟨Bool.eq_false_of_not_eq_true hover, hfix⟩

/-- What the compiler calls impossible. -/
theorem toolBpfCompile_eq_impossible {f : ToolBpfFilter} {max : Nat} (hinvert : f.invert = false)
    (h : toolBpfCompile f max = .error .impossible) :
    (f.havePort = true ∧ (f.proto = .icmp ∨ f.proto = .arp)) ∨
      (f.Tests ∧ (f.havePort = true → f.proto ≠ .icmp ∧ f.proto ≠ .arp) ∧
        f.useV4 = false ∧ f.useV6 = false ∧ f.useArp = false) := by
  unfold toolBpfCompile at h
  split_ifs at h with hmax hsnap hport himp htriv hinv huse
  · cases h
  · cases h
  · cases h
  · exact .inl himp
  · exact absurd hinv (by simp [hinvert])
  · simp only [Bool.and_eq_true, Bool.not_eq_true'] at huse
    exact .inr ⟨htriv, by tauto, huse.1.1, huse.1.2, huse.2⟩
  · dsimp only at h
    split_ifs at h
    · cases h
    · split at h <;> cases h

/-- The single return of a filter without a clause. -/
theorem accepted_ret (k : ULong) : Accepted [⟨0x06, 0, 0, k⟩] [.retK k] where
  decoded := by simp [decode, bpfClass, bpfRval]
  fits i hi := by
    obtain rfl : i = 0 := by simpa using hi
    trivial
  ends := ⟨_, rfl, rfl⟩

theorem amiBpfValidate_ret (k : ULong) : amiBpfValidate (some [⟨0x06, 0, 0, k⟩]) = 0 :=
  amiBpfValidate_eq_zero_iff.mpr ⟨by simp [bpfMaxInsns],
    by simp [allAccepted, insnAccepted, bpfClass, bpfRval], _, rfl, by simp [bpfClass]⟩

/-- **The compiler is correct.**  A program that it produces for a filter that is not inverted fits
its buffer and passes the validator; on every frame the interpreter returns the snap length when
the frame is one the filter asks for, and nothing otherwise.  A filter that it calls impossible
asks for no frame at all. -/
theorem toolBpfCompile_correct (f : ToolBpfFilter) (max : Nat) (hinvert : f.invert = false) :
    (∀ insns, toolBpfCompile f max = .ok insns →
      insns.length ≤ max ∧ amiBpfValidate (some insns) = 0 ∧ f.snaplen ≠ 0 ∧
      ∀ (frame : List UByte) (wirelen : ULong) (h : frame.length < 2 ^ 32),
        (Matches f frame → amiBpfFilter (some insns) frame wirelen h = .ok (some f.snaplen)) ∧
        (¬Matches f frame → amiBpfFilter (some insns) frame wirelen h = .ok (some 0))) ∧
    (toolBpfCompile f max = .error .impossible → ∀ frame, ¬Matches f frame) := by
  refine ⟨fun insns hok ↦ ?_, fun himp frame ↦ ?_⟩
  · obtain ⟨hmax, hsnap, ⟨hproto, hhost, hport, rfl⟩ | ⟨htests, hport, hover, hfix⟩⟩ :=
      toolBpfCompile_eq_ok hok
    · refine ⟨hmax, amiBpfValidate_ret _, hsnap, fun frame wirelen h ↦
        ⟨fun _ ↦ amiBpfFilter_of_yields (accepted_ret _) (fun r _ ↦ rfl) h, fun hm ↦ ?_⟩⟩
      exact absurd (matches_of_trivial hproto hhost hport frame) hm
    · obtain ⟨hlen, hvalid, ops, hops, hlink⟩ := amiBpfValidate_of_compileBuild hover hfix
      refine ⟨hlen, hvalid, hsnap, fun frame wirelen h ↦ ?_⟩
      have hreturns : f.returns = (f.snaplen, 0) := returns_of_not_invert hinvert
      have hkept : amiBpfFilter (some insns) frame wirelen h =
          .ok (some ((f.answer frame).keeps f.returns.1 f.returns.2)) :=
        amiBpfFilter_of_yields hops (yields_compileBuild hlink) h
      rw [hreturns] at hkept
      rw [hkept, ← answer_eq_true_iff htests hport]
      refine ⟨fun hm ↦ by rw [hm]; rfl, fun hm ↦ ?_⟩
      rcases hanswer : f.answer frame with _ | _ | _
      · rfl
      · rfl
      · exact absurd hanswer hm
  · rcases toolBpfCompile_eq_impossible hinvert himp with
      ⟨hport, hproto⟩ | ⟨htests, hport, h4, h6, harp⟩
    · exact not_matches_of_port hport hproto frame
    · exact not_matches_of_unused htests hport h4 h6 harp frame

/-- The filter `tcp host 10.0.0.1 port 80`. -/
def httpFilter : ToolBpfFilter :=
  { proto := .tcp, haveHost := true, hostIsV6 := false, hostV4 := 0x0a000001,
    hostV6 := Vector.replicate 16 0, havePort := true, port := 80, snaplen := 96, invert := false }

theorem toolBpfCompile_correct_httpFilter :
    (∃ insns, toolBpfCompile httpFilter 64 = .ok insns ∧ insns.length ≤ 64 ∧
      amiBpfValidate (some insns) = 0) ∧
    ∀ insns, toolBpfCompile httpFilter 64 = .ok insns →
      ∀ (frame : List UByte) (wirelen : ULong) (h : frame.length < 2 ^ 32),
        Matches httpFilter frame → amiBpfFilter (some insns) frame wirelen h = .ok (some 96) := by
  have hcorrect := (toolBpfCompile_correct httpFilter 64 rfl).1
  have hok : (toolBpfCompile httpFilter 64).isOk = true := by decide +kernel
  cases hc : toolBpfCompile httpFilter 64 with
  | error e =>
      rw [hc] at hok
      cases hok
  | ok insns =>
      obtain ⟨hlen, hvalid, -, hrun⟩ := hcorrect insns hc
      refine ⟨⟨insns, rfl, hlen, hvalid⟩, fun insns' heq frame wirelen h hm ↦ ?_⟩
      cases heq
      exact (hrun frame wirelen h).1 hm

end AmiNetXDuo.Bpf
