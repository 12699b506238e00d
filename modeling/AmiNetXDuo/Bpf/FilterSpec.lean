import AmiNetXDuo.Bpf.Compile
import AmiNetXDuo.Bpf.View

/-!
# What a filter asks for

The meaning of a `ToolBpfFilter` on an Ethernet frame, field by field of the frame and
independently of any program: the frame must satisfy the protocol clause, the host clause and the
port clause.  A field that the frame is too short to hold satisfies nothing.

The clauses are also given as tests that are made one after the other.  Such tests have an answer
only if the frame holds the fields they come to; a test behind one that has decided is not made.

## Main definitions

* `fieldAt` : a big-endian field of a frame.
* `ProtoClause`, `HostClause`, `PortClause` : the three clauses.
* `Matches` : their conjunction.
* `Answer` : what tests say about a frame that may be too short for them.
* `ToolBpfFilter.answer` : the tests of a filter.
-/

namespace AmiNetXDuo.Bpf

open BigEndian

/-- The big-endian field of `n` bytes at offset `off`, `none` when the frame is too short. -/
def fieldAt (frame : List UByte) (off n : Nat) : Option ULong :=
  (window frame off n).map fun w ↦ BitVec.ofNat 32 (value w)

/-- The frame has this ethertype. -/
def HasEtherType (frame : List UByte) (type : ULong) : Prop :=
  fieldAt frame 12 2 = some type

/-- An IPv4 packet with protocol number `v4`, or an IPv6 packet with next header `v6`. -/
def Carries (frame : List UByte) (v4 v6 : ULong) : Prop :=
  (HasEtherType frame ethertypeIp ∧ fieldAt frame 23 1 = some v4) ∨
    (HasEtherType frame ethertypeIp6 ∧ fieldAt frame 20 1 = some v6)

/-- The frame carries the protocol that was asked for. -/
def ProtoClause (proto : ToolBpfProto) (frame : List UByte) : Prop :=
  match proto with
  | .any => True
  | .tcp => Carries frame ipprotoTcp ipprotoTcp
  | .udp => Carries frame ipprotoUdp ipprotoUdp
  | .icmp => Carries frame ipprotoIcmp ipprotoIcmpv6
  | .arp => HasEtherType frame ethertypeArp
  | .ip => HasEtherType frame ethertypeIp
  | .ip6 => HasEtherType frame ethertypeIp6

/-- The IPv4 address is the source or the destination of an IPv4 packet, or the sender or the
target of an ARP about IPv4. -/
def HasHost4 (frame : List UByte) (host : ULong) : Prop :=
  (HasEtherType frame ethertypeIp ∧
    (fieldAt frame 26 4 = some host ∨ fieldAt frame 30 4 = some host)) ∨
  (HasEtherType frame ethertypeArp ∧ fieldAt frame 16 2 = some ethertypeIp ∧
    (fieldAt frame 28 4 = some host ∨ fieldAt frame 38 4 = some host))

/-- The IPv6 address is the source or the destination of an IPv6 packet. -/
def HasHost6 (frame : List UByte) (host : Vector UByte 16) : Prop :=
  HasEtherType frame ethertypeIp6 ∧
    (window frame 22 16 = some host.toList ∨ window frame 38 16 = some host.toList)

def HostClause (f : ToolBpfFilter) (frame : List UByte) : Prop :=
  f.haveHost = true →
    if f.hostIsV6 = true then HasHost6 frame f.hostV6 else HasHost4 frame f.hostV4

/-- One of two adjacent 16-bit fields is the port. -/
def HasPortAt (frame : List UByte) (off : Nat) (port : ULong) : Prop :=
  fieldAt frame off 2 = some port ∨ fieldAt frame (off + 2) 2 = some port

/-- The port is the source or the destination port of a TCP or UDP packet: over IPv4 of a first
fragment, behind a header of the length it says; over IPv6 right behind the fixed header. -/
def HasPort (frame : List UByte) (port : ULong) : Prop :=
  (HasEtherType frame ethertypeIp ∧
    (fieldAt frame 23 1 = some ipprotoTcp ∨ fieldAt frame 23 1 = some ipprotoUdp) ∧
    (∃ flags, fieldAt frame 20 2 = some flags ∧ flags &&& 0x1fff = 0) ∧
    ∃ vhl, fieldAt frame 14 1 = some vhl ∧ HasPortAt frame (14 + vhl.toNat % 16 * 4) port) ∨
  (HasEtherType frame ethertypeIp6 ∧
    (fieldAt frame 20 1 = some ipprotoTcp ∨ fieldAt frame 20 1 = some ipprotoUdp) ∧
    HasPortAt frame 54 port)

def PortClause (f : ToolBpfFilter) (frame : List UByte) : Prop :=
  f.havePort = true → HasPort frame f.port

/-- The frame is one that the filter asks for. -/
def Matches (f : ToolBpfFilter) (frame : List UByte) : Prop :=
  ProtoClause f.proto frame ∧ HostClause f frame ∧ PortClause f frame

/-! ### Tests one after the other -/

/-- What tests say about a frame: nothing when they come to a field that it is too short for. -/
abbrev Answer := Option Bool

namespace Answer

variable {a b : Answer}

/-- Both hold.  The second is tested when the first does. -/
def and (a b : Answer) : Answer := a.bind fun holds ↦ if holds then b else some false

/-- One holds.  The second is tested when the first does not. -/
def or (a b : Answer) : Answer := a.bind fun holds ↦ if holds then some true else b

/-- Tests that are made when the filter asks for them. -/
def when (c : Bool) (a : Answer) : Answer := if c then a else some true

@[simp] theorem and_eq_true : a.and b = some true ↔ a = some true ∧ b = some true := by
  rcases a with _ | _ | _ <;> simp [Answer.and]

@[simp] theorem and_some_true : a.and (some true) = a := by
  rcases a with _ | _ | _ <;> rfl

theorem or_eq_true (h : a = none → b = none) :
    a.or b = some true ↔ a = some true ∨ b = some true := by
  rcases a with _ | _ | _ <;> simp [Answer.or]
  simp [h rfl]

@[simp] theorem when_eq_true {c : Bool} : when c a = some true ↔ (c = true → a = some true) := by
  cases c <;> simp [when]

end Answer

/-- The test of a field. -/
def fieldIs (frame : List UByte) (off n : Nat) (k : ULong) : Answer :=
  (fieldAt frame off n).map fun v ↦ decide (v = k)

/-- One of two fields is a value. -/
def eitherIs (frame : List UByte) (off off' n : Nat) (k : ULong) : Answer :=
  (fieldIs frame off n k).or (fieldIs frame off' n k)

/-- The field is one of two values. -/
def isOneOf (frame : List UByte) (off n : Nat) (k k' : ULong) : Answer :=
  (fieldIs frame off n k).or (fieldIs frame off n k')

/-- The four words of an address. -/
def wordsAre (frame : List UByte) (off : Nat) (host : Vector UByte 16) : Answer :=
  (List.finRange 4).foldr
    (fun i ↦ (fieldIs frame (off + 4 * i.val) 4 (toolBpfV6Word host i)).and) (some true)

theorem wordsAre_eq (frame : List UByte) (off : Nat) (host : Vector UByte 16) :
    wordsAre frame off host = (fieldIs frame off 4 (toolBpfV6Word host 0)).and
      ((fieldIs frame (off + 4) 4 (toolBpfV6Word host 1)).and
        ((fieldIs frame (off + 8) 4 (toolBpfV6Word host 2)).and
          (fieldIs frame (off + 12) 4 (toolBpfV6Word host 3)))) := by
  have hall : List.finRange 4 = [0, 1, 2, 3] := rfl
  simp only [wordsAre, hall, List.foldr, Answer.and_some_true]
  rfl

/-- The ports behind an IPv4 header: first whether it is a first fragment, then where they are. -/
def portBehind (frame : List UByte) (port : ULong) : Answer :=
  Answer.and ((fieldAt frame 20 2).map fun flags ↦ decide (flags &&& 0x1fff = 0))
    ((fieldAt frame 14 1).bind fun vhl ↦
      eitherIs frame (14 + vhl.toNat % 16 * 4) (14 + vhl.toNat % 16 * 4 + 2) 2 port)

namespace ToolBpfFilter

variable (f : ToolBpfFilter) (frame : List UByte)

/-- The protocol of an IP packet, with its number at `off`. -/
def protoAnswer (off : Nat) (icmp : ULong) : Answer :=
  match f.proto with
  | .tcp => fieldIs frame off 1 ipprotoTcp
  | .udp => fieldIs frame off 1 ipprotoUdp
  | .icmp => fieldIs frame off 1 icmp
  | _ => .when f.havePort (isOneOf frame off 1 ipprotoTcp ipprotoUdp)

def ip4Answer : Answer :=
  (f.protoAnswer frame 23 ipprotoIcmp).and
    ((Answer.when f.haveHost (eitherIs frame 26 30 4 f.hostV4)).and
      (.when f.havePort (portBehind frame f.port)))

def ip6Answer : Answer :=
  (f.protoAnswer frame 20 ipprotoIcmpv6).and
    ((Answer.when f.haveHost ((wordsAre frame 22 f.hostV6).or (wordsAre frame 38 f.hostV6))).and
      (.when f.havePort (eitherIs frame 54 56 2 f.port)))

def arpAnswer : Answer :=
  .when f.haveHost ((fieldIs frame 16 2 ethertypeIp).and (eitherIs frame 28 38 4 f.hostV4))

/-- **The tests of a filter**: the ethertype, then the protocol, the host and the port, as far as
frames of that type can be what the filter asks for. -/
def answer : Answer :=
  (fieldAt frame 12 2).bind fun type ↦
    if type = ethertypeIp then if f.useV4 then f.ip4Answer frame else some false
    else if type = ethertypeIp6 then if f.useV6 then f.ip6Answer frame else some false
    else if type = ethertypeArp then if f.useArp then f.arpAnswer frame else some false
    else some false

end ToolBpfFilter

@[simp] theorem fieldIs_eq_true {frame : List UByte} {off n : Nat} {k : ULong} :
    fieldIs frame off n k = some true ↔ fieldAt frame off n = some k := by
  simp [fieldIs]

@[simp] theorem isOneOf_eq_true {frame : List UByte} {off n : Nat} {k k' : ULong} :
    isOneOf frame off n k k' = some true ↔
      fieldAt frame off n = some k ∨ fieldAt frame off n = some k' := by
  rw [isOneOf, Answer.or_eq_true (by simp [fieldIs]), fieldIs_eq_true, fieldIs_eq_true]

/-- A frame has one ethertype. -/
theorem HasEtherType.unique {frame : List UByte} {s t : ULong} (hs : HasEtherType frame s)
    (ht : HasEtherType frame t) : s = t :=
  Option.some.inj (hs.symm.trans ht)

/-- A field behind one that the frame is too short for does not exist either. -/
theorem fieldAt_eq_none_of_le {frame : List UByte} {off off' n : Nat} (hle : off ≤ off')
    (h : fieldAt frame off n = none) : fieldAt frame off' n = none := by
  rw [fieldAt, Option.map_eq_none_iff] at h ⊢
  unfold window at h ⊢
  split_ifs at h with hlen
  exact if_neg (by omega)

theorem eitherIs_eq_true {frame : List UByte} {off off' n : Nat} {k : ULong} (hle : off ≤ off') :
    eitherIs frame off off' n k = some true ↔
      fieldAt frame off n = some k ∨ fieldAt frame off' n = some k := by
  have hnone : fieldIs frame off n k = none → fieldIs frame off' n k = none := by
    simpa [fieldIs] using fieldAt_eq_none_of_le (n := n) hle
  rw [eitherIs, Answer.or_eq_true hnone, fieldIs_eq_true, fieldIs_eq_true]

/-- A word of an IPv6 address is what its four bytes spell. -/
theorem toolBpfV6Word_eq (a : Vector UByte 16) (i : Fin 4) :
    toolBpfV6Word a i = BitVec.ofNat 32 (value ((a.toList.drop (i.val * 4)).take 4)) := by
  have hi := i.isLt
  have hwords : (a.toList.drop (i.val * 4)).take 4 =
      [a[i.val * 4], a[i.val * 4 + 1], a[i.val * 4 + 2], a[i.val * 4 + 3]] := by
    refine List.ext_getElem (by simp; omega) fun j h₁ h₂ ↦ ?_
    have hj : j < 4 := by simpa using h₂
    simp only [List.getElem_take, List.getElem_drop]
    obtain rfl | rfl | rfl | rfl : j = 0 ∨ j = 1 ∨ j = 2 ∨ j = 3 := by omega
    all_goals simp
  rw [hwords, ← foldl_shiftIn_zero]
  simp [toolBpfV6Word, shiftIn, BitVec.shiftLeft_or_distrib, ← BitVec.shiftLeft_add]

/-- A field of four bytes is a word of an address when its bytes are. -/
theorem fieldAt_eq_toolBpfV6Word_iff (frame : List UByte) (off : Nat) (a : Vector UByte 16)
    (i : Fin 4) :
    fieldAt frame off 4 = some (toolBpfV6Word a i) ↔
      window frame off 4 = some ((a.toList.drop (i.val * 4)).take 4) := by
  have hi := i.isLt
  have hlen : ((a.toList.drop (i.val * 4)).take 4).length = 4 := by
    simp
    omega
  rw [toolBpfV6Word_eq, fieldAt, Option.map_eq_some_iff]
  constructor
  · rintro ⟨w, hw, heq⟩
    have hwlen := length_of_window hw
    have hw' := value_lt w
    have ha := value_lt ((a.toList.drop (i.val * 4)).take 4)
    rw [hwlen] at hw'
    rw [hlen] at ha
    have hnat := congrArg BitVec.toNat heq
    rw [BitVec.toNat_ofNat, BitVec.toNat_ofNat] at hnat
    rw [hw, value_injective (hwlen.trans hlen.symm) (by omega)]
  · exact fun h ↦ ⟨_, h, rfl⟩

/-- Sixteen bytes are an address when their four words are. -/
theorem window_eq_host_iff (frame : List UByte) (off : Nat) (a : Vector UByte 16) :
    window frame off 16 = some a.toList ↔
      fieldAt frame off 4 = some (toolBpfV6Word a 0) ∧
        fieldAt frame (off + 4) 4 = some (toolBpfV6Word a 1) ∧
        fieldAt frame (off + 8) 4 = some (toolBpfV6Word a 2) ∧
        fieldAt frame (off + 12) 4 = some (toolBpfV6Word a 3) := by
  simp only [fieldAt_eq_toolBpfV6Word_iff]
  change _ ↔ window frame off 4 = some (a.toList.take 4) ∧
    window frame (off + 4) 4 = some ((a.toList.drop 4).take 4) ∧
    window frame (off + 8) 4 = some ((a.toList.drop 8).take 4) ∧
    window frame (off + 12) 4 = some ((a.toList.drop 12).take 4)
  have hlen : a.toList.length = 16 := by simp
  have hsplit : a.toList.take 4 ++ ((a.toList.drop 4).take 4 ++
      ((a.toList.drop 8).take 4 ++ (a.toList.drop 12).take 4)) = a.toList := by
    have h : a.toList.take (4 + (4 + (4 + 4))) = a.toList := List.take_of_length_le (by omega)
    rw [List.take_add, List.take_add, List.take_add] at h
    simpa only [List.drop_drop] using h
  constructor
  · intro h
    obtain ⟨hle, hbytes⟩ := window_eq_some_iff.mp h
    rw [window_of_le (by omega), window_of_le (by omega), window_of_le (by omega),
      window_of_le (by omega), hbytes]
    simp [List.drop_take, List.take_take, List.drop_drop]
  · rintro ⟨h₀, h₁, h₂, h₃⟩
    change window frame off (4 + (4 + (4 + 4))) = _
    rw [window_add, window_add, window_add, h₀, h₁, h₂, h₃]
    exact congrArg some hsplit

theorem wordsAre_eq_true {frame : List UByte} {off : Nat} {host : Vector UByte 16} :
    wordsAre frame off host = some true ↔ window frame off 16 = some host.toList := by
  rw [window_eq_host_iff]
  simp [wordsAre_eq]

end AmiNetXDuo.Bpf
