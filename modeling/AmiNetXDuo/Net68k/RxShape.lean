import AmiNetXDuo.Net68k.RxVerify
import AmiNetXDuo.Lib.Memory

/-!
# The extension headers of a received IPv6 frame

`n68k_rxv6_shape` looks for the transport header behind the extension headers of a frame that
came from the wire.  Two things are shown of it.  Every byte it reads lies inside the frame: with
each read checked against the length, no check fails.  And a positive answer is the one that the
walk of the header formats gives, over headers that leave the transport checksum alone.

The options of a destination options header are walked one by one for the home address option.
Those of a hop-by-hop header are not looked at.

## Main definitions

* `n68kRxv6ShapeChecked` : `n68k_rxv6_shape` with every read checked.
* `V6Option`, `encodeOptions` : the options of a header.
* `headerWalk` : the walk of the header formats.
* `ExtHeader.Neutral` : what leaves the transport checksum alone.

## Main results

* `n68kRxv6ShapeChecked_eq` : no read fails.
* `n68kRxv6Shape_sound` : a positive answer.
-/

namespace AmiNetXDuo.Net68k

/-! ### Checked reads -/

/-- A read inside the first `length` bytes; `none` is a read outside. -/
def checkedByte (ip : Mem) (length i : Nat) : Option UByte :=
  if i < length then some (ip i) else none

theorem checkedByte_of_lt (ip : Mem) {length i : Nat} (h : i < length) :
    checkedByte ip length i = some (ip i) :=
  if_pos h

/-- `N68K_RD16(&ip[i])`. -/
def checkedRd16 (ip : Mem) (length i : Nat) : Option ULong := do
  let high ← checkedByte ip length i
  let low ← checkedByte ip length (i + 1)
  return high.setWidth 32 <<< 8 ||| low.setWidth 32

theorem checkedRd16_of_lt (ip : Mem) {length i : Nat} (h : i + 1 < length) :
    checkedRd16 ip length i = some (rd16 ip i) := by
  simp [checkedRd16, checkedByte_of_lt ip h, checkedByte_of_lt ip (Nat.lt_of_succ_lt h), rd16]

/-- `n68k_rxv6_dstopt_plain`, its options read at `opt`. -/
def dstoptLoopChecked (ip : Mem) (length opt bytes i : Nat) : Option Bool :=
  if i < bytes then do
    let type ← checkedByte ip length (opt + i)
    if type = 0 then dstoptLoopChecked ip length opt bytes (i + 1)
    else if i + 2 > bytes then some false
    else if type = 201 then some false
    else do
      let size ← checkedByte ip length (opt + (i + 1))
      dstoptLoopChecked ip length opt bytes (i + 2 + size.toNat)
  else some (i = bytes)
termination_by bytes - i

theorem dstoptLoopChecked_eq (ip : Mem) {length opt bytes : Nat} (h : opt + bytes ≤ length)
    (i : Nat) : dstoptLoopChecked ip length opt bytes i =
      some (dstoptLoop (fun j ↦ ip (opt + j)) bytes i) := by
  induction i using dstoptLoop.induct (fun j ↦ ip (opt + j)) bytes with
  | case1 i hi hpad ih =>
      rw [dstoptLoopChecked, if_pos hi, checkedByte_of_lt ip (by omega), dstoptLoop, if_pos hi,
        if_pos hpad, ← ih]
      simp [hpad]
  | case2 i hi hpad hcut =>
      rw [dstoptLoopChecked, if_pos hi, checkedByte_of_lt ip (by omega), dstoptLoop, if_pos hi,
        if_neg hpad, if_pos hcut]
      simp only [Option.bind_eq_bind, Option.bind_some, if_neg hpad, if_pos hcut]
  | case3 i hi hpad hcut hhome =>
      rw [dstoptLoopChecked, if_pos hi, checkedByte_of_lt ip (by omega), dstoptLoop, if_pos hi,
        if_neg hpad, if_neg hcut, if_pos hhome]
      simp [hhome]
  | case4 i hi hpad hcut hhome ih =>
      rw [dstoptLoopChecked, if_pos hi, checkedByte_of_lt ip (by omega),
        checkedByte_of_lt ip (by omega), dstoptLoop, if_pos hi, if_neg hpad, if_neg hcut,
        if_neg hhome, ← ih]
      simp only [Option.bind_eq_bind, Option.bind_some, if_neg hpad, if_neg hcut, if_neg hhome]
  | case5 i hi => rw [dstoptLoopChecked, if_neg hi, dstoptLoop, if_neg hi]

/-- The length of an extension header, its length byte read where its kind has one. -/
def extLengthChecked (ip : Mem) (length next at' : Nat) : Option (Option Nat) :=
  if next = v6Hopopt ∨ next = v6Dstopt ∨ next = v6Routing then do
    let size ← checkedByte ip length (at' + 1)
    return some ((size.toNat + 1) * 8)
  else if next = v6Fragment then some (some 8)
  else if next = v6Ah then do
    let size ← checkedByte ip length (at' + 1)
    return some ((size.toNat + 2) * 4)
  else some none

/-- What an extension header must not say. -/
def extPlainChecked (ip : Mem) (length next at' hlen : Nat) : Option Bool :=
  if next = v6Routing then do
    let left ← checkedByte ip length (at' + 3)
    return left = 0
  else if next = v6Fragment then do
    let field ← checkedRd16 ip length (at' + 2)
    return field &&& 0xFFF9#32 = 0
  else if next = v6Dstopt then dstoptLoopChecked ip length (at' + 2) (hlen - 2) 0
  else some true

/-- The walk over the chain of extension headers. -/
def chainLoopChecked (ip : Mem) (length end' next at' : Nat) (room : Nat) :
    Option (Option (Nat × Nat)) :=
  if next = protocolTcp ∨ next = protocolUdp ∨ next = protocolIcmpv6 then some (some (next, at'))
  else
    match room with
    | 0 => some none
    | room + 1 =>
        if at' + 8 > end' then some none
        else do
          match ← extLengthChecked ip length next at' with
          | none => return none
          | some hlen =>
              if hlen < 8 ∨ at' + hlen > end' then return none
              else if !(← extPlainChecked ip length next at' hlen) then return none
              else do
                let next' ← checkedByte ip length at'
                chainLoopChecked ip length end' next'.toNat (at' + hlen) room

/-- The checks of the transport header. -/
def transportChecked (ip : Mem) (length end' next at' : Nat) : Option (Option V6Shape) :=
  if at' + (if next = protocolTcp then 20 else 8) > end' then some none
  else if next = protocolUdp then do
    if (← checkedRd16 ip length (at' + 4)).toNat ≠ end' - at' then return none
    else if (← checkedRd16 ip length (at' + 6)) = 0 then return none
    else return some ⟨next, at', end' - at'⟩
  else some (some ⟨next, at', end' - at'⟩)

/-- `n68k_rxv6_shape` with every read checked: the outer `none` is a read at or past the
length. -/
def n68kRxv6ShapeChecked (ip : Mem) (length : Nat) : Option (Option V6Shape) :=
  if length < 40 then some none
  else do
    let plen := (← checkedRd16 ip length 4).toNat
    if plen = 0 ∨ plen + 40 > length then return none
    else do
      let next ← checkedByte ip length 6
      match ← chainLoopChecked ip length (40 + plen) next.toNat 40 v6MaxExt with
      | none => return none
      | some (next, at') => transportChecked ip length (40 + plen) next at'

theorem extLengthChecked_eq (ip : Mem) {length at' : Nat} (next : Nat) (h : at' + 8 ≤ length) :
    extLengthChecked ip length next at' = some (extLength next (ip (at' + 1))) := by
  unfold extLengthChecked extLength
  rw [checkedByte_of_lt ip (by omega)]
  split_ifs <;> rfl

theorem extPlainChecked_eq (ip : Mem) {length at' hlen : Nat} (next : Nat) (hmin : 8 ≤ hlen)
    (h : at' + hlen ≤ length) :
    extPlainChecked ip length next at' hlen = some (extPlain ip next at' hlen) := by
  unfold extPlainChecked extPlain n68kRxv6DstoptPlain
  rw [checkedByte_of_lt ip (by omega), checkedRd16_of_lt ip (by omega),
    dstoptLoopChecked_eq ip (by omega)]
  split_ifs <;> rfl

theorem chainLoopChecked_eq (ip : Mem) {length end' : Nat} (h : end' ≤ length)
    (next at' room : Nat) : chainLoopChecked ip length end' next at' room =
      some (chainLoop ip end' next at' room) := by
  induction room generalizing next at' with
  | zero =>
      unfold chainLoopChecked chainLoop
      split_ifs <;> rfl
  | succ room ih =>
      unfold chainLoopChecked chainLoop
      by_cases hupper : next = protocolTcp ∨ next = protocolUdp ∨ next = protocolIcmpv6
      · rw [if_pos hupper, if_pos hupper]
      rw [if_neg hupper, if_neg hupper]
      by_cases hshort : at' + 8 > end'
      · simp only [if_pos hshort]
      simp only [if_neg hshort]
      rw [extLengthChecked_eq ip next (by omega)]
      cases extLength next (ip (at' + 1)) with
      | none => rfl
      | some hlen =>
          by_cases hfits : hlen < 8 ∨ at' + hlen > end'
          · simp only [Option.bind_eq_bind, Option.bind_some, if_pos hfits]
            rfl
          simp only [Option.bind_eq_bind, Option.bind_some, if_neg hfits]
          rw [extPlainChecked_eq ip next (by omega) (by omega), checkedByte_of_lt ip (by omega),
            Option.bind_some, Option.bind_some, ih]
          split_ifs <;> rfl

theorem transportChecked_eq (ip : Mem) {length end' : Nat} (h : end' ≤ length) (next at' : Nat) :
    transportChecked ip length end' next at' =
      some (if at' + (if next = protocolTcp then 20 else 8) > end' then none
        else if next = protocolUdp ∧ (rd16 ip (at' + 4)).toNat ≠ end' - at' then none
        else if next = protocolUdp ∧ rd16 ip (at' + 6) = 0 then none
        else some ⟨next, at', end' - at'⟩) := by
  unfold transportChecked
  by_cases hroom : at' + (if next = protocolTcp then 20 else 8) > end'
  · rw [if_pos hroom, if_pos hroom]
  rw [if_neg hroom, if_neg hroom]
  by_cases hudp : next = protocolUdp
  · have hfits : at' + 8 ≤ end' := by
      rw [hudp] at hroom
      simpa [protocolUdp, protocolTcp] using hroom
    rw [if_pos hudp, checkedRd16_of_lt ip (by omega), checkedRd16_of_lt ip (by omega)]
    simp only [hudp, true_and, Option.bind_eq_bind, Option.bind_some]
    split_ifs <;> rfl
  · simp only [hudp, false_and, if_false]

/-- **No read at or past the length.**  With every read checked the function gives its answer, on
every frame and for every length. -/
theorem n68kRxv6ShapeChecked_eq (ip : Mem) (length : Nat) :
    n68kRxv6ShapeChecked ip length = some (n68kRxv6Shape ip length) := by
  unfold n68kRxv6ShapeChecked n68kRxv6Shape
  by_cases hshort : length < 40
  · rw [if_pos hshort, if_pos hshort]
  rw [if_neg hshort, if_neg hshort, checkedRd16_of_lt ip (by omega),
    checkedByte_of_lt ip (by omega)]
  simp only [Option.bind_eq_bind, Option.bind_some]
  by_cases hlength : (rd16 ip 4).toNat = 0 ∨ (rd16 ip 4).toNat + 40 > length
  · rw [if_pos hlength, if_pos hlength]
    rfl
  rw [if_neg hlength, if_neg hlength, chainLoopChecked_eq ip (by omega), Option.bind_some]
  cases chainLoop ip (40 + (rd16 ip 4).toNat) (ip 6).toNat 40 v6MaxExt with
  | none => rfl
  | some found => exact transportChecked_eq ip (by omega) found.1 found.2

/-! ### Options -/

/-- An option of a header: one byte of padding, or a type with its data. -/
inductive V6Option
  | pad1
  | option (type : UByte) (data : List UByte) (notPad : type ≠ 0) (short : data.length < 256)

/-- The bytes of an option. -/
def V6Option.encode : V6Option → List UByte
  | pad1 => [0]
  | option type data _ _ => type :: BitVec.ofNat 8 data.length :: data

/-- The bytes of a list of options. -/
def encodeOptions (opts : List V6Option) : List UByte := opts.flatMap V6Option.encode

/-- The home address option of a mobile node. -/
def V6Option.IsHomeAddress : V6Option → Prop
  | pad1 => False
  | option type _ _ _ => type = 201

/-- A run of bytes made of options without a home address. -/
def PlainOptions (bytes : List UByte) : Prop :=
  ∃ opts : List V6Option, bytes = encodeOptions opts ∧ ∀ o ∈ opts, ¬o.IsHomeAddress

theorem plainOptions_pad1_iff (bytes : List UByte) :
    PlainOptions (0 :: bytes) ↔ PlainOptions bytes := by
  constructor
  · rintro ⟨_ | ⟨o, opts⟩, hbytes, hplain⟩
    · simp [encodeOptions] at hbytes
    · cases o with
      | pad1 => exact ⟨opts, (List.cons.inj hbytes).2, fun o ho ↦ hplain o (by simp [ho])⟩
      | option type data notPad short => exact absurd (List.cons.inj hbytes).1.symm notPad
  · rintro ⟨opts, rfl, hplain⟩
    exact ⟨.pad1 :: opts, rfl, by simpa [V6Option.IsHomeAddress] using hplain⟩

/-- The first option of a run that does not start with padding. -/
theorem plainOptions_option_iff {type : UByte} (hpad : type ≠ 0) (size : UByte)
    (bytes : List UByte) : PlainOptions (type :: size :: bytes) ↔
      type ≠ 201 ∧ size.toNat ≤ bytes.length ∧ PlainOptions (bytes.drop size.toNat) := by
  constructor
  · rintro ⟨_ | ⟨o, opts⟩, hbytes, hplain⟩
    · simp [encodeOptions] at hbytes
    · cases o with
      | pad1 => exact absurd (List.cons.inj hbytes).1 hpad
      | option type' data notPad short =>
          have hfirst := hplain _ List.mem_cons_self
          simp only [encodeOptions, List.flatMap_cons, V6Option.encode, List.cons_append,
            List.cons.injEq] at hbytes
          obtain ⟨rfl, rfl, rfl⟩ := hbytes
          have hsize : (BitVec.ofNat 8 data.length).toNat = data.length := by
            rw [BitVec.toNat_ofNat, Nat.mod_eq_of_lt short]
          rw [hsize]
          refine ⟨hfirst, by simp, opts, ?_, fun o ho ↦ hplain o (by simp [ho])⟩
          exact List.drop_left
  · rintro ⟨hhome, hfits, opts, hopts, hplain⟩
    have hlength : (bytes.take size.toNat).length = size.toNat := by
      rw [List.length_take, Nat.min_eq_left hfits]
    refine ⟨.option type (bytes.take size.toNat) hpad (by omega) :: opts, ?_, ?_⟩
    · rw [encodeOptions, List.flatMap_cons, V6Option.encode, hlength, BitVec.ofNat_toNat,
        BitVec.setWidth_eq]
      change type :: size :: bytes = type :: size :: (bytes.take size.toNat ++ encodeOptions opts)
      rw [← hopts, List.take_append_drop]
    · simpa [V6Option.IsHomeAddress] using ⟨hhome, hplain⟩

theorem plainOptions_nil : PlainOptions [] := ⟨[], rfl, by simp⟩

/-- A type without its length. -/
theorem not_plainOptions_singleton {type : UByte} (hpad : type ≠ 0) : ¬PlainOptions [type] := by
  rintro ⟨_ | ⟨o, opts⟩, hbytes, -⟩
  · simp [encodeOptions] at hbytes
  · cases o with
    | pad1 => exact hpad (List.cons.inj hbytes).1
    | option type' data notPad short => simp [encodeOptions, V6Option.encode] at hbytes

/-- **The scan of the options.**  It passes the runs that are made of options without a home
address. -/
theorem dstoptLoop_iff (opt : Mem) (bytes i : Nat) :
    dstoptLoop opt bytes i = true ↔ i ≤ bytes ∧ PlainOptions (Memory.read opt i (bytes - i)) := by
  induction i using dstoptLoop.induct opt bytes with
  | case1 i hi hpad ih =>
      rw [dstoptLoop, if_pos hi, if_pos hpad, ih, show bytes - i = bytes - (i + 1) + 1 by omega,
        Memory.read_succ, hpad, plainOptions_pad1_iff]
      exact and_congr_left' (by omega)
  | case2 i hi hpad hcut =>
      rw [dstoptLoop, if_pos hi, if_neg hpad, if_pos hcut, show bytes - i = 0 + 1 by omega,
        Memory.read_succ]
      simpa [Memory.read] using fun _ : i ≤ bytes ↦ not_plainOptions_singleton hpad
  | case3 i hi hpad hcut hhome =>
      rw [dstoptLoop, if_pos hi, if_neg hpad, if_neg hcut, if_pos hhome,
        show bytes - i = bytes - (i + 2) + 1 + 1 by omega, Memory.read_succ, Memory.read_succ,
        plainOptions_option_iff hpad]
      simp [hhome]
  | case4 i hi hpad hcut hhome ih =>
      rw [dstoptLoop, if_pos hi, if_neg hpad, if_neg hcut, if_neg hhome, ih,
        show bytes - i = bytes - (i + 2) + 1 + 1 by omega, Memory.read_succ, Memory.read_succ,
        plainOptions_option_iff hpad, Memory.length_read]
      by_cases hfits : i + 2 + (opt (i + 1)).toNat ≤ bytes
      · rw [Memory.drop_read opt _ (by omega), show i + 1 + 1 = i + 2 by rfl, Nat.sub_sub]
        exact and_congr (by omega) ⟨fun h ↦ ⟨hhome, by omega, h⟩, fun h ↦ h.2.2⟩
      · exact iff_of_false (fun h ↦ hfits h.1) fun h ↦ hfits (by omega)
  | case5 i hi =>
      rw [dstoptLoop, if_neg hi, show bytes - i = 0 by omega, decide_eq_true_iff]
      exact ⟨fun h ↦ ⟨h.le, plainOptions_nil⟩, fun h ↦ by omega⟩

/-! ### The walk of the header formats -/

/-- The extension headers that stand between the fixed header and the transport. -/
inductive ExtKind
  | hopByHop | routing | fragment | authentication | destination
  deriving DecidableEq, Repr

/-- The extension header that a next-header value announces. -/
def ExtKind.ofNext (next : Nat) : Option ExtKind :=
  if next = v6Hopopt then some .hopByHop
  else if next = v6Routing then some .routing
  else if next = v6Fragment then some .fragment
  else if next = v6Ah then some .authentication
  else if next = v6Dstopt then some .destination
  else none

/-- The length of a header from its length byte: units of eight bytes less one, of four bytes less
two in an authentication header, and a fragment header has none. -/
def ExtKind.length (kind : ExtKind) (lengthByte : UByte) : Nat :=
  match kind with
  | .fragment => 8
  | .authentication => (lengthByte.toNat + 2) * 4
  | .hopByHop | .routing | .destination => (lengthByte.toNat + 1) * 8

theorem ExtKind.eight_le_length (kind : ExtKind) (lengthByte : UByte) :
    8 ≤ kind.length lengthByte := by
  cases kind <;> simp only [ExtKind.length] <;> omega

/-- An extension header of a frame. -/
structure ExtHeader where
  kind : ExtKind
  offset : Nat
  length : Nat
  deriving DecidableEq, Repr

/-- The extension headers of a frame that ends at `end'`, from one announced by `next` at `at'` on,
and the value and the offset at which the chain ends. -/
def headerWalk (ip : Mem) (end' next at' : Nat) : List ExtHeader × Nat × Nat :=
  match ExtKind.ofNext next with
  | none => ([], next, at')
  | some kind =>
      if at' + kind.length (ip (at' + 1)) ≤ end' then
        let rest := headerWalk ip end' (ip at').toNat (at' + kind.length (ip (at' + 1)))
        (⟨kind, at', kind.length (ip (at' + 1))⟩ :: rest.1, rest.2)
      else ([], next, at')
termination_by end' - at'
decreasing_by
  have := kind.eight_le_length (ip (at' + 1))
  omega

theorem headerWalk_of_none (ip : Mem) {end' next at' : Nat} (h : ExtKind.ofNext next = none) :
    headerWalk ip end' next at' = ([], next, at') := by
  rw [headerWalk, h]

theorem headerWalk_of_some (ip : Mem) {end' next at' hlen : Nat} {kind : ExtKind}
    (h : ExtKind.ofNext next = some kind) (hlength : kind.length (ip (at' + 1)) = hlen)
    (hfits : at' + hlen ≤ end') :
    headerWalk ip end' next at' =
      (⟨kind, at', hlen⟩ :: (headerWalk ip end' (ip at').toNat (at' + hlen)).1,
        (headerWalk ip end' (ip at').toNat (at' + hlen)).2) := by
  subst hlength
  rw [headerWalk, h]
  exact if_pos hfits

/-- **A header that leaves the transport checksum alone.**  Routing has no segments left, a
fragment is the whole datagram, and no destination option moves the source address. -/
def ExtHeader.Neutral (ip : Mem) (h : ExtHeader) : Prop :=
  match h.kind with
  | .routing => ip (h.offset + 3) = 0
  | .fragment =>
      (rd16 ip (h.offset + 2)).toNat / 8 = 0 ∧ (rd16 ip (h.offset + 2)).toNat % 2 = 0
  | .destination => PlainOptions (Memory.read ip (h.offset + 2) (h.length - 2))
  | .hopByHop | .authentication => True

theorem ofNext_of_extLength {next hlen : Nat} {lengthByte : UByte}
    (h : extLength next lengthByte = some hlen) :
    ∃ kind, ExtKind.ofNext next = some kind ∧ kind.length lengthByte = hlen := by
  unfold extLength at h
  split_ifs at h with htlv hfragment hah
  · rcases htlv with rfl | rfl | rfl
    · exact ⟨.hopByHop, rfl, Option.some.inj h⟩
    · exact ⟨.destination, rfl, Option.some.inj h⟩
    · exact ⟨.routing, rfl, Option.some.inj h⟩
  · subst hfragment
    exact ⟨.fragment, rfl, Option.some.inj h⟩
  · subst hah
    exact ⟨.authentication, rfl, Option.some.inj h⟩

/-- The bits of the fragment field that are looked at: the offset and more-fragments. -/
theorem fragment_field (x : ULong) (hx : x.toNat < 65536) (h : x &&& 0xFFF9#32 = 0) :
    x.toNat / 8 = 0 ∧ x.toNat % 2 = 0 := by
  have hmask : x.toNat &&& 0xFFF9 = 0 := by
    have := congrArg BitVec.toNat h
    rwa [BitVec.toNat_and] at this
  have hbit (j : Nat) (hj : Nat.testBit 0xFFF9 j = true) : x.toNat.testBit j = false := by
    have := congrArg (Nat.testBit · j) hmask
    simpa [Nat.testBit_and, hj] using this
  constructor
  · refine Nat.eq_of_testBit_eq fun j ↦ ?_
    rw [Nat.zero_testBit, show (8 : Nat) = 2 ^ 3 by rfl, Nat.testBit_div_two_pow]
    by_cases hj : j + 3 < 16
    · have hones : ∀ k < 16, 3 ≤ k → Nat.testBit 0xFFF9 k = true := by decide
      exact hbit _ (hones _ (by omega) (by omega))
    · exact Nat.testBit_lt_two_pow (lt_of_lt_of_le hx (Nat.pow_le_pow_right
        (show 0 < 2 by decide) (show 16 ≤ j + 3 by omega)))
  · have := hbit 0 (by decide)
    rw [Nat.testBit_zero] at this
    have := of_decide_eq_false this
    omega

theorem neutral_of_extPlain {ip : Mem} {next at' hlen : Nat} {kind : ExtKind}
    (hkind : ExtKind.ofNext next = some kind) (h : extPlain ip next at' hlen = true) :
    (⟨kind, at', hlen⟩ : ExtHeader).Neutral ip := by
  unfold extPlain at h
  unfold ExtKind.ofNext at hkind
  split_ifs at hkind with hhop hrouting hfragment hah hdst
  · obtain rfl := Option.some.inj hkind
    trivial
  · obtain rfl := Option.some.inj hkind
    rw [if_pos hrouting, decide_eq_true_iff] at h
    exact h
  · obtain rfl := Option.some.inj hkind
    rw [if_neg hrouting, if_pos hfragment] at h
    exact fragment_field _ (toNat_rd16_lt ip _) (of_decide_eq_true h)
  · obtain rfl := Option.some.inj hkind
    trivial
  · obtain rfl := Option.some.inj hkind
    rw [if_neg hrouting, if_neg hfragment, if_pos hdst, n68kRxv6DstoptPlain,
      dstoptLoop_iff] at h
    have hread : Memory.read ip (at' + 2) (hlen - 2) =
        Memory.read (fun j ↦ ip (at' + 2 + j)) 0 (hlen - 2) := by
      simp [Memory.read]
    simpa only [ExtHeader.Neutral, hread, Nat.sub_zero] using h.2

/-- **The chain.**  By induction on the headers still allowed: what the loop finds is what the
formats say, and it has passed neutral headers only. -/
theorem chainLoop_sound {ip : Mem} {end' next at' room : Nat} {found : Nat × Nat}
    (h : chainLoop ip end' next at' room = some found) :
    (headerWalk ip end' next at').2 = found ∧
      ∀ header ∈ (headerWalk ip end' next at').1, header.Neutral ip := by
  induction room generalizing next at' with
  | zero =>
      unfold chainLoop at h
      split_ifs at h with hupper
      have hnone : ExtKind.ofNext next = none := by
        rcases hupper with rfl | rfl | rfl <;> rfl
      rw [headerWalk_of_none ip hnone]
      exact ⟨Option.some.inj h, by simp⟩
  | succ room ih =>
      unfold chainLoop at h
      split_ifs at h with hupper hshort
      · have hnone : ExtKind.ofNext next = none := by
          rcases hupper with rfl | rfl | rfl <;> rfl
        rw [headerWalk_of_none ip hnone]
        exact ⟨Option.some.inj h, by simp⟩
      cases hlength : extLength next (ip (at' + 1)) with
      | none => simp [hlength] at h
      | some hlen =>
          simp only [hlength] at h
          split_ifs at h with hfits hplain
          obtain ⟨kind, hkind, hlen'⟩ := ofNext_of_extLength hlength
          obtain ⟨hfound, hneutral⟩ := ih h
          rw [headerWalk_of_some ip hkind hlen' (by omega)]
          refine ⟨hfound, fun header hheader ↦ ?_⟩
          rcases List.mem_cons.mp hheader with rfl | hrest
          · exact neutral_of_extPlain hkind (by simpa using hplain)
          · exact hneutral header hrest

/-- **The shape of an IPv6 frame.**  The function reads nothing at or past the length and returns.
A positive answer is the protocol, the offset and the length that the walk of the header formats
gives, and every header passed leaves the transport checksum alone. -/
theorem n68kRxv6Shape_sound (ip : Mem) (length : Nat) :
    n68kRxv6ShapeChecked ip length = some (n68kRxv6Shape ip length) ∧
      ∀ shape, n68kRxv6Shape ip length = some shape →
        40 + (rd16 ip 4).toNat ≤ length ∧
        (headerWalk ip (40 + (rd16 ip 4).toNat) (ip 6).toNat 40).2 =
          (shape.protocol, shape.offset) ∧
        shape.offset + shape.payload = 40 + (rd16 ip 4).toNat ∧
        ∀ header ∈ (headerWalk ip (40 + (rd16 ip 4).toNat) (ip 6).toNat 40).1,
          header.Neutral ip := by
  refine ⟨n68kRxv6ShapeChecked_eq ip length, fun shape h ↦ ?_⟩
  unfold n68kRxv6Shape at h
  split_ifs at h with hshort
  simp only at h
  split_ifs at h with hlength
  cases hchain : chainLoop ip (40 + (rd16 ip 4).toNat) (ip 6).toNat 40 v6MaxExt with
  | none => simp [hchain] at h
  | some found =>
      obtain ⟨hfound, hneutral⟩ := chainLoop_sound hchain
      simp only [hchain] at h
      -- whichever of the transports it is, its header ends inside the frame
      split_ifs at h
      all_goals
        obtain rfl := Option.some.inj h
        exact ⟨by omega, hfound, by simp only; omega, hneutral⟩

/-- A frame whose hop-by-hop header carries a home address option, with eight bytes of ICMPv6
behind it. -/
def homeAddressFrame : Mem := fun i ↦
  ([0x60, 0, 0, 0, 0, 32, 0, 64] ++ List.replicate 32 0x20 ++
    [58, 2, 201, 16] ++ List.replicate 16 0x30 ++ [1, 2, 0, 0] ++
    [128, 0, 0, 0, 0, 1, 0, 1]).getD i 0

theorem n68kRxv6Shape_sound_homeAddressFrame :
    n68kRxv6Shape homeAddressFrame 72 = some ⟨protocolIcmpv6, 64, 8⟩ ∧
      (headerWalk homeAddressFrame 72 0 40).2 = (protocolIcmpv6, 64) := by
  have hshape : n68kRxv6Shape homeAddressFrame 72 = some ⟨protocolIcmpv6, 64, 8⟩ := by decide
  have hwalk := ((n68kRxv6Shape_sound homeAddressFrame 72).2 _ hshape).2.1
  exact ⟨hshape, hwalk⟩

/-- **Hop-by-hop options are not looked at.**  A hop-by-hop header that carries a home address is
passed like any other. -/
theorem n68kRxv6Shape_skips_hopByHop :
    n68kRxv6Shape homeAddressFrame 72 = some ⟨protocolIcmpv6, 64, 8⟩ ∧
      (headerWalk homeAddressFrame 72 0 40).1 = [⟨.hopByHop, 40, 24⟩] ∧
      Memory.read homeAddressFrame 42 22 =
        encodeOptions [.option 201 (List.replicate 16 0x30) (by decide) (by decide),
          .option 1 [0, 0] (by decide) (by decide)] ∧
      ¬PlainOptions (Memory.read homeAddressFrame 42 22) := by
  have hread : Memory.read homeAddressFrame 42 22 =
      201 :: 16 :: (List.replicate 16 0x30 ++ [1, 2, 0, 0]) := by decide
  refine ⟨by decide, ?_, hread, ?_⟩
  · have hkind : ExtKind.ofNext 0 = some .hopByHop := rfl
    have hlength : ExtKind.hopByHop.length (homeAddressFrame (40 + 1)) = 24 := by decide
    rw [headerWalk_of_some homeAddressFrame hkind hlength (by decide),
      headerWalk_of_none homeAddressFrame (by decide)]
  · rw [hread, plainOptions_option_iff (by decide)]
    exact fun h ↦ h.1 rfl

end AmiNetXDuo.Net68k
