import AmiNetXDuo.Config.Interface

/-!
# The lines of an interface file

When CheckNetConfig objects to a value it names the line the value stands on. For that it reads the
file again, with one reader for each field, and each of them has to take and refuse the values the
parser takes and refuses.

## Main definitions

* `acceptedLine` : the readers of the fields in which the last accepted value stands.
* `amiCfgInterfaceAddressLine`, `amiCfgInterfaceNetmaskLine`, `amiCfgInterfaceGatewayLine`,
  `amiCfgInterfaceDeviceLine`, `amiCfgInterfaceCardLine`, `amiCfgInterfaceUnitLine`: the six of
  them.
* `amiCfgAddress6Line` : the reader of the IPv6 addresses, which are counted.

## Main results

* `foldl_kept` : the parser keeps the last value a reader accepts.
* `interfaceLines_parse` : every reader names the line the parser took the value from.
-/

namespace AmiNetXDuo.Config

open AmiNetXDuo.Netstack (cfgNameLen domainSame domainSame_iff)

/-! ### The readers -/

/-- The last pair that is accepted, with its value. -/
def lastAccepted {α : Type} (accept : Pair → Option α) (ps : List Pair) : Option (Kept α) :=
  ps.foldl (fun kept p ↦ match accept p with
    | some value => some ⟨value, p.line⟩
    | none => kept) none

/-- The loop of the six readers: the line of the last accepted value, if that is the one wanted. -/
def acceptedLine {α : Type} (accept : Pair → Option α) (wanted : α → Bool) (buf : List UInt8) : ℕ :=
  match lastAccepted accept (filePairs buf) with
  | some kept => if wanted kept.value then kept.line else 0
  | none => 0

/-- `is_iptype_name`. -/
def isIptypeName (value : List UInt8) : Bool :=
  ["dhcp", "bootp", "auto", "fastauto", "zeroconf", "linklocal", "static", "manual", "none", "off",
    "no", "disabled"].any (isWord value ·)

/-- `is_known_card`. -/
def isKnownCard (value : List UInt8) : Bool := anxnetCardNames.any (isWord value ·)

/-- What `ami_cfg_interface_address_line` accepts. -/
def acceptAddress (p : Pair) : Option ℕ :=
  if ! isWord p.key "address" && ! isWord p.key "ipaddress" then none
  else if isIptypeName p.value then none
  else parseIp p.value

/-- What `ami_cfg_interface_netmask_line` accepts. -/
def acceptNetmask (p : Pair) : Option ℕ :=
  if ! isWord p.key "netmask" && ! isWord p.key "subnetmask" then none
  else if isIptypeName p.value then none
  else parseIp p.value

/-- What `ami_cfg_interface_gateway_line` accepts. -/
def acceptGateway (p : Pair) : Option ℕ :=
  if ! isWord p.key "gateway" then none else parseIp p.value

/-- What `ami_cfg_interface_device_line` accepts, and keeps of it. -/
def acceptDevice (p : Pair) : Option (List UInt8) :=
  if ! isWord p.key "device" then none
  else if p.value = [] then none
  else some (p.value.take (cfgPathLen - 1))

/-- What `ami_cfg_interface_card_line` accepts, and keeps of it. -/
def acceptCard (p : Pair) : Option (List UInt8) :=
  if ! isWord p.key "card" then none
  else if ! isKnownCard p.value then none
  else some (p.value.take (cfgNameLen - 1))

/-- What `ami_cfg_interface_unit_line` accepts. -/
def acceptUnit (p : Pair) : Option ℕ :=
  if ! isWord p.key "unit" then none else amiCfgParseUlong p.value

/-- `ami_cfg_interface_address_line`. -/
def amiCfgInterfaceAddressLine (buf : List UInt8) (want : ℕ) : ℕ :=
  acceptedLine acceptAddress (· == want) buf

/-- `ami_cfg_interface_netmask_line`. -/
def amiCfgInterfaceNetmaskLine (buf : List UInt8) (want : ℕ) : ℕ :=
  acceptedLine acceptNetmask (· == want) buf

/-- `ami_cfg_interface_gateway_line`. -/
def amiCfgInterfaceGatewayLine (buf : List UInt8) (want : ℕ) : ℕ :=
  acceptedLine acceptGateway (· == want) buf

/-- `ami_cfg_interface_device_line`. -/
def amiCfgInterfaceDeviceLine (buf want : List UInt8) : ℕ :=
  acceptedLine acceptDevice (domainSame · want) buf

/-- `ami_cfg_interface_card_line`. -/
def amiCfgInterfaceCardLine (buf want : List UInt8) : ℕ :=
  acceptedLine acceptCard (domainSame · want) buf

/-- `ami_cfg_interface_unit_line`. -/
def amiCfgInterfaceUnitLine (buf : List UInt8) (want : ℕ) : ℕ :=
  acceptedLine acceptUnit (· == want) buf

/-- The zone is the interface's, or there is none. -/
def isOwnZone (ifname : Option (List UInt8)) : Option (List UInt8) → Bool
  | none => true
  | some zone => (ifname.map (domainSame zone)).getD false

/-- What `ami_cfg_address6_line` accepts, apart from the number of addresses. -/
def acceptAddress6 (ifname : Option (List UInt8)) (p : Pair) : Option (List ℕ) :=
  if ! isWord p.key "address6" && ! isWord p.key "ipaddress6" then none
  else match parseIp6Zone true p.value with
    | none => none
    | some parsed => if isOwnZone ifname parsed.zone then some parsed.words else none

/-- The loop of `ami_cfg_address6_line`. -/
def address6LineLoop (ifname : Option (List UInt8)) (want : List ℕ) : ℕ → ℕ → List Pair → ℕ
  | _, _, [] => 0
  | kept, occur, p :: ps =>
    match acceptAddress6 ifname p with
    | none => address6LineLoop ifname want kept occur ps
    | some addr =>
      if cfgMaxAddress6 ≤ kept then address6LineLoop ifname want kept occur ps
      else if addr = want then
        if occur = 0 then p.line
        else address6LineLoop ifname want (kept + 1) (occur - 1) ps
      else address6LineLoop ifname want (kept + 1) occur ps

/-- `ami_cfg_address6_line`. -/
def amiCfgAddress6Line (buf : List UInt8) (ifname : Option (List UInt8)) (want : List ℕ)
    (occur : ℕ) : ℕ :=
  address6LineLoop ifname want 0 occur (filePairs buf)

/-! ### The last accepted value -/

/-- A field after a pair: the value that was accepted, or the one before. -/
def Kept.update {α : Type} (old : Kept α) (line : ℕ) : Option α → Kept α
  | some value => ⟨value, line⟩
  | none => old

section Kept

variable {α : Type} {accept : Pair → Option α} (get : IfState → Kept α)

/-- A field that every pair either sets to what a reader accepts or leaves alone holds the last
value the reader accepts. -/
theorem foldl_kept (hstep : ∀ s p, get (ifPair s p) = (get s).update p.line (accept p))
    (ps : List Pair) (s : IfState) :
    get (ps.foldl ifPair s) = (lastAccepted accept ps).getD (get s) := by
  induction ps using List.reverseRecOn with
  | nil => rfl
  | append_singleton ps p ih =>
    rw [List.foldl_concat, hstep, lastAccepted, List.foldl_concat, ← lastAccepted]
    cases accept p with
    | some value => rfl
    | none => exact ih

/-- The reader of such a field names its line. -/
theorem acceptedLine_kept (hstep : ∀ s p, get (ifPair s p) = (get s).update p.line (accept p))
    {wanted : α → α → Bool} (hwanted : ∀ a, wanted a a = true) (buf : List UInt8)
    (name : Option (List UInt8)) (hstart : (get (ifStart name)).line = 0) :
    acceptedLine accept (wanted · (get ((filePairs buf).foldl ifPair (ifStart name))).value) buf =
      (get ((filePairs buf).foldl ifPair (ifStart name))).line := by
  rw [foldl_kept get hstep]
  unfold acceptedLine
  cases lastAccepted accept (filePairs buf) with
  | none => exact hstart.symm
  | some kept => exact if_pos (hwanted kept.value)

end Kept

/-! ### The readers and the parser accept the same -/

theorem isWord_or_iff {key : IfKey} (hkey : key ≠ .unknown) {a b : String}
    (hnames : ifNames key = [a, b]) (word : List UInt8) :
    (! isWord word a && ! isWord word b) = true ↔ lookupIfKeyword word ≠ key := by
  rw [Ne, lookupIfKeyword_eq_iff word hkey, hnames]
  simp

theorem isWord_iff {key : IfKey} (hkey : key ≠ .unknown) {a : String}
    (hnames : ifNames key = [a]) (word : List UInt8) :
    (! isWord word a) = true ↔ lookupIfKeyword word ≠ key := by
  rw [Ne, lookupIfKeyword_eq_iff word hkey, hnames]
  simp

/-- The words the readers skip are the modes of the parser. -/
theorem isIptypeName_iff (value : List UInt8) :
    isIptypeName value = (lookupIpmode value iptypeNames).isSome := by
  rw [lookupIpmode, Option.isSome_map, List.isSome_find?, isIptypeName]
  rfl

theorem isIptypeName_takeAddress {s : IfState} {value : List UInt8} {store : ℕ → IfState} :
    takeAddress s value store =
      match if isIptypeName value then none else parseIp value with
      | some ip => store ip
      | none => { s with iptype := (lookupIpmode value iptypeNames).getD s.iptype } := by
  rw [takeAddress, isIptypeName_iff]
  cases lookupIpmode value iptypeNames with
  | some type => rfl
  | none => cases parseIp value <;> rfl

/-- A reader that takes the values of one keyword, and the branch of the parser for it. -/
theorem ifPair_kept {α : Type} (get : IfState → Kept α) {key : IfKey} {value : Option α}
    {skip : Bool} (s : IfState) (p : Pair) (hskip : skip = true ↔ lookupIfKeyword p.key ≠ key)
    (htake : get (takeKey key s p) = (get s).update p.line value)
    (hframe : lookupIfKeyword p.key ≠ key → get (takeKey (lookupIfKeyword p.key) s p) = get s) :
    get (ifPair s p) = (get s).update p.line (if skip then none else value) := by
  rw [ifPair]
  by_cases h : lookupIfKeyword p.key = key
  · rw [if_neg fun hc ↦ hskip.mp hc h, h]
    exact htake
  · rw [if_pos (hskip.mpr h)]
    exact hframe h

theorem ifPair_address (s : IfState) (p : Pair) :
    (ifPair s p).address = s.address.update p.line (acceptAddress p) := by
  have hnames : ifNames .address = ["address", "ipaddress"] := by decide +kernel
  rw [acceptAddress]
  refine ifPair_kept (fun s ↦ s.address) s p (isWord_or_iff (by decide) hnames p.key) ?_
    (takeKey_frame _ s p).address
  rw [takeKey, isIptypeName_takeAddress]
  cases if isIptypeName p.value then none else parseIp p.value <;> rfl

theorem ifPair_netmask (s : IfState) (p : Pair) :
    (ifPair s p).netmask = s.netmask.update p.line (acceptNetmask p) := by
  have hnames : ifNames .netmask = ["netmask", "subnetmask"] := by decide +kernel
  rw [acceptNetmask]
  refine ifPair_kept (fun s ↦ s.netmask) s p (isWord_or_iff (by decide) hnames p.key) ?_
    (takeKey_frame _ s p).netmask
  rw [takeKey, isIptypeName_takeAddress]
  cases if isIptypeName p.value then none else parseIp p.value <;> rfl

theorem ifPair_gateway (s : IfState) (p : Pair) :
    (ifPair s p).gateway = s.gateway.update p.line (acceptGateway p) := by
  have hnames : ifNames .gateway = ["gateway"] := by decide +kernel
  rw [acceptGateway]
  refine ifPair_kept (fun s ↦ s.gateway) s p (isWord_iff (by decide) hnames p.key) ?_
    (takeKey_frame _ s p).gateway
  rw [takeKey]
  cases parseIp p.value <;> rfl

theorem ifPair_device (s : IfState) (p : Pair) :
    (ifPair s p).device = s.device.update p.line (acceptDevice p) := by
  have hnames : ifNames .device = ["device"] := by decide +kernel
  rw [acceptDevice]
  refine ifPair_kept (fun s ↦ s.device) s p (isWord_iff (by decide) hnames p.key) ?_
    (takeKey_frame _ s p).device
  rw [takeKey]
  split <;> rfl

theorem ifPair_card (s : IfState) (p : Pair) :
    (ifPair s p).card = s.card.update p.line (acceptCard p) := by
  have hnames : ifNames .card = ["card"] := by decide +kernel
  rw [acceptCard]
  refine ifPair_kept (fun s ↦ s.card) s p (isWord_iff (by decide) hnames p.key) ?_
    (takeKey_frame _ s p).card
  rw [takeKey, cfgCardKnown, ← isKnownCard]
  cases isKnownCard p.value <;> rfl

theorem ifPair_unit (s : IfState) (p : Pair) :
    (ifPair s p).unit = s.unit.update p.line (acceptUnit p) := by
  have hnames : ifNames (.number .unit) = ["unit"] := by decide +kernel
  rw [acceptUnit]
  refine ifPair_kept (fun s ↦ s.unit) s p (isWord_iff (by decide) hnames p.key) ?_
    (takeKey_frame _ s p).unit
  rw [takeKey, numberValue]
  cases h : amiCfgParseUlong p.value with
  | none => rfl
  | some n =>
    have hrange : ((numberRange .unit).2 ≤ n && n ≤ (numberRange .unit).1) = true := by
      rw [Bool.and_eq_true]
      exact ⟨decide_eq_true (Nat.zero_le n), decide_eq_true (amiCfgParseUlong_le h)⟩
    rw [Option.filter_some, if_pos hrange]
    rfl

/-! ### The addresses that are counted -/

/-- The pairs `ami_cfg_address6_line` accepts, however many. -/
def namedAddresses (ifname : Option (List UInt8)) (ps : List Pair) : List (Kept (List ℕ)) :=
  ps.filterMap fun p ↦ (acceptAddress6 ifname p).map fun addr ↦ ⟨addr, p.line⟩

theorem address6LineLoop_eq (ifname : Option (List UInt8)) (want : List ℕ) (kept occur : ℕ)
    (ps : List Pair) :
    address6LineLoop ifname want kept occur ps =
      occurLine (fun a ↦ a.value = want) Kept.line occur
        ((namedAddresses ifname ps).take (cfgMaxAddress6 - kept)) := by
  induction ps generalizing kept occur with
  | nil => rw [namedAddresses, List.filterMap_nil, List.take_nil]; rfl
  | cons p ps ih =>
    rw [address6LineLoop, namedAddresses]
    cases h : acceptAddress6 ifname p with
    | none => rw [List.filterMap_cons_none (by rw [h]; rfl)]; exact ih kept occur
    | some addr =>
      rw [List.filterMap_cons_some (by rw [h]; rfl), ← namedAddresses]
      simp only
      by_cases hfull : cfgMaxAddress6 ≤ kept
      · rw [if_pos hfull, ih, Nat.sub_eq_zero_of_le hfull, List.take_zero, List.take_zero]
      · have hroom : cfgMaxAddress6 - kept = (cfgMaxAddress6 - (kept + 1)) + 1 := by omega
        rw [if_neg hfull, hroom, List.take_succ_cons, occurLine_cons, ih, ih]
        simp only [decide_eq_true_eq]

/-- The addresses of the parser as the reader sees them. -/
def IfState.addresses (s : IfState) : List (Kept (List ℕ)) :=
  s.address6.map fun a ↦ ⟨a.value.addr, a.line⟩

/-- The parser takes the addresses the reader accepts, while there is room. -/
theorem ifPair_address6 (s : IfState) (p : Pair) :
    (ifPair s p).addresses =
      pushBounded cfgMaxAddress6 s.addresses
        ((acceptAddress6 (some s.name) p).map fun addr ↦ ⟨addr, p.line⟩) := by
  have hpush : ∀ a : Kept Ip6Address,
      (if cfgMaxAddress6 ≤ s.address6.length then s.addresses
        else (s.address6 ++ [a]).map fun a ↦ (⟨a.value.addr, a.line⟩ : Kept (List ℕ))) =
      pushBounded cfgMaxAddress6 s.addresses (some ⟨a.value.addr, a.line⟩) := by
    intro a
    rw [pushBounded, IfState.addresses, List.length_map, List.map_append]
    rfl
  have hnames : ifNames .address6 = ["address6", "ipaddress6"] := by decide +kernel
  have hskip := isWord_or_iff (by decide) hnames p.key
  rw [acceptAddress6, ifPair]
  by_cases h : lookupIfKeyword p.key = .address6
  · rw [if_neg fun hc ↦ hskip.mp hc h, h, takeKey, takeAddress6]
    cases parseIp6Zone true p.value with
    | none => rfl
    | some parsed =>
      have hzone : isOwnZone (some s.name) parsed.zone = cfgZoneOk s.name parsed.zone := by
        cases parsed.zone <;> rfl
      simp only [hzone]
      by_cases hok : cfgZoneOk s.name parsed.zone = true
      · rw [if_neg (by rw [hok]; decide), if_pos hok, Option.map_some,
          ← hpush ⟨⟨parsed.words, parsed.prefixLength.getD 64⟩, p.line⟩]
        split <;> rfl
      · rw [Bool.not_eq_true] at hok
        rw [if_pos (by rw [hok]; decide), if_neg (by rw [hok]; decide)]
        rfl
  · rw [if_pos (hskip.mpr h), IfState.addresses, (takeKey_frame _ s p).address6 h]
    rfl

/-- The addresses the parser ends with are the first two the reader accepts. -/
theorem foldl_address6 (ps : List Pair) (name : Option (List UInt8)) :
    (ps.foldl ifPair (ifStart name)).addresses =
      (namedAddresses (some (ifStart name).name) ps).take cfgMaxAddress6 :=
  foldl_bounded IfState.addresses (fun s ↦ s.name = (ifStart name).name)
    (fun s p hs ↦ (takeKey_frame _ s p).name.trans hs)
    (fun s p hs ↦ hs ▸ ifPair_address6 s p) ps (ifStart name) rfl (Nat.zero_le _)

theorem occurLine_map {α β : Type} (f : α → β) (hits : β → Bool) (lineOf : β → ℕ) (occur : ℕ)
    (l : List α) :
    occurLine hits lineOf occur (l.map f) = occurLine (hits ∘ f) (lineOf ∘ f) occur l := by
  rw [occurLine, occurLine, List.filter_map, List.getElem?_map, Option.map_map]

/-- What the end of the parser leaves alone. -/
theorem ifEnd_kept (s : IfState) :
    (ifEnd s).2.name = s.name ∧ (ifEnd s).2.address = s.address ∧ (ifEnd s).2.netmask = s.netmask ∧
    (ifEnd s).2.gateway = s.gateway ∧ (ifEnd s).2.device = s.device ∧ (ifEnd s).2.card = s.card ∧
    (ifEnd s).2.unit = s.unit ∧ (ifEnd s).2.address6 = s.address6 := by
  rw [ifEnd]
  split <;> exact ⟨rfl, rfl, rfl, rfl, rfl, rfl, rfl, rfl⟩

/-- **The readers mirror the parser.** For every file, the reader of each field, asked for the value
the parser kept, names the line of the pair the parser took it from, and zero when it took none. The
reader of the IPv6 addresses names the line of the `occur`-th kept address of that value, and zero
when there are not so many. -/
theorem interfaceLines_parse (name : Option (List UInt8)) (buf : List UInt8) :
    let out := (amiCfgParseInterface name buf).2
    amiCfgInterfaceAddressLine buf out.address.value = out.address.line ∧
    amiCfgInterfaceNetmaskLine buf out.netmask.value = out.netmask.line ∧
    amiCfgInterfaceGatewayLine buf out.gateway.value = out.gateway.line ∧
    amiCfgInterfaceDeviceLine buf out.device.value = out.device.line ∧
    amiCfgInterfaceCardLine buf out.card.value = out.card.line ∧
    amiCfgInterfaceUnitLine buf out.unit.value = out.unit.line ∧
    ∀ want occur, amiCfgAddress6Line buf (some out.name) want occur =
      occurLine (fun a ↦ a.value.addr = want) Kept.line occur out.address6 := by
  obtain ⟨hname, haddress, hnetmask, hgateway, hdevice, hcard, hunit, haddress6⟩ :=
    ifEnd_kept ((filePairs buf).foldl ifPair (ifStart name))
  simp only [amiCfgParseInterface, parsePairs]
  rw [hname, haddress, hnetmask, hgateway, hdevice, hcard, hunit, haddress6]
  have hnum : ∀ n : ℕ, (n == n) = true := fun n ↦ beq_self_eq_true n
  have htext : ∀ t : List UInt8, domainSame t t = true := fun t ↦ domainSame_iff.mpr rfl
  refine ⟨acceptedLine_kept (fun s ↦ s.address) ifPair_address hnum buf name rfl,
    acceptedLine_kept (fun s ↦ s.netmask) ifPair_netmask hnum buf name rfl,
    acceptedLine_kept (fun s ↦ s.gateway) ifPair_gateway hnum buf name rfl,
    acceptedLine_kept (fun s ↦ s.device) ifPair_device htext buf name rfl,
    acceptedLine_kept (fun s ↦ s.card) ifPair_card htext buf name rfl,
    acceptedLine_kept (fun s ↦ s.unit) ifPair_unit hnum buf name rfl, fun want occur ↦ ?_⟩
  rw [amiCfgAddress6Line, address6LineLoop_eq, foldl_name, Nat.sub_zero, ← foldl_address6,
    IfState.addresses, occurLine_map]
  rfl

end AmiNetXDuo.Config
