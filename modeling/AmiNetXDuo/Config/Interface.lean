import AmiNetXDuo.Config.Text

/-!
# Interface files

A file in `DEVS:NetInterfaces` describes one interface as a list of pairs. The parser takes every
pair in order; most keywords overwrite what an earlier one said. This is the build with IPv6 and
point-to-point links. What the parser reports to the user is left out.

Six of the fields and the IPv6 addresses carry the number of the line they were taken from, which
the source does not keep: CheckNetConfig computes it again with a reader for each of them.

## Main definitions

* `lookupIfKeyword` : the keywords and their aliases.
* `IfState`, `takeKey` : what the parser knows, and what it makes of one pair.
* `amiCfgParseInterface` : the parser.

## Main results

* `lookupIfKeyword_eq_iff` : a keyword is one of its names.
* `takeKey_frame` : what a keyword leaves alone.
-/

namespace AmiNetXDuo.Config

open AmiNetXDuo.Netstack (cfgNameLen domainKey domainSame domainSame_iff)

/-! ### Keywords -/

/-- The rows of `ami_if_numbers`. -/
inductive IfNumber
  | unit
  | mtu
  | rxbuffer
  | tcpackmax
  | tcpgrowrtt
  | tcpwanwindow
  | groframes
  | ackpace
  deriving DecidableEq, Repr

/-- The three request counts. -/
inductive IfRequests
  | ip
  | arp
  | write
  deriving DecidableEq, Repr

/-- `IfKey`. -/
inductive IfKey
  | unknown
  | ignored
  | device
  | card
  | linkspeed
  | id
  | address
  | netmask
  | gateway
  | configure
  | iptype
  | state
  | address6
  | gateway6
  | configure6
  | mdns
  | downgoesoffline
  | filter
  | requiresinitdelay
  | hardwareaddress
  | requests (which : IfRequests)
  | priority
  | pointtopoint
  | destination
  | destination6
  | number (which : IfNumber)
  deriving DecidableEq, Repr

/-- `ami_if_keywords`. -/
def ifKeywords : List (String × IfKey) :=
  [("device", .device), ("card", .card), ("linkspeed", .linkspeed), ("id", .id),
    ("unit", .number .unit), ("mdns", .mdns), ("address", .address), ("ipaddress", .address),
    ("netmask", .netmask), ("subnetmask", .netmask), ("gateway", .gateway), ("mtu", .number .mtu),
    ("configure", .configure), ("iptype", .iptype), ("state", .state),
    ("downgoesoffline", .downgoesoffline), ("filter", .filter),
    ("requiresinitdelay", .requiresinitdelay), ("hardwareaddress", .hardwareaddress),
    ("iprequests", .requests .ip), ("arprequests", .requests .arp),
    ("writerequests", .requests .write), ("rxbuffer", .number .rxbuffer),
    ("tcpackmax", .number .tcpackmax), ("tcpgrowrtt", .number .tcpgrowrtt),
    ("tcpwanwindow", .number .tcpwanwindow), ("groframes", .number .groframes),
    ("ackpace", .number .ackpace), ("priority", .priority), ("pri", .priority),
    ("address6", .address6), ("ipaddress6", .address6), ("gateway6", .gateway6),
    ("configure6", .configure6), ("iptype6", .configure6), ("arptype", .ignored),
    ("debug", .ignored), ("pointtopoint", .pointtopoint), ("multicast", .ignored),
    ("reportoffline", .ignored), ("copymode", .ignored), ("alias", .ignored),
    ("destination", .destination), ("destinationaddr", .destination),
    ("destinationaddress", .destination), ("hardwaretype", .ignored),
    ("broadcastaddress", .ignored), ("metric", .ignored), ("lease", .ignored),
    ("dhcpunicast", .ignored), ("linkstatuscommand", .ignored), ("nameserver", .ignored),
    ("domain", .ignored), ("pointopoint", .pointtopoint), ("destination6", .destination6)]

/-- `lookup_if_keyword`. -/
def lookupIfKeyword (name : List UInt8) : IfKey :=
  ((ifKeywords.find? fun k ↦ isWord name k.1).map Prod.snd).getD .unknown

/-- The names of a keyword. -/
def ifNames (key : IfKey) : List String := (ifKeywords.filter (·.2 = key)).map Prod.fst

/-- No name stands in the table for two keywords. -/
theorem ifKeywords_unique : ∀ a ∈ ifKeywords, ∀ b ∈ ifKeywords,
    domainKey (bytes a.1) = domainKey (bytes b.1) → a.2 = b.2 := by
  decide +kernel

theorem lookupIfKeyword_eq_iff (name : List UInt8) {key : IfKey} (hkey : key ≠ .unknown) :
    lookupIfKeyword name = key ↔ (ifNames key).any (isWord name ·) = true := by
  rw [lookupIfKeyword, List.any_eq_true]
  constructor
  · intro h
    cases hfind : ifKeywords.find? fun k ↦ isWord name k.1 with
    | none =>
      rw [hfind] at h
      exact absurd h.symm hkey
    | some k =>
      have hname : isWord name k.1 = true := by simpa using List.find?_some hfind
      rw [hfind] at h
      refine ⟨k.1, List.mem_map.mpr ⟨k, ?_, rfl⟩, hname⟩
      exact List.mem_filter.mpr ⟨List.mem_of_find?_eq_some hfind, decide_eq_true h⟩
  · rintro ⟨word, hword, hname⟩
    obtain ⟨k, hk, rfl⟩ := List.mem_map.mp hword
    obtain ⟨hmem, hkey'⟩ := List.mem_filter.mp hk
    cases hfind : ifKeywords.find? fun k ↦ isWord name k.1 with
    | none => exact absurd hname (List.find?_eq_none.mp hfind k hmem)
    | some k' =>
      have hname' : isWord name k'.1 = true := by simpa using List.find?_some hfind
      have hsame : domainKey (bytes k'.1) = domainKey (bytes k.1) :=
        (domainSame_iff.mp hname').symm.trans (domainSame_iff.mp hname)
      exact (ifKeywords_unique k' (List.mem_of_find?_eq_some hfind) k hmem hsame).trans
        (of_decide_eq_true hkey')

/-! ### Values -/

/-- `AmiIpType`. -/
inductive IpType
  | static
  | dhcp
  | linklocal
  | none
  deriving DecidableEq, Repr

/-- `AmiIp6Type`. -/
inductive Ip6Type
  | off
  | linklocal
  | auto
  | static
  | dhcp
  deriving DecidableEq, Repr

/-- `AMI_CFG_PTP_*`. -/
inductive PointToPoint
  | auto
  | yes
  | no
  deriving DecidableEq, Repr

/-- `ami_iptype_names`. -/
def iptypeNames : List (String × IpType) :=
  [("dhcp", .dhcp), ("bootp", .dhcp), ("auto", .linklocal), ("fastauto", .linklocal),
    ("zeroconf", .linklocal), ("linklocal", .linklocal), ("static", .static), ("manual", .static),
    ("none", .none), ("off", .none), ("no", .none), ("disabled", .none)]

/-- `ami_ip6type_names`. -/
def ip6typeNames : List (String × Ip6Type) :=
  [("off", .off), ("no", .off), ("none", .off), ("disabled", .off), ("linklocal", .linklocal),
    ("link-local", .linklocal), ("local", .linklocal), ("auto", .auto), ("slaac", .auto),
    ("stateless", .auto), ("ra", .auto), ("static", .static), ("manual", .static),
    ("dhcp", .dhcp), ("dhcpv6", .dhcp), ("stateful", .dhcp)]

/-- `lookup_ipmode`. -/
def lookupIpmode {α : Type} (value : List UInt8) (modes : List (String × α)) : Option α :=
  (modes.find? fun m ↦ isWord value m.1).map Prod.snd

/-- `ANXNET_CARD_NAMES`. -/
def anxnetCardNames : List String :=
  ["xsurf100", "xsurf", "ariadne2", "hydra", "lanrover", "a2065", "ariadne", "pcmcia", "xsurf500",
    "3c589", "3ccfem556", "3cxem556", "ameristar", "genet", "zz9000", "zz9000z2"]

/-- `cfg_card_known`. -/
def cfgCardKnown (name : List UInt8) : Bool := anxnetCardNames.any (isWord name ·)

/-- `max` and `nonzero` of a row of `ami_if_numbers`. -/
def numberRange : IfNumber → ℕ × ℕ
  | .unit | .mtu | .rxbuffer => (0xFFFFFFFF, 0)
  | .tcpackmax | .tcpgrowrtt => (65535, 1)
  | .tcpwanwindow => (1048576, 1)
  | .groframes => (16, 1)
  | .ackpace => (1000000, 1)

/-- The number a row takes; the width of its field holds every number in range. -/
def numberValue (which : IfNumber) (value : List UInt8) : Option ℕ :=
  (amiCfgParseUlong value).filter fun n ↦
    (numberRange which).2 ≤ n && n ≤ (numberRange which).1

/-- The ceiling of a request count. -/
def requestsMax : IfRequests → ℕ
  | .ip | .arp => 128
  | .write => 32

/-- `parse_request_count`: zero is refused, a number above the ceiling is used as the ceiling. -/
def parseRequestCount (which : IfRequests) (value : List UInt8) : Option ℕ :=
  ((amiCfgParseUlong value).filter (· ≠ 0)).map fun n ↦
    if requestsMax which < n then requestsMax which else n

/-- `AMI_CFG_IP6_ZONE_LEN`. -/
def cfgIp6ZoneLen : ℕ := 16

/-- `ami_config_parse_ip6_zone` as the parser calls it. -/
def parseIp6Zone (prefixWanted : Bool) (value : List UInt8) : Option Ip6Text :=
  amiConfigParseIp6Zone .machine prefixWanted cfgIp6ZoneLen value

/-- `cfg_zone_ok`. -/
def cfgZoneOk (name : List UInt8) : Option (List UInt8) → Bool
  | none => true
  | some zone => domainSame zone name

/-- `::` and the groups, which are no peer. -/
def noPeer (words : List ℕ) : Bool :=
  words.foldl (· ||| ·) 0 == 0 || words.getD 0 0 &&& 0xFF000000 == 0xFF000000

/-! ### The parser -/

/-- `AmiIp6Address`. -/
structure Ip6Address where
  addr : List ℕ
  prefixLength : ℕ
  deriving DecidableEq, Repr

/-- `AMI_CFG_MAX_ADDRESS6`. -/
def cfgMaxAddress6 : ℕ := 2

/-- `AMI_CFG_PATH_LEN`. -/
def cfgPathLen : ℕ := 128

/-- `AmiIfConfig`, with the values the parser starts from. -/
structure IfConfig where
  name : List UInt8
  id : List UInt8 := []
  device : Kept (List UInt8) := ⟨[], 0⟩
  unit : Kept ℕ := ⟨0, 0⟩
  card : Kept (List UInt8) := ⟨[], 0⟩
  iptype : IpType := .static
  address : Kept ℕ := ⟨0, 0⟩
  netmask : Kept ℕ := ⟨0, 0⟩
  gateway : Kept ℕ := ⟨0, 0⟩
  mtu : ℕ := 0
  ipRequests : ℕ := 0
  arpRequests : ℕ := 0
  writeRequests : ℕ := 0
  rxBuffer : ℕ := 0
  tcpAckMax : ℕ := 0
  tcpGrowRtt : ℕ := 0
  tcpWanWindow : ℕ := 0
  groFrames : ℕ := 0
  ackPaceKbps : ℕ := 0
  priority : ℤ := 0
  up : Bool := true
  configured : Bool := false
  downGoesOffline : Bool := false
  requiresInitDelay : Bool := false
  haveHwAddress : Bool := false
  hwAddress : List UInt8 := [0, 0, 0, 0, 0, 0]
  mdns : Bool := false
  promiscuous : Bool := false
  ip6type : Ip6Type := .auto
  address6 : List (Kept Ip6Address) := []
  gateway6 : List ℕ := [0, 0, 0, 0]
  haveGateway6 : Bool := false
  linkSpeed : ℕ := 0
  pointToPoint : PointToPoint := .auto
  destination : ℕ := 0
  destination6 : List ℕ := [0, 0, 0, 0]
  haveDestination6 : Bool := false
  deriving DecidableEq, Repr

/-- The configuration and the flags of the parser. -/
structure IfState extends IfConfig where
  haveDevice : Bool := false
  badCard : Bool := false
  badLinkSpeed : Bool := false
  haveConfigure6 : Bool := false
  deriving DecidableEq, Repr

/-- `ADDRESS` and `NETMASK`: a mode word sets the mode, an address is stored by `store`. -/
def takeAddress (s : IfState) (value : List UInt8) (store : ℕ → IfState) : IfState :=
  match lookupIpmode value iptypeNames with
  | some type => { s with iptype := type }
  | none =>
    match parseIp value with
    | some ip => store ip
    | none => s

/-- The numbers of `ami_if_numbers`. -/
def storeNumber (s : IfState) (which : IfNumber) (n line : ℕ) : IfState :=
  match which with
  | .unit => { s with unit := ⟨n, line⟩ }
  | .mtu => { s with mtu := n }
  | .rxbuffer => { s with rxBuffer := n }
  | .tcpackmax => { s with tcpAckMax := n }
  | .tcpgrowrtt => { s with tcpGrowRtt := n }
  | .tcpwanwindow => { s with tcpWanWindow := n }
  | .groframes => { s with groFrames := n }
  | .ackpace => { s with ackPaceKbps := n }

def storeRequests (s : IfState) (which : IfRequests) (n : ℕ) : IfState :=
  match which with
  | .ip => { s with ipRequests := n }
  | .arp => { s with arpRequests := n }
  | .write => { s with writeRequests := n }

/-- `ADDRESS6`: parsed on the side, and taken when the zone is this interface's and there is
room. -/
def takeAddress6 (s : IfState) (p : Pair) : IfState :=
  match parseIp6Zone true p.value with
  | none => s
  | some parsed =>
    if ! cfgZoneOk s.name parsed.zone then s
    else if cfgMaxAddress6 ≤ s.address6.length then s
    else { s with
      address6 := s.address6 ++ [⟨⟨parsed.words, parsed.prefixLength.getD 64⟩, p.line⟩]
      ip6type := if s.haveConfigure6 then s.ip6type else .static }

/-- `GATEWAY6`: parsed straight into its field. -/
def takeGateway6 (s : IfState) (value : List UInt8) : IfState :=
  match parseIp6Zone false value with
  | none => s
  | some parsed =>
    { s with
      gateway6 := parsed.words
      haveGateway6 := s.haveGateway6 || cfgZoneOk s.name parsed.zone }

/-- `DESTINATION6`: parsed straight into its field. -/
def takeDestination6 (s : IfState) (value : List UInt8) : IfState :=
  match parseIp6Zone false value with
  | none => { s with haveDestination6 := false }
  | some parsed =>
    { s with
      destination6 := parsed.words
      haveDestination6 :=
        if noPeer parsed.words then false
        else s.haveDestination6 || cfgZoneOk s.name parsed.zone }

/-- `LINKSPEED`. -/
def takeLinkspeed (s : IfState) (value : List UInt8) : IfState :=
  if isWord value "auto" then { s with linkSpeed := 0 }
  else if amiCfgParseUlong value = some 10 then { s with linkSpeed := 10 }
  else { s with badLinkSpeed := true }

/-- `PRIORITY`, a signed byte. -/
def takePriority (s : IfState) (value : List UInt8) : IfState :=
  match amiCfgParseLong value with
  | none => s
  | some pri => if -128 ≤ pri ∧ pri ≤ 127 then { s with priority := pri } else s

/-- `IPTYPE`: a number is a packet type and ignored. -/
def takeIptype (s : IfState) (value : List UInt8) : IfState :=
  match amiCfgParseUlong value, lookupIpmode value iptypeNames with
  | none, some type => { s with iptype := type }
  | _, _ => s

/-- `STATE`. -/
def takeState (s : IfState) (value : List UInt8) : IfState :=
  if isWord value "up" || isWord value "online" then { s with up := true }
  else if isWord value "down" || isWord value "offline" then { s with up := false }
  else s

/-- One pair of a file, behind `lookup_if_keyword`. -/
def takeKey (key : IfKey) (s : IfState) (p : Pair) : IfState :=
  match key with
  | .device =>
    if p.value = [] then s
    else { s with device := ⟨p.value.take (cfgPathLen - 1), p.line⟩, haveDevice := true }
  | .card =>
    if cfgCardKnown p.value then { s with card := ⟨p.value.take (cfgNameLen - 1), p.line⟩ }
    else { s with badCard := true }
  | .linkspeed => takeLinkspeed s p.value
  | .id => { s with id := p.value.take (cfgNameLen - 1) }
  | .priority => takePriority s p.value
  | .address => takeAddress s p.value fun ip ↦ { s with address := ⟨ip, p.line⟩ }
  | .netmask => takeAddress s p.value fun ip ↦ { s with netmask := ⟨ip, p.line⟩ }
  | .gateway =>
    match parseIp p.value with
    | some ip => { s with gateway := ⟨ip, p.line⟩ }
    | none => s
  | .pointtopoint =>
    match amiCfgParseBool p.value with
    | some yes => { s with pointToPoint := if yes then .yes else .no }
    | none => s
  -- A bad peer takes an earlier one away.
  | .destination => { s with destination := (parseIp p.value).getD 0 }
  | .number which =>
    match numberValue which p.value with
    | some n => storeNumber s which n p.line
    | none => s
  | .requests which =>
    match parseRequestCount which p.value with
    | some n => storeRequests s which n
    | none => s
  | .configure =>
    match lookupIpmode p.value iptypeNames with
    | some type => { s with iptype := type }
    | none => s
  | .iptype => takeIptype s p.value
  -- These are off after a value that is not understood.
  | .mdns => { s with mdns := (amiCfgParseBool p.value).getD false }
  | .filter => { s with promiscuous := isWord p.value "everything" }
  | .downgoesoffline => { s with downGoesOffline := (amiCfgParseBool p.value).getD false }
  | .requiresinitdelay => { s with requiresInitDelay := (amiCfgParseBool p.value).getD false }
  | .hardwareaddress =>
    { s with
      hwAddress := (amiCfgParseMac p.value s.hwAddress).1
      haveHwAddress := (amiCfgParseMac p.value s.hwAddress).2 }
  | .state => takeState s p.value
  | .address6 => takeAddress6 s p
  | .gateway6 => takeGateway6 s p.value
  | .destination6 => takeDestination6 s p.value
  | .configure6 =>
    match lookupIpmode p.value ip6typeNames with
    | some type => { s with ip6type := type, haveConfigure6 := true }
    | none => s
  | .ignored => s
  | .unknown => s

/-- One pair of a file. -/
def ifPair (s : IfState) (p : Pair) : IfState := takeKey (lookupIfKeyword p.key) s p

/-- The configuration before the first line: the name is cut to `AMI_CFG_IFNAME_MAX`. -/
def ifStart (name : Option (List UInt8)) : IfState := { name := (name.getD []).take 15 }

/-- What `ami_cfg_parse_interface` answers. -/
inductive CfgResult
  | ok
  | errSyntax
  deriving DecidableEq, Repr

/-- The end of `ami_cfg_parse_interface`. -/
def ifEnd (s : IfState) : CfgResult × IfConfig :=
  if ! s.haveDevice || s.badCard || s.badLinkSpeed then (.errSyntax, s.toIfConfig)
  else (.ok, { s.toIfConfig with
    ip6type := if s.ip6type = .static ∧ s.address6 = [] then .linklocal else s.ip6type
    configured := true })

/-- The parser on the pairs of a file. -/
def parsePairs (name : Option (List UInt8)) (ps : List Pair) : CfgResult × IfConfig :=
  ifEnd (ps.foldl ifPair (ifStart name))

/-- `ami_cfg_parse_interface`. -/
def amiCfgParseInterface (name : Option (List UInt8)) (buf : List UInt8) : CfgResult × IfConfig :=
  parsePairs name (filePairs buf)

/-! ### What a keyword leaves alone -/

/-- What a pair of the keyword `key` leaves alone of the fields that are looked up later. -/
structure Frame (key : IfKey) (s t : IfState) : Prop where
  name : t.name = s.name
  device : key ≠ .device → t.device = s.device
  card : key ≠ .card → t.card = s.card
  unit : key ≠ .number .unit → t.unit = s.unit
  address : key ≠ .address → t.address = s.address
  netmask : key ≠ .netmask → t.netmask = s.netmask
  gateway : key ≠ .gateway → t.gateway = s.gateway
  address6 : key ≠ .address6 → t.address6 = s.address6

theorem takeKey_frame (key : IfKey) (s : IfState) (p : Pair) : Frame key s (takeKey key s p) := by
  cases key with
  | number which =>
    cases which <;> simp only [takeKey, storeNumber] <;> split <;> constructor <;> intros <;>
      first | rfl | contradiction
  | requests which =>
    cases which <;> simp only [takeKey, storeRequests] <;> split <;> constructor <;> intros <;> rfl
  | _ =>
    simp only [takeKey, takeAddress, takeAddress6, takeGateway6, takeDestination6, takeLinkspeed,
      takePriority, takeIptype, takeState]
    repeat' split
    all_goals constructor <;> intros <;> first | rfl | contradiction

/-- The name of the interface is not a matter of the file. -/
theorem foldl_name (ps : List Pair) (s : IfState) : (ps.foldl ifPair s).name = s.name := by
  induction ps generalizing s with
  | nil => rfl
  | cons p ps ih => rw [List.foldl_cons, ih, ifPair, (takeKey_frame _ s p).name]

end AmiNetXDuo.Config
