import AmiNetXDuo.Config.Text
import AmiNetXDuo.Lib.LastWrite

/-!
# The routes file

`DEVS:Internet/routes` and `DEVS:Internet/default_gateway` are read by one parser. A line is a set
of pairs that is judged at its end: it sets the default gateway, stores a route, or does nothing.
CheckNetConfig names the line of the default gateway with a second reader of the same lines.

## Main definitions

* `cfgRouteDestination`, `cfgRouteStore` : the destination of a route, and the table.
* `amiCfgParseRoutes` : the parser.
* `amiCfgDefaultGatewayLine` : the line that sets the default gateway.
* `lineSetsDefault`, `lineRoute` : what the words of a line ask for.
* `DefaultKept`, `RoutesKept` : where it counts, no zero gateway stands behind an accepted one.

## Main results

* `gatewayPair_eq`, `routeLine_default`, `routeLine_staticRoute` : the readers do what the words ask
  for.
* `mem_storeRoute` : the table after one more route.
* `defaultGatewayLine_parse` : when the finder names the line of the parser's default gateway, and
  no route goes through 0.0.0.0.
-/

namespace AmiNetXDuo.Config

/-! ### Destinations and the table -/

/-- `CfgRouteKind`. -/
inductive RouteKind
  | dst
  | host
  | net
  deriving DecidableEq, Repr

/-- `cfg_route_mask`: a network at a trailing zero octet. -/
def cfgRouteMask (address : ℕ) : ℕ :=
  if address = 0 then 0
  else if address &&& 0x00FFFFFF = 0 then 0xFF000000
  else if address &&& 0x0000FFFF = 0 then 0xFFFF0000
  else if address &&& 0x000000FF = 0 then 0xFFFFFF00
  else 0xFFFFFFFF

/-- The prefix length behind the slash, at most 32. -/
def routeBits : ℕ → List UInt8 → Option ℕ
  | bits, [] => some bits
  | bits, c :: s =>
    match decimalDigit c with
    | none => none
    | some d => if 32 < bits * 10 + d then none else routeBits (bits * 10 + d) s

/-- The mask of a destination: the explicit prefix, or what its kind makes of it. -/
def routeNetmask (kind : RouteKind) (destination : ℕ) : Option ℕ → ℕ
  | some bits => if bits = 0 then 0 else 0xFFFFFFFF <<< (32 - bits) % 2 ^ 32
  | none => if kind = .host then 0xFFFFFFFF else cfgRouteMask destination

/-- `cfg_route_destination`: the network and its mask. -/
def cfgRouteDestination (text : List UInt8) (kind : RouteKind) : Option (ℕ × ℕ) := do
  let slash := '/'.toUInt8
  let bits ← match text.dropWhile (· != slash) with
    | [] => some none
    | [_] => none
    | _ :: digits => (routeBits 0 digits).map some
  let destination ← parseIp (text.takeWhile (· != slash))
  let netmask := routeNetmask kind destination bits
  if kind = .net ∧ (netmask = 0 ∨ netmask = 0xFFFFFFFF) then none
  else some (destination &&& netmask, netmask)

/-- `AMI_CFG_MAX_STATIC_ROUTES`. -/
def cfgMaxStaticRoutes : ℕ := 4

/-- `AmiRouteConfig`. -/
structure RouteConfig where
  destination : ℕ
  netmask : ℕ
  gateway : ℕ
  deriving DecidableEq, Repr

/-- `cfg_route_store`: a route of the same network is replaced, a new one needs room. -/
def cfgRouteStore (table : List RouteConfig) (destination netmask gateway : ℕ) :
    List RouteConfig :=
  match table.findIdx? fun r ↦ r.destination = destination ∧ r.netmask = netmask with
  | some i => table.modify i fun r ↦ { r with gateway := gateway }
  | none =>
    if cfgMaxStaticRoutes ≤ table.length then table
    else table ++ [⟨destination, netmask, gateway⟩]

/-! ### Lines -/

/-- What both readers know of a line. -/
structure GatewayLine where
  gateway : ℕ := 0
  haveGw : Bool := false
  gwSpelled : Bool := false
  haveDst : Bool := false
  isDefault : Bool := false
  deriving DecidableEq, Repr

/-- What the parser knows of a line. `destination` is the last one written there, nothing when it
was refused. -/
structure RouteLine extends GatewayLine where
  destination : Option (ℕ × ℕ) := none
  deriving DecidableEq, Repr

/-- `GATEWAY` and `VIA`. The address is stored before it is compared with zero. -/
def takeGateway (s : GatewayLine) (p : Pair) : GatewayLine :=
  match parseIp p.value with
  | none => s
  | some ip =>
    if ip ≠ 0 then
      { s with gateway := ip, haveGw := true, gwSpelled := s.gwSpelled || isWord p.key "gateway" }
    else { s with gateway := ip }

/-- `DEFAULT` and `DEFAULTGATEWAY`, whose value may be missing. -/
def takeDefault (s : GatewayLine) (value : List UInt8) : GatewayLine :=
  if value = [] then { s with isDefault := true }
  else match parseIp value with
    | none => { s with isDefault := true }
    | some ip => { s with isDefault := true, gateway := ip, haveGw := s.haveGw || decide (ip ≠ 0) }

/-- A destination of any of the three kinds. -/
def takeDestination (s : RouteLine) (kind : RouteKind) (value : List UInt8) : RouteLine :=
  { s with haveDst := true, destination := cfgRouteDestination value kind }

/-- The words of the three kinds of destination. -/
def destinationKind (key : List UInt8) : Option RouteKind :=
  if isWord key "dst" || isWord key "destination" then some .dst
  else if isWord key "hostdst" || isWord key "hostdestination" then some .host
  else if isWord key "netdst" || isWord key "netdestination" then some .net
  else none

/-- One pair of a line, to the parser. -/
def routePair (s : RouteLine) (p : Pair) : RouteLine :=
  if isWord p.key "gateway" || isWord p.key "via" then
    { s with toGatewayLine := takeGateway s.toGatewayLine p }
  else if isWord p.key "default" || isWord p.key "defaultgateway" then
    { s with toGatewayLine := takeDefault s.toGatewayLine p.value }
  else if isWord p.key "device" || isWord p.key "unit" then s
  else match destinationKind p.key with
    | some kind => takeDestination s kind p.value
    | none => s

/-- What the parser computes: the default gateway, zero when there is none, and the table of routes
when it was given one. -/
structure Routes where
  defaultGateway : ℕ
  staticRoute : Option (List RouteConfig)
  deriving DecidableEq, Repr

/-- `if (*default_out == 0UL) *default_out = gateway`. -/
def setDefault (out : Routes) (gateway : ℕ) : Routes :=
  if out.defaultGateway = 0 then { out with defaultGateway := gateway } else out

/-- The end of a line. -/
def routeEnd (out : Routes) (s : RouteLine) : Routes :=
  if s.isDefault then if s.haveGw then setDefault out s.gateway else out
  else if s.haveDst then
    match s.haveGw, s.destination with
    | true, some (destination, netmask) =>
      { out with staticRoute := out.staticRoute.map fun table ↦
          cfgRouteStore table destination netmask s.gateway }
    | _, _ => out
  else if s.haveGw && s.gwSpelled then setDefault out s.gateway
  else out

/-- One line of `cfg_parse_routes`. -/
def routeLine (out : Routes) (l : List UInt8 × ℕ) : Routes :=
  routeEnd out ((linePairs l.1 l.2).foldl routePair {})

/-- `cfg_parse_routes`. -/
def amiCfgParseRoutes (buf : List UInt8) (out : Routes) : Routes :=
  (fileLines buf).foldl routeLine out

/-! ### The line of the default gateway -/

/-- One pair of a line, to the finder. -/
def gatewayPair (s : GatewayLine) (p : Pair) : GatewayLine :=
  if isWord p.key "gateway" || isWord p.key "via" then takeGateway s p
  else if isWord p.key "default" || isWord p.key "defaultgateway" then takeDefault s p.value
  else if ["dst", "destination", "hostdst", "hostdestination", "netdst", "netdestination"].any
      (isWord p.key ·) then { s with haveDst := true }
  else s

/-- The test of the finder at the end of a line. -/
def GatewayLine.setsDefault (s : GatewayLine) : Bool :=
  if s.isDefault then s.haveGw else ! s.haveDst && s.haveGw && s.gwSpelled

/-- The loop of `ami_cfg_default_gateway_line`. -/
def defaultGatewayLineLoop : List (List UInt8 × ℕ) → ℕ
  | [] => 0
  | l :: ls =>
    if ((linePairs l.1 l.2).foldl gatewayPair {}).setsDefault then l.2
    else defaultGatewayLineLoop ls

/-- `ami_cfg_default_gateway_line`. -/
def amiCfgDefaultGatewayLine (buf : List UInt8) : ℕ := defaultGatewayLineLoop (fileLines buf)

/-! ### What the words of a line ask for -/

/-- The words that give a gateway, and those that make a line the default route. -/
def gatewayWords : List String := ["gateway", "via"]

def defaultWords : List String := ["default", "defaultgateway"]

def destinationWords : List String :=
  ["dst", "destination", "hostdst", "hostdestination", "netdst", "netdestination"]

/-- The pair has one of these words for a key. -/
def hasWord (words : List String) (p : Pair) : Bool := words.any (isWord p.key ·)

/-- The address a pair gives for a gateway. -/
def gatewayValue (p : Pair) : Option ℕ :=
  if hasWord gatewayWords p || hasWord defaultWords p then parseIp p.value else none

/-- A gateway that is accepted. -/
def givesGateway (p : Pair) : Bool := (gatewayValue p).any fun ip ↦ decide (ip ≠ 0)

/-- The last gateway written on a line, accepted or not. -/
def lineGateway (ps : List Pair) : ℕ := lastWrite gatewayValue 0 ps

/-- A line with an accepted gateway sets the default one if it says so, or if a `GATEWAY` stands
without a destination. -/
def lineSetsDefault (ps : List Pair) : Bool :=
  ps.any givesGateway && (ps.any (hasWord defaultWords) ||
    ! ps.any (hasWord destinationWords) && ps.any fun p ↦ isWord p.key "gateway" && givesGateway p)

/-- What a pair makes of the destination, nothing when it is refused. -/
def routeDestination (p : Pair) : Option (Option (ℕ × ℕ)) :=
  (destinationKind p.key).map (cfgRouteDestination p.value)

/-- The route of a line with an accepted gateway, through the last gateway written. -/
def lineRoute (ps : List Pair) : Option RouteConfig :=
  if ps.any givesGateway && ! ps.any (hasWord defaultWords) then
    (lastWrite routeDestination none ps).map fun d ↦ ⟨d.1, d.2, lineGateway ps⟩
  else none

/-- The first line that sets the default gateway writes none of 0.0.0.0 behind the accepted one. -/
def DefaultKept (ls : List (List UInt8 × ℕ)) : Prop :=
  ∀ l ∈ ls.find? fun l ↦ lineSetsDefault (linePairs l.1 l.2), lineGateway (linePairs l.1 l.2) ≠ 0

instance (ls : List (List UInt8 × ℕ)) : Decidable (DefaultKept ls) :=
  inferInstanceAs (Decidable (∀ l ∈ ls.find? _, _))

/-- The network of a route. -/
def RouteConfig.network (r : RouteConfig) : ℕ × ℕ := (r.destination, r.netmask)

/-- A network has a route, or there is room for one. -/
def HasRoom (nets : List (ℕ × ℕ)) (net : ℕ × ℕ) : Prop :=
  net ∈ nets ∨ nets.length < cfgMaxStaticRoutes

instance (nets : List (ℕ × ℕ)) (net : ℕ × ℕ) : Decidable (HasRoom nets net) :=
  inferInstanceAs (Decidable (_ ∨ _))

/-- The networks with a route after one more route. -/
def addNetwork (nets : List (ℕ × ℕ)) (net : ℕ × ℕ) : List (ℕ × ℕ) :=
  if net ∉ nets ∧ nets.length < cfgMaxStaticRoutes then nets ++ [net] else nets

/-- Of the routes to each network that finds room, the last one does not go through 0.0.0.0. -/
def RoutesKept : List (ℕ × ℕ) → List RouteConfig → Prop
  | _, [] => True
  | nets, r :: rs =>
    (HasRoom nets r.network → (∀ q ∈ rs, q.network ≠ r.network) → r.gateway ≠ 0) ∧
      RoutesKept (addNetwork nets r.network) rs

instance decidableRoutesKept :
    (nets : List (ℕ × ℕ)) → (rs : List RouteConfig) → Decidable (RoutesKept nets rs)
  | _, [] => .isTrue trivial
  | nets, _ :: rs => @instDecidableAnd _ _ _ (decidableRoutesKept (addNetwork nets _) rs)

/-! ### The readers on a line -/

/-- A key is of one kind. -/
theorem hasWord_apart {ws vs : List String} {p : Pair}
    (h : ∀ a ∈ ws, ∀ b ∈ vs, Netstack.domainKey (bytes a) ≠ Netstack.domainKey (bytes b))
    (hp : hasWord ws p = true) : hasWord vs p = false := by
  obtain ⟨a, ha, hkey⟩ := List.any_eq_true.mp hp
  refine List.any_eq_false.mpr fun b hb hkey' ↦ h a ha b hb ?_
  exact (Netstack.domainSame_iff.mp hkey).symm.trans (Netstack.domainSame_iff.mp hkey')

theorem destinationKind_isSome (p : Pair) :
    (destinationKind p.key).isSome = hasWord destinationWords p := by
  simp only [destinationKind, hasWord, destinationWords, List.any_cons, List.any_nil,
    Bool.or_false]
  cases isWord p.key "dst" <;> cases isWord p.key "destination" <;>
    cases isWord p.key "hostdst" <;> cases isWord p.key "hostdestination" <;>
    cases isWord p.key "netdst" <;> cases isWord p.key "netdestination" <;> rfl

theorem destinationKind_eq_none {ws : List String} {p : Pair}
    (h : ∀ a ∈ ws, ∀ b ∈ destinationWords,
      Netstack.domainKey (bytes a) ≠ Netstack.domainKey (bytes b))
    (hp : hasWord ws p = true) : destinationKind p.key = none := by
  rw [← Option.not_isSome_iff_eq_none, destinationKind_isSome, hasWord_apart h hp]
  exact Bool.false_ne_true

/-- The tests of the readers, by kind of key. -/
theorem isWord_gateway (p : Pair) :
    (isWord p.key "gateway" || isWord p.key "via") = hasWord gatewayWords p := by
  simp [hasWord, gatewayWords]

theorem isWord_default (p : Pair) :
    (isWord p.key "default" || isWord p.key "defaultgateway") = hasWord defaultWords p := by
  simp [hasWord, defaultWords]

/-- One pair, to the finder. -/
theorem gatewayPair_eq (s : GatewayLine) (p : Pair) :
    gatewayPair s p =
      { gateway := (gatewayValue p).getD s.gateway
        haveGw := s.haveGw || givesGateway p
        gwSpelled := s.gwSpelled || (isWord p.key "gateway" && givesGateway p)
        haveDst := s.haveDst || hasWord destinationWords p
        isDefault := s.isDefault || hasWord defaultWords p } := by
  rw [gatewayPair, isWord_gateway, isWord_default, givesGateway, gatewayValue]
  by_cases hgw : hasWord gatewayWords p = true
  · have hdef : hasWord defaultWords p = false := hasWord_apart (by decide +kernel) hgw
    have hdst : hasWord destinationWords p = false := hasWord_apart (by decide +kernel) hgw
    rw [if_pos hgw, hgw, hdef, hdst, takeGateway]
    cases parseIp p.value with
    | none => simp
    | some ip => by_cases hip : ip = 0 <;> simp [hip]
  have hspelled : isWord p.key "gateway" = false := by
    rw [← isWord_gateway, Bool.or_eq_true, not_or] at hgw
    exact Bool.eq_false_iff.mpr hgw.1
  rw [Bool.not_eq_true] at hgw
  by_cases hdef : hasWord defaultWords p = true
  · have hdst : hasWord destinationWords p = false := hasWord_apart (by decide +kernel) hdef
    rw [hgw, if_neg Bool.false_ne_true, if_pos hdef, hdef, hdst, hspelled, takeDefault]
    by_cases hvalue : p.value = []
    · rw [if_pos hvalue, hvalue, show parseIp [] = none by decide +kernel]
      simp
    · rw [if_neg hvalue]
      cases parseIp p.value with
      | none => simp
      | some ip => by_cases hip : ip = 0 <;> simp [hip]
  · rw [Bool.not_eq_true] at hdef
    have hdstWords : ["dst", "destination", "hostdst", "hostdestination", "netdst",
        "netdestination"].any (isWord p.key ·) = hasWord destinationWords p := rfl
    rw [hgw, if_neg Bool.false_ne_true, hdef, if_neg Bool.false_ne_true, hdstWords]
    cases hasWord destinationWords p <;> simp

/-- A line, to the finder. -/
theorem foldl_gatewayPair (ps : List Pair) (s : GatewayLine) :
    ps.foldl gatewayPair s =
      { gateway := lastWrite gatewayValue s.gateway ps
        haveGw := s.haveGw || ps.any givesGateway
        gwSpelled := s.gwSpelled || ps.any fun p ↦ isWord p.key "gateway" && givesGateway p
        haveDst := s.haveDst || ps.any (hasWord destinationWords)
        isDefault := s.isDefault || ps.any (hasWord defaultWords) } := by
  induction ps generalizing s with
  | nil => simp
  | cons p ps ih => simp only [List.foldl_cons, ih, gatewayPair_eq, lastWrite_cons, List.any_cons,
      Bool.or_assoc]

/-- One pair, to the parser: it knows what the finder knows, and the destination. -/
theorem routePair_eq (s : RouteLine) (p : Pair) :
    routePair s p =
      ⟨gatewayPair s.toGatewayLine p, (routeDestination p).getD s.destination⟩ := by
  have hhardware : (isWord p.key "device" || isWord p.key "unit") =
      hasWord ["device", "unit"] p := by
    simp [hasWord]
  have hdst : ["dst", "destination", "hostdst", "hostdestination", "netdst",
      "netdestination"].any (isWord p.key ·) = (destinationKind p.key).isSome :=
    (destinationKind_isSome p).symm
  rw [routePair, gatewayPair, routeDestination, isWord_gateway, isWord_default, hhardware, hdst]
  by_cases hgw : hasWord gatewayWords p = true
  · rw [if_pos hgw, if_pos hgw, destinationKind_eq_none (by decide +kernel) hgw]
    rfl
  by_cases hdef : hasWord defaultWords p = true
  · rw [if_neg hgw, if_pos hdef, if_neg hgw, if_pos hdef,
      destinationKind_eq_none (by decide +kernel) hdef]
    rfl
  rw [if_neg hgw, if_neg hdef, if_neg hgw, if_neg hdef]
  by_cases hdev : hasWord ["device", "unit"] p = true
  · rw [if_pos hdev, destinationKind_eq_none (by decide +kernel) hdev]
    rfl
  · rw [if_neg hdev]
    cases destinationKind p.key with
    | none => rfl
    | some kind => rfl

/-- A line, to the parser. -/
theorem foldl_routePair (ps : List Pair) (s : RouteLine) :
    ps.foldl routePair s =
      ⟨ps.foldl gatewayPair s.toGatewayLine, lastWrite routeDestination s.destination ps⟩ := by
  induction ps generalizing s with
  | nil => rfl
  | cons p ps ih => rw [List.foldl_cons, ih, routePair_eq, List.foldl_cons, lastWrite_cons]

theorem setsDefault_eq (ps : List Pair) :
    (ps.foldl gatewayPair {}).setsDefault = lineSetsDefault ps := by
  rw [foldl_gatewayPair, GatewayLine.setsDefault, lineSetsDefault]
  simp only [Bool.false_or]
  cases ps.any (hasWord defaultWords) <;> cases ps.any givesGateway <;>
    cases ps.any (hasWord destinationWords) <;> rfl

/-! ### Lines and the default gateway -/

theorem setDefault_defaultGateway (out : Routes) (gateway : ℕ) :
    (setDefault out gateway).defaultGateway =
      if out.defaultGateway = 0 then gateway else out.defaultGateway := by
  rw [setDefault]
  split <;> rfl

theorem setDefault_staticRoute (out : Routes) (gateway : ℕ) :
    (setDefault out gateway).staticRoute = out.staticRoute := by
  rw [setDefault]
  split <;> rfl

/-- What a line does to the default gateway. -/
theorem routeLine_default (out : Routes) (l : List UInt8 × ℕ) :
    (routeLine out l).defaultGateway =
      if lineSetsDefault (linePairs l.1 l.2) ∧ out.defaultGateway = 0 then
        lineGateway (linePairs l.1 l.2)
      else out.defaultGateway := by
  rw [routeLine, routeEnd, foldl_routePair, foldl_gatewayPair, lineSetsDefault, lineGateway]
  simp only [Bool.false_or]
  cases (linePairs l.1 l.2).any (hasWord defaultWords) with
  | true =>
    cases (linePairs l.1 l.2).any givesGateway with
    | true => simpa using setDefault_defaultGateway out _
    | false => rfl
  | false =>
    cases (linePairs l.1 l.2).any (hasWord destinationWords) with
    | true =>
      simp only [Bool.false_eq_true, ↓reduceIte, Bool.not_true, Bool.false_and, Bool.false_or,
        Bool.and_false, false_and]
      split <;> rfl
    | false =>
      cases (linePairs l.1 l.2).any givesGateway with
      | false => rfl
      | true =>
        cases (linePairs l.1 l.2).any fun p ↦ isWord p.key "gateway" && givesGateway p with
        | false => rfl
        | true => simpa using setDefault_defaultGateway out _

/-- The default gateway stays once it is set, and as long as no line sets it. -/
theorem foldl_default (ls : List (List UInt8 × ℕ)) (out : Routes)
    (h : ∀ l ∈ ls, out.defaultGateway = 0 → lineSetsDefault (linePairs l.1 l.2) = false) :
    (ls.foldl routeLine out).defaultGateway = out.defaultGateway := by
  induction ls generalizing out with
  | nil => rfl
  | cons l ls ih =>
    obtain ⟨hl, hls⟩ := List.forall_mem_cons.mp h
    have hstep := routeLine_default out l
    rw [if_neg fun hset ↦ Bool.false_ne_true ((hl hset.2).symm.trans hset.1)] at hstep
    rw [List.foldl_cons, ih _ (hstep ▸ hls), hstep]

/-- The finder stops at the first line that sets the default gateway. -/
theorem defaultGatewayLineLoop_eq (ls : List (List UInt8 × ℕ)) :
    defaultGatewayLineLoop ls =
      (ls.find? fun l ↦ lineSetsDefault (linePairs l.1 l.2)).elim 0 (·.2) := by
  induction ls with
  | nil => rfl
  | cons l ls ih =>
    rw [defaultGatewayLineLoop, setsDefault_eq, List.find?_cons]
    cases lineSetsDefault (linePairs l.1 l.2) with
    | true => rfl
    | false => exact ih

theorem fileLines_ext {buf : List UInt8} {l m : List UInt8 × ℕ} (hl : l ∈ fileLines buf)
    (hm : m ∈ fileLines buf) (h : l.2 = m.2) : l = m := by
  have hnodup : ((fileLines buf).map Prod.snd).Nodup := by
    rw [fileLines, List.zipIdx_map_snd]
    exact List.nodup_range'
  exact List.inj_on_of_nodup_map hnodup hl hm h

/-! ### Lines and the table -/

/-- `cfg_route_store` of a route. -/
def storeRoute (table : List RouteConfig) (r : RouteConfig) : List RouteConfig :=
  cfgRouteStore table r.destination r.netmask r.gateway

theorem lastWrite_routeDestination {ps : List Pair}
    (h : ps.any (hasWord destinationWords) = false) :
    lastWrite routeDestination none ps = none := by
  refine lastWrite_eq_self fun p hp ↦ ?_
  have hnone := List.any_eq_false.mp h p hp
  rw [← destinationKind_isSome, Option.not_isSome_iff_eq_none] at hnone
  rw [routeDestination, hnone, Option.map_none]

/-- What a line does to the table. -/
theorem routeLine_staticRoute (out : Routes) (l : List UInt8 × ℕ) :
    (routeLine out l).staticRoute =
      out.staticRoute.map ((lineRoute (linePairs l.1 l.2)).toList.foldl storeRoute) := by
  have hsame : out.staticRoute = out.staticRoute.map ([].foldl storeRoute) := by
    rw [show [].foldl storeRoute = id from rfl, Option.map_id_fun, id]
  rw [routeLine, routeEnd, foldl_routePair, foldl_gatewayPair, lineRoute, lineGateway]
  simp only [Bool.false_or]
  cases (linePairs l.1 l.2).any (hasWord defaultWords) with
  | true =>
    cases (linePairs l.1 l.2).any givesGateway with
    | true => exact (setDefault_staticRoute _ _).trans hsame
    | false => exact hsame
  | false =>
    cases hdst : (linePairs l.1 l.2).any (hasWord destinationWords) with
    | true =>
      cases (linePairs l.1 l.2).any givesGateway with
      | false => exact hsame
      | true =>
        cases lastWrite routeDestination none (linePairs l.1 l.2) with
        | none => exact hsame
        | some d => rfl
    | false =>
      rw [lastWrite_routeDestination hdst]
      simp only [Bool.false_eq_true, ↓reduceIte, Option.map_none, ite_self, Option.toList_none]
      split
      · exact (setDefault_staticRoute _ _).trans hsame
      · exact hsame

/-- The routes of a file, line by line. -/
def fileRoutes (ls : List (List UInt8 × ℕ)) : List RouteConfig :=
  ls.flatMap fun l ↦ (lineRoute (linePairs l.1 l.2)).toList

theorem foldl_staticRoute (ls : List (List UInt8 × ℕ)) (out : Routes) :
    (ls.foldl routeLine out).staticRoute =
      out.staticRoute.map ((fileRoutes ls).foldl storeRoute) := by
  induction ls generalizing out with
  | nil => exact (Option.map_id_apply).symm
  | cons l ls ih =>
    rw [List.foldl_cons, ih, routeLine_staticRoute, Option.map_map, fileRoutes, fileRoutes,
      List.flatMap_cons]
    congr 1
    funext table
    exact (List.foldl_append ..).symm

/-- A route to a network that has one replaces it, at its place; another one goes to the end while
there is room. -/
theorem storeRoute_cases (table : List RouteConfig) (r : RouteConfig) :
    (∃ front old back, table = front ++ old :: back ∧ old.network = r.network ∧
      storeRoute table r = front ++ r :: back) ∨
    r.network ∉ table.map (·.network) ∧
      storeRoute table r =
        if cfgMaxStaticRoutes ≤ table.length then table else table ++ [r] := by
  have hsearch (t : List RouteConfig) :
      (∃ i front old back,
        (t.findIdx? fun q ↦ q.destination = r.destination ∧ q.netmask = r.netmask) = some i ∧
        t = front ++ old :: back ∧ old.network = r.network ∧
        (t.modify i fun q ↦ { q with gateway := r.gateway }) = front ++ r :: back) ∨
      (t.findIdx? fun q ↦ q.destination = r.destination ∧ q.netmask = r.netmask) = none ∧
        r.network ∉ t.map (·.network) := by
    induction t with
    | nil => exact .inr ⟨rfl, List.not_mem_nil⟩
    | cons q t ih =>
      by_cases hq : q.destination = r.destination ∧ q.netmask = r.netmask
      · refine .inl ⟨0, [], q, t, ?_, rfl, Prod.ext hq.1 hq.2, ?_⟩
        · rw [List.findIdx?_cons, if_pos (decide_eq_true hq)]
        · rw [List.modify_zero_cons, hq.1, hq.2, List.nil_append]
      · have hne : q.network ≠ r.network := fun h ↦ hq (Prod.ext_iff.mp h)
        rcases ih with ⟨i, front, old, back, hfind, rfl, hold, hmodify⟩ | ⟨hfind, hnot⟩
        · refine .inl ⟨i + 1, q :: front, old, back, ?_, rfl, hold, ?_⟩
          · rw [List.findIdx?_cons, if_neg (by simpa using hq), hfind]
            rfl
          · rw [List.modify_succ_cons, hmodify, List.cons_append]
        · refine .inr ⟨?_, ?_⟩
          · rw [List.findIdx?_cons, if_neg (by simpa using hq), hfind]
            rfl
          · rw [List.map_cons, List.mem_cons, not_or]
            exact ⟨Ne.symm hne, hnot⟩
  rw [storeRoute, cfgRouteStore]
  rcases hsearch table with ⟨i, front, old, back, hfind, htable, hold, hmodify⟩ | ⟨hfind, hnot⟩
  · rw [hfind]
    exact .inl ⟨front, old, back, htable, hold, hmodify⟩
  · rw [hfind]
    exact .inr ⟨hnot, rfl⟩

/-- **The table after one more route**, where no network has two: the routes to other networks, and
the new one if it finds room. -/
theorem mem_storeRoute {table : List RouteConfig} (hnodup : (table.map (·.network)).Nodup)
    {r q : RouteConfig} :
    q ∈ storeRoute table r ↔
      q ∈ table ∧ q.network ≠ r.network ∨ q = r ∧ HasRoom (table.map (·.network)) r.network := by
  rcases storeRoute_cases table r with ⟨front, old, back, rfl, hold, hstore⟩ | ⟨hnot, hstore⟩
  · rw [List.map_append, List.map_cons, List.nodup_middle, hold, List.nodup_cons] at hnodup
    have hothers : ∀ x ∈ front ++ back, x.network ≠ r.network := fun x hx h ↦
      hnodup.1 (h ▸ List.map_append ▸ List.mem_map_of_mem hx)
    have hroom : HasRoom ((front ++ old :: back).map (·.network)) r.network :=
      .inl (hold ▸ List.mem_map_of_mem List.mem_append_cons_self)
    rw [hstore, List.mem_append, List.mem_cons, List.mem_append, List.mem_cons]
    constructor
    · rintro (h | rfl | h)
      · exact .inl ⟨.inl h, hothers q (List.mem_append_left back h)⟩
      · exact .inr ⟨rfl, hroom⟩
      · exact .inl ⟨.inr (.inr h), hothers q (List.mem_append_right front h)⟩
    · rintro (⟨h | rfl | h, hne⟩ | ⟨rfl, -⟩)
      · exact .inl h
      · exact absurd hold hne
      · exact .inr (.inr h)
      · exact .inr (.inl rfl)
  · have hothers : ∀ x ∈ table, x.network ≠ r.network := fun x hx h ↦
      hnot (h ▸ List.mem_map_of_mem hx)
    rw [hstore]
    split_ifs with hfull
    · have hroom : ¬HasRoom (table.map (·.network)) r.network := by
        rw [HasRoom, List.length_map]
        exact not_or.mpr ⟨hnot, Nat.not_lt.mpr hfull⟩
      exact ⟨fun h ↦ .inl ⟨h, hothers q h⟩, fun h ↦ h.elim (·.1) fun h' ↦ absurd h'.2 hroom⟩
    · have hroom : HasRoom (table.map (·.network)) r.network := by
        rw [HasRoom, List.length_map]
        exact .inr (Nat.not_le.mp hfull)
      rw [List.mem_append, List.mem_singleton]
      exact ⟨fun h ↦ h.imp (fun h ↦ ⟨h, hothers q h⟩) fun h ↦ ⟨h, hroom⟩,
        fun h ↦ h.imp (·.1) (·.1)⟩

theorem map_network_storeRoute (table : List RouteConfig) (r : RouteConfig) :
    (storeRoute table r).map (·.network) = addNetwork (table.map (·.network)) r.network := by
  rw [addNetwork]
  rcases storeRoute_cases table r with ⟨front, old, back, rfl, hold, hstore⟩ | ⟨hnot, hstore⟩
  · have hmem : r.network ∈ (front ++ old :: back).map (·.network) :=
      hold ▸ List.mem_map_of_mem List.mem_append_cons_self
    rw [if_neg fun h ↦ h.1 hmem, hstore, List.map_append, List.map_append, List.map_cons,
      List.map_cons, hold]
  · rw [hstore, List.length_map]
    by_cases hfull : cfgMaxStaticRoutes ≤ table.length
    · rw [if_pos hfull, if_neg fun h ↦ Nat.not_lt.mpr hfull h.2]
    · rw [if_neg hfull, if_pos ⟨hnot, Nat.not_le.mp hfull⟩, List.map_append]
      rfl

theorem nodup_addNetwork {nets : List (ℕ × ℕ)} (h : nets.Nodup) (net : ℕ × ℕ) :
    (addNetwork nets net).Nodup := by
  rw [addNetwork]
  split_ifs with hnew
  · rw [← List.concat_eq_append]
    exact h.concat hnew.1
  · exact h

/-- When no route of the table goes through 0.0.0.0. -/
theorem foldl_storeRoute_ne_zero (rs : List RouteConfig) {table : List RouteConfig}
    (hnodup : (table.map (·.network)).Nodup) :
    (∀ q ∈ rs.foldl storeRoute table, q.gateway ≠ 0) ↔
      (∀ q ∈ table, (∀ r ∈ rs, r.network ≠ q.network) → q.gateway ≠ 0) ∧
        RoutesKept (table.map (·.network)) rs := by
  induction rs generalizing table with
  | nil => simp [RoutesKept]
  | cons r rs ih =>
    have hnets := map_network_storeRoute table r
    rw [List.foldl_cons, ih (hnets ▸ nodup_addNetwork hnodup r.network), hnets, RoutesKept,
      ← and_assoc]
    refine and_congr_left fun _ ↦ ?_
    simp only [mem_storeRoute hnodup, List.forall_mem_cons]
    constructor
    · intro h
      refine ⟨fun q hq hlater ↦ h q (.inl ⟨hq, Ne.symm hlater.1⟩) hlater.2, fun hroom hlater ↦ ?_⟩
      exact h r (.inr ⟨rfl, hroom⟩) hlater
    · rintro ⟨hold, hnew⟩ q (⟨hq, hne⟩ | ⟨rfl, hroom⟩) hlater
      · exact hold q hq ⟨Ne.symm hne, hlater⟩
      · exact hnew hroom hlater

/-! ### Files -/

/-- Both readers agree on the default gateway: the finder answers zero exactly when the parser ends
without one, and otherwise the line that takes the parser from none to its last one. -/
def FindsDefault (buf : List UInt8) (table : Option (List RouteConfig)) : Prop :=
  (amiCfgDefaultGatewayLine buf = 0 ↔ (amiCfgParseRoutes buf ⟨0, table⟩).defaultGateway = 0) ∧
  (amiCfgDefaultGatewayLine buf ≠ 0 →
    ∃ before l after, fileLines buf = before ++ l :: after ∧
      amiCfgDefaultGatewayLine buf = l.2 ∧
      (before.foldl routeLine ⟨0, table⟩).defaultGateway = 0 ∧
      ((before ++ [l]).foldl routeLine ⟨0, table⟩).defaultGateway =
        (amiCfgParseRoutes buf ⟨0, table⟩).defaultGateway)

theorem findsDefault_iff (buf : List UInt8) (table : Option (List RouteConfig)) :
    FindsDefault buf table ↔ DefaultKept (fileLines buf) := by
  have hfinder : amiCfgDefaultGatewayLine buf = _ := defaultGatewayLineLoop_eq (fileLines buf)
  -- what one line does when there is no default gateway yet
  have hset (before : List (List UInt8 × ℕ)) {l : List UInt8 × ℕ}
      (hl : lineSetsDefault (linePairs l.1 l.2) = true)
      (hbefore : (before.foldl routeLine ⟨0, table⟩).defaultGateway = 0) :
      ((before ++ [l]).foldl routeLine ⟨0, table⟩).defaultGateway =
        lineGateway (linePairs l.1 l.2) := by
    rw [List.foldl_append, List.foldl_cons, List.foldl_nil, routeLine_default,
      if_pos ⟨hl, hbefore⟩]
  constructor
  · rintro ⟨hzero, hsplit⟩ l hl
    rw [Option.mem_def] at hl
    have hmem := List.mem_of_find?_eq_some hl
    rw [hl, Option.elim_some] at hfinder
    have hne : amiCfgDefaultGatewayLine buf ≠ 0 := hfinder ▸ fileLines_pos buf l hmem
    obtain ⟨before, m, after, hls, hm, hbefore, hfinal⟩ := hsplit hne
    obtain rfl : l = m :=
      fileLines_ext hmem (hls ▸ List.mem_append_cons_self) (hfinder.symm.trans hm)
    have hsets := List.find?_some hl
    rw [hset before hsets hbefore] at hfinal
    rw [hfinal]
    exact fun h ↦ hne (hzero.mpr h)
  · intro hkept
    rw [FindsDefault, amiCfgParseRoutes]
    cases hfind : (fileLines buf).find? fun l ↦ lineSetsDefault (linePairs l.1 l.2) with
    | none =>
      rw [hfind] at hfinder
      have hnot : ∀ l ∈ fileLines buf, lineSetsDefault (linePairs l.1 l.2) = false :=
        fun l hl ↦ Bool.eq_false_iff.mpr (List.find?_eq_none.mp hfind l hl)
      have hdefault := foldl_default _ ⟨0, table⟩ fun m hm _ ↦ hnot m hm
      exact ⟨iff_of_true hfinder hdefault, fun h ↦ absurd hfinder h⟩
    | some l =>
      rw [hfind] at hfinder
      have hgateway := hkept l hfind
      obtain ⟨hl, before, after, hls, hnot⟩ := List.find?_eq_some_iff_append.mp hfind
      have hbefore := foldl_default before ⟨0, table⟩ fun m hm _ ↦ by
        simpa using hnot m hm
      have hthrough := hset before hl hbefore
      have hfinal : ((fileLines buf).foldl routeLine ⟨0, table⟩).defaultGateway =
          lineGateway (linePairs l.1 l.2) := by
        rw [hls, List.append_cons, List.foldl_append,
          foldl_default _ _ fun _ _ hzero ↦ absurd (hthrough.symm.trans hzero) hgateway, hthrough]
      have hne : amiCfgDefaultGatewayLine buf ≠ 0 :=
        hfinder ▸ fileLines_pos buf l (List.mem_of_find?_eq_some hfind)
      refine ⟨iff_of_false hne (hfinal ▸ hgateway), fun _ ↦ ?_⟩
      exact ⟨before, l, after, hls, hfinder, hbefore, hthrough.trans hfinal.symm⟩

/-- **The line of the default gateway.** The finder names the line of the parser's default gateway,
and no route goes through 0.0.0.0, exactly in the files that write no 0.0.0.0 behind an accepted
gateway on the first line that sets the default one or on the last line for a network with a
route. -/
theorem defaultGatewayLine_parse (buf : List UInt8) (table : Option (List RouteConfig))
    (hnodup : ∀ t ∈ table, (t.map (·.network)).Nodup)
    (htable : ∀ t ∈ table, ∀ r ∈ t, r.gateway ≠ 0) :
    (FindsDefault buf table ∧
        ∀ t ∈ (amiCfgParseRoutes buf ⟨0, table⟩).staticRoute, ∀ r ∈ t, r.gateway ≠ 0) ↔
      DefaultKept (fileLines buf) ∧
        ∀ t ∈ table, RoutesKept (t.map (·.network)) (fileRoutes (fileLines buf)) := by
  refine and_congr (findsDefault_iff buf table) ?_
  rw [amiCfgParseRoutes, foldl_staticRoute]
  cases table with
  | none => simp
  | some t =>
    have hiff := foldl_storeRoute_ne_zero (fileRoutes (fileLines buf)) (hnodup t rfl)
    simp only [Option.map_some, Option.mem_def, Option.some.injEq, forall_eq']
    rw [hiff]
    exact and_iff_right fun q hq _ ↦ htable t rfl q hq

/-- A file with an unfinished route, a route and the default gateway. -/
def routesFile : List UInt8 :=
  bytes "via 10.0.0.9\ndst=10.1.0.0 via=10.0.0.2\ngateway 0.0.0.0\ndefault = 10.0.0.1\n"

theorem defaultGatewayLine_parse_fourth :
    amiCfgDefaultGatewayLine routesFile = 4 ∧
    (amiCfgParseRoutes routesFile ⟨0, some []⟩).defaultGateway ≠ 0 := by
  have hline : amiCfgDefaultGatewayLine routesFile = 4 := by decide +kernel
  have h := (defaultGatewayLine_parse routesFile (some []) (by simp) (by simp)).mpr
    (by decide +kernel)
  exact ⟨hline, fun hzero ↦ absurd (h.1.1.mpr hzero) (by rw [hline]; decide)⟩

/-- A zero gateway behind an accepted one: the finder names a line that sets nothing, and a route
through 0.0.0.0 is stored. -/
theorem defaultGatewayLine_zero :
    (amiCfgDefaultGatewayLine (bytes "gateway=10.0.0.1 via=0.0.0.0\n") = 1 ∧
      (amiCfgParseRoutes (bytes "gateway=10.0.0.1 via=0.0.0.0\n") ⟨0, some []⟩).defaultGateway =
        0) ∧
    (amiCfgParseRoutes (bytes "dst=10.1.0.0 via=10.0.0.2 via=0.0.0.0\n") ⟨0, some []⟩).staticRoute =
      some [⟨0x0A010000, 0xFFFF0000, 0⟩] := by
  decide +kernel

end AmiNetXDuo.Config
