import AmiNetXDuo.Config.Interface
import AmiNetXDuo.Lib.LastWrite

/-!
# Rejected IPv6 addresses in an interface file

`ADDRESS6`, `GATEWAY6` and `DESTINATION6` take an IPv6 address with an optional zone, which must
name the interface. `ADDRESS6` is parsed on the side, the other two straight into the configuration,
so that a pair they reject can leave something behind. What it leaves is a write to one of three
fields, which shows at the end unless a later pair writes over it.

## Main definitions

* `rejects` : the pairs that are reported and not taken.
* `wordsOf`, `peerOf` : what a pair writes, taken or not.
* `Harmless` : when a rejected pair leaves nothing behind.

## Main results

* `ifPair_store` : a pair works beside the three fields, or writes them.
* `parseInterface_rejected` : when the parser answers as without the rejected pair.
-/

namespace AmiNetXDuo.Config

/-- The pairs of the three keywords that are reported: the address is malformed, is no peer, or
names another zone. -/
def rejects (name : List UInt8) (p : Pair) : Bool :=
  match lookupIfKeyword p.key with
  | .address6 =>
    match parseIp6Zone true p.value with
    | none => true
    | some parsed => ! cfgZoneOk name parsed.zone
  | .gateway6 =>
    match parseIp6Zone false p.value with
    | none => true
    | some parsed => ! cfgZoneOk name parsed.zone
  | .destination6 =>
    match parseIp6Zone false p.value with
    | none => true
    | some parsed => noPeer parsed.words || ! cfgZoneOk name parsed.zone
  | _ => false

/-- The words that a pair of a keyword stores: every address that parses, whatever its zone. -/
def wordsOf (key : IfKey) (p : Pair) : Option (List ℕ) :=
  if lookupIfKeyword p.key = key then (parseIp6Zone false p.value).map (·.words) else none

/-- What a pair makes of the flag of the peer. One of another zone leaves it alone. -/
def peerOf (name : List UInt8) (p : Pair) : Option Bool :=
  if lookupIfKeyword p.key = .destination6 then
    match parseIp6Zone false p.value with
    | none => some false
    | some parsed =>
      if noPeer parsed.words then some false
      else if cfgZoneOk name parsed.zone then some true
      else none
  else none

/-- A write that does not show at the end: it writes what is there already, or a later pair writes
too. -/
def Unseen {α : Type} (w : Pair → Option α) (a : α) (before : List Pair) (p : Pair)
    (after : List Pair) : Prop :=
  (∀ b ∈ w p, b = lastWrite w a before) ∨ ∃ q ∈ after, (w q).isSome

/-- When a rejected pair leaves nothing behind. -/
def Harmless (name : List UInt8) (before : List Pair) (p : Pair) (after : List Pair) : Prop :=
  Unseen (wordsOf .gateway6) [0, 0, 0, 0] before p after ∧
  Unseen (wordsOf .destination6) [0, 0, 0, 0] before p after ∧
  Unseen (peerOf name) false before p after

instance {α : Type} [DecidableEq α] (w : Pair → Option α) (a : α) (before : List Pair) (p : Pair)
    (after : List Pair) : Decidable (Unseen w a before p after) :=
  inferInstanceAs (Decidable (_ ∨ _))

instance (name : List UInt8) (before : List Pair) (p : Pair) (after : List Pair) :
    Decidable (Harmless name before p after) :=
  inferInstanceAs (Decidable (_ ∧ _ ∧ _))

/-! ### The three fields -/

/-- The state with other values in the three fields. -/
def IfState.store (s : IfState) (gateway6 destination6 : List ℕ) (have6 : Bool) : IfState :=
  { s with gateway6 := gateway6, destination6 := destination6, haveDestination6 := have6 }

theorem takeKey_store {key : IfKey} (hgw : key ≠ .gateway6) (hdst : key ≠ .destination6)
    (s : IfState) (p : Pair) (gateway6 destination6 : List ℕ) (have6 : Bool) :
    takeKey key (s.store gateway6 destination6 have6) p =
      (takeKey key s p).store gateway6 destination6 have6 := by
  cases key with
  | number which =>
    cases which <;> simp only [takeKey, storeNumber, IfState.store] <;> split <;> rfl
  | requests which =>
    cases which <;> simp only [takeKey, storeRequests, IfState.store] <;> split <;> rfl
  | gateway6 => contradiction
  | destination6 => contradiction
  | address6 =>
    rw [takeKey, takeKey, takeAddress6, takeAddress6]
    cases parseIp6Zone true p.value with
    | none => rfl
    | some parsed =>
      dsimp only
      by_cases hzone : (! cfgZoneOk s.name parsed.zone) = true
      · rw [if_pos hzone]
        exact if_pos hzone
      rw [if_neg hzone]
      refine (if_neg hzone).trans ?_
      by_cases hfull : cfgMaxAddress6 ≤ s.address6.length
      · rw [if_pos hfull]
        exact if_pos hfull
      · rw [if_neg hfull]
        exact if_neg hfull
  | _ =>
    simp only [takeKey, takeAddress, takeLinkspeed, takePriority, takeIptype, takeState,
      IfState.store]
    repeat' split
    all_goals rfl

/-- What one pair does to the three fields, and that nothing else looks at them. -/
theorem ifPair_store (s : IfState) (p : Pair) (gateway6 destination6 : List ℕ) (have6 : Bool) :
    ifPair (s.store gateway6 destination6 have6) p =
      (ifPair s p).store ((wordsOf .gateway6 p).getD gateway6)
        ((wordsOf .destination6 p).getD destination6) ((peerOf s.name p).getD have6) := by
  rw [ifPair, ifPair, wordsOf, wordsOf, peerOf]
  by_cases hgw : lookupIfKeyword p.key = .gateway6
  · rw [hgw, takeKey, takeKey, takeGateway6, takeGateway6]
    cases parseIp6Zone false p.value with
    | none => rfl
    | some parsed => rfl
  by_cases hdst : lookupIfKeyword p.key = .destination6
  · rw [hdst, takeKey, takeKey, takeDestination6, takeDestination6]
    cases parseIp6Zone false p.value with
    | none => rfl
    | some parsed =>
      dsimp only [IfState.store]
      cases noPeer parsed.words with
      | true => rfl
      | false => cases cfgZoneOk s.name parsed.zone <;> simp
  · rw [takeKey_store hgw hdst, if_neg hgw, if_neg hdst, if_neg hdst]
    rfl

/-- The three fields after some pairs. -/
theorem foldl_store (qs : List Pair) (s : IfState) (gateway6 destination6 : List ℕ)
    (have6 : Bool) :
    qs.foldl ifPair (s.store gateway6 destination6 have6) =
      (qs.foldl ifPair s).store (lastWrite (wordsOf .gateway6) gateway6 qs)
        (lastWrite (wordsOf .destination6) destination6 qs)
        (lastWrite (peerOf s.name) have6 qs) := by
  induction qs generalizing s gateway6 destination6 have6 with
  | nil => rfl
  | cons q qs ih =>
    have hname : (ifPair s q).name = s.name := (takeKey_frame _ s q).name
    rw [List.foldl_cons, List.foldl_cons, ifPair_store, ih, hname]
    rfl

/-- A rejected pair does nothing but write the three fields. -/
theorem ifPair_rejected {s : IfState} {p : Pair} (h : rejects s.name p = true) :
    ifPair s p = s.store ((wordsOf .gateway6 p).getD s.gateway6)
      ((wordsOf .destination6 p).getD s.destination6)
      ((peerOf s.name p).getD s.haveDestination6) := by
  rw [rejects] at h
  rw [ifPair, wordsOf, wordsOf, peerOf]
  split at h
  · rename_i hkey
    rw [hkey, takeKey, takeAddress6]
    cases hparse : parseIp6Zone true p.value with
    | none => rfl
    | some parsed =>
      simp only [hparse] at h
      exact if_pos h
  · rename_i hkey
    rw [hkey, takeKey, takeGateway6]
    cases hparse : parseIp6Zone false p.value with
    | none => rfl
    | some parsed =>
      simp only [hparse, Bool.not_eq_true'] at h
      dsimp only
      rw [h, Bool.or_false]
      rfl
  · rename_i hkey
    rw [hkey, takeKey, takeDestination6]
    cases hparse : parseIp6Zone false p.value with
    | none => rfl
    | some parsed =>
      simp only [hparse, Bool.or_eq_true, Bool.not_eq_true'] at h
      dsimp only [IfState.store]
      cases hpeer : noPeer parsed.words with
      | true => rfl
      | false =>
        have hzone := h.resolve_left (by rw [hpeer]; decide)
        simp [hzone]
  · cases h

/-- The fields are seen in the answer. -/
theorem ifEnd_store_inj {s : IfState} {gateway6 gateway6' destination6 destination6' : List ℕ}
    {have6 have6' : Bool} :
    ifEnd (s.store gateway6 destination6 have6) = ifEnd (s.store gateway6' destination6' have6') ↔
      gateway6 = gateway6' ∧ destination6 = destination6' ∧ have6 = have6' := by
  have hfields (g d : List ℕ) (b : Bool) : (ifEnd (s.store g d b)).2.gateway6 = g ∧
      (ifEnd (s.store g d b)).2.destination6 = d ∧
      (ifEnd (s.store g d b)).2.haveDestination6 = b := by
    rw [ifEnd]
    split <;> exact ⟨rfl, rfl, rfl⟩
  constructor
  · intro h
    have hleft := hfields gateway6 destination6 have6
    rw [h] at hleft
    obtain ⟨hg, hd, hb⟩ := hfields gateway6' destination6' have6'
    exact ⟨hleft.1.symm.trans hg, hleft.2.1.symm.trans hd, hleft.2.2.symm.trans hb⟩
  · rintro ⟨rfl, rfl, rfl⟩
    rfl

theorem unseen_iff {α : Type} {w : Pair → Option α} {a : α} {before after : List Pair} {p : Pair} :
    lastWrite w ((w p).getD (lastWrite w a before)) after = lastWrite w (lastWrite w a before) after
      ↔ Unseen w a before p after := by
  rw [lastWrite_eq_iff, Unseen]
  cases w p with
  | none => simp
  | some b => simp

/-- **A rejected address leaves nothing behind** exactly for the pairs and places of `Harmless`:
the parser answers what it answers for the other pairs of the file. -/
theorem parseInterface_rejected (name : Option (List UInt8)) (buf : List UInt8)
    (before : List Pair) (p : Pair) (after : List Pair)
    (hpairs : filePairs buf = before ++ p :: after) (hp : rejects (ifStart name).name p = true) :
    amiCfgParseInterface name buf = parsePairs name (before ++ after) ↔
      Harmless (ifStart name).name before p after := by
  have hname := foldl_name before (ifStart name)
  have hstart := foldl_store before (ifStart name) [0, 0, 0, 0] [0, 0, 0, 0] false
  rw [show (ifStart name).store [0, 0, 0, 0] [0, 0, 0, 0] false = ifStart name from rfl] at hstart
  rw [amiCfgParseInterface, hpairs, parsePairs, parsePairs, List.foldl_append, List.foldl_cons,
    List.foldl_append]
  generalize before.foldl ifPair (ifStart name) = s at hname hstart
  rw [← hname] at hp hstart ⊢
  have hafter := foldl_store after s s.gateway6 s.destination6 s.haveDestination6
  rw [show s.store s.gateway6 s.destination6 s.haveDestination6 = s from rfl] at hafter
  -- both runs are the same one with other values in the three fields
  rw [ifPair_rejected hp, foldl_store, hafter]
  have hgw : s.gateway6 = _ := congrArg (·.gateway6) hstart
  have hdst : s.destination6 = _ := congrArg (·.destination6) hstart
  have hhave : s.haveDestination6 = _ := congrArg (·.haveDestination6) hstart
  rw [hgw, hdst, hhave]
  exact ifEnd_store_inj.trans (and_congr unseen_iff (and_congr unseen_iff unseen_iff))

/-- An address of another zone between two gateways, the last of which is taken. -/
def gatewaysFile : List UInt8 :=
  bytes "device=a.device\naddress6=fd00::1%eth1\ngateway6=fe80::1\ngateway6=fe80::2%eth1\n" ++
    bytes "gateway6=fe80::3%eth0\n"

theorem parseInterface_rejected_gateways :
    let ps := filePairs gatewaysFile
    rejects (bytes "eth0") (ps.getD 3 ⟨0, [], []⟩) = true ∧
    amiCfgParseInterface (some (bytes "eth0")) gatewaysFile =
      parsePairs (some (bytes "eth0")) (ps.take 3 ++ ps.drop 4) :=
  ⟨by decide +kernel,
    (parseInterface_rejected _ _ _ ((filePairs gatewaysFile).getD 3 ⟨0, [], []⟩) _
      (by decide +kernel) (by decide +kernel)).mpr (by decide +kernel)⟩

/-- Two files whose second pair is rejected. -/
def foreignGateway : List UInt8 := bytes "gateway6=fe80::1\ngateway6=fe80::2%eth1\n"

def malformedPeer : List UInt8 := bytes "destination6=fe80::1\ndestination6=fe80\n"

/-- A gateway of another zone replaces the one that was taken, and a malformed peer takes the
earlier one away. -/
theorem parseInterface_rejected_kept :
    (filePairs foreignGateway = [⟨1, bytes "gateway6", bytes "fe80::1"⟩] ++
        ⟨2, bytes "gateway6", bytes "fe80::2%eth1"⟩ :: [] ∧
      rejects (bytes "eth0") ⟨2, bytes "gateway6", bytes "fe80::2%eth1"⟩ = true ∧
      (amiCfgParseInterface (some (bytes "eth0")) foreignGateway).2.gateway6 =
        [0xFE800000, 0, 0, 2] ∧
      (parsePairs (some (bytes "eth0")) [⟨1, bytes "gateway6", bytes "fe80::1"⟩]).2.gateway6 =
        [0xFE800000, 0, 0, 1]) ∧
    filePairs malformedPeer = [⟨1, bytes "destination6", bytes "fe80::1"⟩] ++
        ⟨2, bytes "destination6", bytes "fe80"⟩ :: [] ∧
      rejects (bytes "eth0") ⟨2, bytes "destination6", bytes "fe80"⟩ = true ∧
      (amiCfgParseInterface (some (bytes "eth0")) malformedPeer).2.haveDestination6 = false ∧
      (parsePairs (some (bytes "eth0"))
        [⟨1, bytes "destination6", bytes "fe80::1"⟩]).2.haveDestination6 = true := by
  decide +kernel

end AmiNetXDuo.Config
