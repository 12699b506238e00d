import AmiNetXDuo.Netstack.DhcpHostname

/-!
# The default domain

The file, a caller, the DHCP leases of the interfaces, the DHCPv6 lease and the router
advertisements may name the default domain, in this order of precedence. Two reconcilers keep the
one text: each remembers what it put there last and takes it back only while it still stands there.
Names are compared without regard to the case of their letters, so a name that comes back in other
letters stays as it was. Each reconciler accounts for the updates of its own kind.

## Main definitions

* `raDefaultReconcile`, `dhcpDefaultReconcile`, `setDomainName` : the code.
* `DomainEvent`, `domainStep` : what happens, with what each reconciler has seen last.
* `DefaultIs` : what the default domain should be.

## Main results

* `DomainInv.step` : one event.
* `defaultDomain_precedence` : the default domain in every run.
* `defaultDomain_text` : the letters, and the updates nobody has looked at.
-/

namespace AmiNetXDuo.Netstack

/-- `AMI_CFG_DOMAIN_LEN`, with the terminating zero. -/
def cfgDomainLen : ℕ := 256

/-- `ami_ns_domain_copy` into a buffer of `AMI_CFG_DOMAIN_LEN`. -/
def domainCopy (src : Domain) : Domain :=
  src.take (cfgDomainLen - 1)

/-- `ami_ns_dns_ra_default_reconcile`: the domain and the text the advertisements put there. -/
def raDefaultReconcile (domain : Domain) (owner : NameBuffer) (applied : List NameBuffer) :
    Domain × NameBuffer :=
  let applied := applied.take cfgMaxSearch
  if owner.text = [] then
    if domain ≠ [] then (domain, owner)
    else match applied with
      | [] => (domain, owner)
      | first :: _ => (domainCopy first.text, .copy first.text)
  else if domainSame domain owner.text = false then (domain, .empty)
  else if applied.any fun a ↦ domainSame owner.text a.text then (domain, owner)
  else match applied with
    | [] => ([], .empty)
    | first :: _ => (domainCopy first.text, .copy first.text)

/-- `lease[]` of `AmiNsDhcpDomainState`: a slot for each interface, and DHCPv6 in the last. -/
abbrev DomainLeases := Fin (cfgMaxAttached + 1) → Domain

/-- The first lease that names a domain. -/
def firstDomain (lease : DomainLeases) : Option Domain :=
  ((List.finRange (cfgMaxAttached + 1)).map lease).find? fun d ↦ d ≠ []

/-- The domain, the text DHCP put there, and the text the advertisements put there. -/
structure DomainOwners where
  domain : Domain
  owner : Domain
  raOwner : NameBuffer
  deriving DecidableEq

/-- `ami_ns_dns_dhcp_default_reconcile`. -/
def dhcpDefaultReconcile (s : DomainOwners) (lease : DomainLeases) (applied : List NameBuffer) :
    DomainOwners :=
  let offered := firstDomain lease
  if s.owner ≠ [] then
    if domainSame s.domain s.owner = false then { s with owner := [] }
    else match offered with
      | some text =>
        if domainSame s.owner text = false then
          { s with domain := domainCopy text, owner := domainCopy text }
        else s
      | none =>
        -- DHCP has gone: an advertised suffix may step in
        let r := raDefaultReconcile [] s.raOwner applied
        ⟨r.1, [], r.2⟩
  else match offered with
    | none => s
    | some text =>
      -- DHCP has precedence over what was advertised
      let s := if s.raOwner.text ≠ [] ∧ domainSame s.domain s.raOwner.text then
        { s with raOwner := .empty, domain := [] } else s
      if s.domain ≠ [] then s
      else { s with domain := domainCopy text, owner := domainCopy text }

/-- `netstack_set_domain_name`: a name that does not fit is refused. -/
def setDomainName (s : DomainOwners) (name : Domain) : DomainOwners :=
  if cfgDomainLen ≤ name.length then s else ⟨name, [], .empty⟩

/-! ### Runs -/

/-- The owners of the domain, what the leases and the advertisements name, and what of it the
reconcilers saw when they ran last. -/
structure DomainWorld where
  owners : DomainOwners
  lease : DomainLeases
  applied : List NameBuffer
  leaseSeen : DomainLeases
  appliedSeen : List NameBuffer

/-- A lease or an advertisement that changes, or one of the reconcilers. -/
inductive DomainEvent
  | dhcpUpdate (slot : Fin (cfgMaxAttached + 1)) (text : Domain)
  | raUpdate (applied : List NameBuffer)
  | dhcpReconcile
  | raReconcile

/-- One event. `ami_ns_dns_dhcp_default_update` has the slots of the interfaces, and
`ami_ns_dns_dhcpv6_default_update` the last one. -/
def domainStep (w : DomainWorld) : DomainEvent → DomainWorld
  | .dhcpUpdate slot text => { w with lease := Function.update w.lease slot (domainCopy text) }
  | .raUpdate applied => { w with applied := applied }
  | .dhcpReconcile =>
    { w with
      owners := dhcpDefaultReconcile w.owners w.lease w.applied
      leaseSeen := w.lease
      appliedSeen := if w.owners.owner ≠ [] ∧ firstDomain w.lease = none then w.applied
        else w.appliedSeen }
  | .raReconcile =>
    let r := raDefaultReconcile w.owners.domain w.owners.raOwner w.applied
    { w with owners := ⟨r.1, w.owners.owner, r.2⟩, appliedSeen := w.applied }

/-- The machine with the domain of its file, before the first lease. -/
def domainStart (file : Domain) : DomainWorld :=
  ⟨⟨file, [], .empty⟩, fun _ ↦ [], [], fun _ ↦ [], []⟩

/-- Where a list of events leads. -/
def domainRun (file : Domain) (es : List DomainEvent) : DomainWorld :=
  es.foldl domainStep (domainStart file)

/-- What the default domain should be: the first name a lease has, else an advertised suffix, else
none. -/
def DefaultIs (domain : Domain) (lease : DomainLeases) (applied : List NameBuffer) : Prop :=
  match firstDomain lease with
  | some text => domainSame domain text
  | none => if applied.take cfgMaxSearch = [] then domain = []
    else ∃ a ∈ applied.take cfgMaxSearch, domainSame domain a.text

/-! ### The invariant -/

theorem domainSame_refl (d : Domain) : domainSame d d = true :=
  domainSame_iff.mpr rfl

theorem domainSame_trans {a b c : Domain} (hab : domainSame a b = true)
    (hbc : domainSame b c = true) : domainSame a c = true :=
  domainSame_iff.mpr ((domainSame_iff.mp hab).trans (domainSame_iff.mp hbc))

theorem domainSame_eq_nil {a b : Domain} (h : domainSame a b = true) : a = [] ↔ b = [] := by
  have hlength := congrArg List.length (domainSame_iff.mp h)
  rw [domainKey, domainKey, List.length_map, List.length_map] at hlength
  rw [← List.length_eq_zero_iff, ← List.length_eq_zero_iff, hlength]

theorem domainCopy_of_fits {d : Domain} (h : d.length < cfgDomainLen) : domainCopy d = d :=
  List.take_of_length_le (Nat.le_pred_of_lt h)

theorem domainCopy_text (b : NameBuffer) : domainCopy b.text = b.text :=
  domainCopy_of_fits (b.fits.trans (by decide))

theorem firstDomain_some {lease : DomainLeases} {text : Domain}
    (h : firstDomain lease = some text) : text ≠ [] ∧ ∃ i, lease i = text := by
  obtain ⟨i, -, hi⟩ := List.mem_map.mp (List.mem_of_find?_eq_some h)
  exact ⟨by simpa using List.find?_some h, i, hi⟩

/-- The advertisements stand behind what they put there. -/
def Advertised (owner : NameBuffer) (applied : List NameBuffer) : Prop :=
  if applied.take cfgMaxSearch = [] then owner.text = []
  else ∃ a ∈ applied.take cfgMaxSearch, domainSame owner.text a.text

/-- A domain that is the advertisements' to give follows them. -/
theorem raDefaultReconcile_spec {domain : Domain} {owner : NameBuffer} (applied : List NameBuffer)
    (h : domainSame domain owner.text = true) :
    domainSame (raDefaultReconcile domain owner applied).1
        (raDefaultReconcile domain owner applied).2.text = true ∧
      Advertised (raDefaultReconcile domain owner applied).2 applied := by
  unfold raDefaultReconcile Advertised
  have hsame := domainSame_refl
  by_cases howner : owner.text = []
  · obtain rfl := (domainSame_eq_nil h).mpr howner
    cases happlied : applied.take cfgMaxSearch with
    | nil => simpa [howner] using h
    | cons first rest => simp [howner, domainCopy_text, hsame]
  · by_cases hany : (applied.take cfgMaxSearch).any fun a ↦ domainSame owner.text a.text
    · have hne : applied.take cfgMaxSearch ≠ [] := by
        intro hnil
        simp [hnil] at hany
      have hmem : ∃ a ∈ applied.take cfgMaxSearch, domainSame owner.text a.text = true := by
        simpa using hany
      simpa [howner, h, hany, hne] using hmem
    · cases happlied : applied.take cfgMaxSearch with
      | nil => simp [howner, h, hsame]
      | cons first rest =>
        rw [happlied] at hany
        simp [howner, h, hany, domainCopy_text, hsame]

/-- Where the domain comes from: DHCP has it, or the advertisements have. -/
structure DomainInv (w : DomainWorld) : Prop where
  fits : ∀ i, (w.lease i).length < cfgDomainLen
  owned : w.owners.owner ≠ [] → w.owners.raOwner = .empty ∧
    domainSame w.owners.domain w.owners.owner = true ∧
    ∃ text, firstDomain w.leaseSeen = some text ∧ domainSame w.owners.owner text = true
  unowned : w.owners.owner = [] → firstDomain w.leaseSeen = none ∧
    domainSame w.owners.domain w.owners.raOwner.text = true ∧
    Advertised w.owners.raOwner w.appliedSeen

variable {w : DomainWorld}

theorem DomainInv.raReconcile (h : DomainInv w) : DomainInv (domainStep w .raReconcile) := by
  refine ⟨h.fits, fun howner ↦ ?_, fun howner ↦ ?_⟩
  · obtain ⟨hra, hsame, hseen⟩ := h.owned howner
    have hdomain : w.owners.domain ≠ [] := fun hnil ↦ howner ((domainSame_eq_nil hsame).mp hnil)
    have hkeep : raDefaultReconcile w.owners.domain w.owners.raOwner w.applied =
        (w.owners.domain, .empty) := by
      simp [raDefaultReconcile, hra, hdomain]
    simpa only [domainStep, hkeep] using And.intro trivial (And.intro hsame hseen)
  · obtain ⟨hseen, hsame, -⟩ := h.unowned howner
    exact ⟨hseen, raDefaultReconcile_spec w.applied hsame⟩

theorem DomainInv.dhcpReconcile (h : DomainInv w) : DomainInv (domainStep w .dhcpReconcile) := by
  have hcopy : ∀ text, firstDomain w.lease = some text → text ≠ [] ∧ domainCopy text = text := by
    intro text htext
    obtain ⟨hne, i, rfl⟩ := firstDomain_some htext
    exact ⟨hne, domainCopy_of_fits (h.fits i)⟩
  -- A lease that takes the domain over, from nobody or from the advertisements.
  have htake : ∀ (v : DomainWorld) (text : Domain), (∀ i, (v.lease i).length < cfgDomainLen) →
      v.owners = ⟨text, text, .empty⟩ → text ≠ [] → firstDomain v.leaseSeen = some text →
      DomainInv v := by
    intro v text hfits howners hne hseen
    refine ⟨hfits, fun _ ↦ ?_, fun howner ↦ absurd howner ?_⟩
    · rw [howners]
      exact ⟨rfl, domainSame_refl _, text, hseen, domainSame_refl _⟩
    · rwa [howners]
  by_cases howner : w.owners.owner = []
  · obtain ⟨-, hsame, hadvertised⟩ := h.unowned howner
    cases hoffer : firstDomain w.lease with
    | none =>
      refine ⟨h.fits, fun hno ↦ absurd ?_ hno, fun _ ↦ ?_⟩
      · simp [domainStep, dhcpDefaultReconcile, howner, hoffer]
      · simpa [domainStep, dhcpDefaultReconcile, howner, hoffer] using ⟨hsame, hadvertised⟩
    | some text =>
      obtain ⟨hne, htext⟩ := hcopy text hoffer
      refine htake _ text h.fits ?_ hne hoffer
      by_cases hra : w.owners.raOwner.text = []
      · have hempty : w.owners.raOwner = .empty := NameBuffer.ext hra
        have hdomain := (domainSame_eq_nil hsame).mpr hra
        simp [domainStep, dhcpDefaultReconcile, howner, hoffer, hempty, hdomain, htext]
      · simp [domainStep, dhcpDefaultReconcile, howner, hoffer, hra, hsame, htext]
  · obtain ⟨hra, hsame, -⟩ := h.owned howner
    cases hoffer : firstDomain w.lease with
    | none =>
      have hspec := raDefaultReconcile_spec w.applied (domainSame_refl NameBuffer.empty.text)
      refine ⟨h.fits, fun hno ↦ absurd ?_ hno, fun _ ↦ ?_⟩
      · simp [domainStep, dhcpDefaultReconcile, howner, hoffer, hsame]
      · simpa [domainStep, dhcpDefaultReconcile, howner, hoffer, hsame, hra] using hspec
    | some text =>
      obtain ⟨hne, htext⟩ := hcopy text hoffer
      cases hkeep : domainSame w.owners.owner text with
      | false =>
        refine htake _ text h.fits ?_ hne hoffer
        simp [domainStep, dhcpDefaultReconcile, howner, hoffer, hsame, hkeep, htext, hra]
      | true =>
        have hstay : dhcpDefaultReconcile w.owners w.lease w.applied = w.owners := by
          simp [dhcpDefaultReconcile, howner, hoffer, hsame, hkeep]
        refine ⟨h.fits, fun _ ↦ ?_, fun hno ↦ absurd ?_ howner⟩
        · rw [domainStep, hstay]
          exact ⟨hra, hsame, text, hoffer, hkeep⟩
        · rwa [domainStep, hstay] at hno

theorem domainInv_start : DomainInv (domainStart []) := by
  refine ⟨fun _ ↦ Nat.zero_lt_succ _, fun hno ↦ absurd rfl hno, fun _ ↦ ⟨by decide, rfl, ?_⟩⟩
  simp [Advertised, domainStart]

theorem DomainInv.step (h : DomainInv w) (e : DomainEvent) : DomainInv (domainStep w e) := by
  cases e with
  | dhcpUpdate slot text =>
    refine ⟨fun i ↦ ?_, h.owned, h.unowned⟩
    rw [domainStep]
    dsimp only
    by_cases hi : i = slot
    · rw [hi, Function.update_self]
      exact Nat.lt_of_le_of_lt (List.length_take_le ..) (by decide)
    · rw [Function.update_of_ne hi]
      exact h.fits i
  | raUpdate applied => exact ⟨h.fits, h.owned, h.unowned⟩
  | dhcpReconcile => exact h.dhcpReconcile
  | raReconcile => exact h.raReconcile

/-- What the invariant says of the domain itself. -/
theorem DomainInv.defaultIs (h : DomainInv w) :
    DefaultIs w.owners.domain w.leaseSeen w.appliedSeen := by
  unfold DefaultIs
  by_cases howner : w.owners.owner = []
  · obtain ⟨hseen, hsame, hadvertised⟩ := h.unowned howner
    unfold Advertised at hadvertised
    rw [hseen]
    dsimp only
    split_ifs at hadvertised ⊢ with hnone
    · exact (domainSame_eq_nil hsame).mpr hadvertised
    · obtain ⟨a, ha, hsame'⟩ := hadvertised
      exact ⟨a, ha, domainSame_trans hsame hsame'⟩
  · obtain ⟨-, hsame, text, hseen, hsame'⟩ := h.owned howner
    rw [hseen]
    exact domainSame_trans hsame hsame'

/-- A domain that no lease and no advertisement put there stays. -/
theorem domainStep_explicit {name : Domain} (hname : name ≠ [])
    (h : w.owners = ⟨name, [], .empty⟩) (e : DomainEvent) :
    (domainStep w e).owners = ⟨name, [], .empty⟩ := by
  cases e with
  | dhcpUpdate slot text => exact h
  | raUpdate applied => exact h
  | dhcpReconcile =>
    rw [domainStep, h]
    cases hoffer : firstDomain w.lease <;>
      simp [dhcpDefaultReconcile, hoffer, hname]
  | raReconcile =>
    rw [domainStep, h]
    simp [raDefaultReconcile, hname]

/-- **Precedence.** In every run of a machine whose file names no domain, the default domain is up
to the case of its letters the first that a lease names, else an advertised suffix, else none, for
the leases and the advertisements as the reconcilers saw them last. A domain of the file or of a
caller stays. -/
theorem defaultDomain_precedence (es : List DomainEvent) :
    DefaultIs (domainRun [] es).owners.domain (domainRun [] es).leaseSeen
      (domainRun [] es).appliedSeen ∧
    (∀ file, file ≠ [] → (domainRun file es).owners.domain = file) ∧
    ∀ (w : DomainWorld) (name : Domain), name ≠ [] → name.length < cfgDomainLen →
      (es.foldl domainStep { w with owners := setDomainName w.owners name }).owners.domain =
        name := by
  have hexplicit : ∀ (w : DomainWorld) (name : Domain), name ≠ [] →
      w.owners = ⟨name, [], .empty⟩ → (es.foldl domainStep w).owners = ⟨name, [], .empty⟩ :=
    fun w name hname hw ↦ List.foldlRecOn es domainStep
      (motive := fun v ↦ v.owners = ⟨name, [], .empty⟩) hw fun v hv e _ ↦
        domainStep_explicit hname hv e
  refine ⟨?_, fun file hfile ↦ ?_, fun w name hname hfits ↦ ?_⟩
  · have hinv : DomainInv (domainRun [] es) :=
      List.foldlRecOn es domainStep domainInv_start fun v hv e _ ↦ hv.step e
    exact hinv.defaultIs
  · rw [domainRun, hexplicit (domainStart file) file hfile rfl]
  · rw [hexplicit _ name hname (by simp [setDomainName, Nat.not_le.mpr hfits])]

/-- **The letters** of a name that comes back in others stay as they were, and **an update** that
its own reconciler has not seen is not regarded by the other one. -/
theorem defaultDomain_text :
    (domainRun [] [.dhcpUpdate 0 [0x41], .dhcpReconcile, .dhcpUpdate 0 [0x61],
      .dhcpReconcile]).owners.domain = [0x41] ∧
    (domainRun [] [.dhcpUpdate 0 [0x61], .raUpdate [.copy [0x62]],
      .raReconcile]).owners.domain = [0x62] := by
  decide

end AmiNetXDuo.Netstack
