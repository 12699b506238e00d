import AmiNetXDuo.Netstack.ResolverNames

/-!
# The host name a DHCP lease brings

A lease may name the machine (option 12). The first interface whose lease does wins over the name
the machine had, unless that name is of a source ranked with DHCP or above it, and what it replaced
comes back when no lease names the machine any more. A text that is no host name is not taken, and
keeps the interfaces behind it from being asked; the decoder of the option lets none through.

## Main definitions

* `hostnameOffer`, `dhcpHostnameDecode`, `dhcpHostnameUpdate`, `dhcpHostnameReconcile` : the code.
* `HostnameEvent`, `hostnameStep` : what happens to the leases.
* `activeHostname` : the name the machine should have.

## Main results

* `HostnameInv.reconcile` : a reconciliation gives the machine that name.
* `dhcpHostname_active` : after every reconciliation of every run.
* `dhcpHostname_refuses` : a text that is no host name.
-/

namespace AmiNetXDuo.Netstack

/-- `AmiHostnameSource`. -/
inductive HostnameSource
  | none
  | interface
  | env
  | dhcp
  | nameres
  | hosts
  deriving DecidableEq, Repr

/-- `ami_config_hostname_rank`: `hosts` holds the place of `name_resolution`. -/
def hostnameRank : HostnameSource → ℕ
  | .none => 0
  | .interface => 1
  | .env => 2
  | .dhcp => 3
  | .nameres | .hosts => 4

/-- A text in a buffer of `AMI_CFG_NAME_LEN`. -/
structure NameBuffer where
  text : Domain
  fits : text.length < cfgNameLen
  deriving DecidableEq

@[ext] theorem NameBuffer.ext {a b : NameBuffer} (h : a.text = b.text) : a = b := by
  cases a
  cases b
  congr

/-- `ami_ns_hostname_copy` and `ami_cfg_copy_string`: what fits of a text. -/
def NameBuffer.copy (src : Domain) : NameBuffer :=
  ⟨src.take (cfgNameLen - 1), Nat.lt_of_le_of_lt (List.length_take_le ..) (by decide)⟩

@[simp] theorem NameBuffer.copy_text (b : NameBuffer) : NameBuffer.copy b.text = b :=
  NameBuffer.ext (List.take_of_length_le (Nat.le_pred_of_lt b.fits))

/-- The empty text. -/
def NameBuffer.empty : NameBuffer := ⟨[], by decide⟩

@[simp] theorem NameBuffer.empty_text : NameBuffer.empty.text = [] := rfl

/-- The host name of an `AmiConfig` and where it came from. -/
structure HostnameConfig where
  hostname : NameBuffer
  hostnameSource : HostnameSource
  deriving DecidableEq

/-- `AmiNsDhcpHostnameState`. -/
structure DhcpHostnameState where
  lease : Fin cfgMaxAttached → NameBuffer
  owner : NameBuffer
  fallback : NameBuffer
  fallbackSource : HostnameSource

/-- `ami_config_hostname_offer`. A failed offer is `none` and changes nothing. -/
def hostnameOffer (cfg : HostnameConfig) (source : HostnameSource) (name : Domain) :
    Option HostnameConfig :=
  if name = [] then none
  else if source = .none ∨ hostnameRank source < hostnameRank cfg.hostnameSource then none
  else if (source = .interface ∨ source = .dhcp) ∧ hostnameValid name = false then none
  else some ⟨.copy name, source⟩

/-- `ami_ns_dhcp_hostname_decode`: option 12 as text, empty where it is no host name. -/
def dhcpHostnameDecode (raw : List UInt8) : Domain :=
  if raw.length = 0 ∨ cfgNameLen ≤ raw.length then []
  else if 0 ∈ raw then []
  else if hostnameValid raw then raw
  else []

/-- `ami_ns_dhcp_hostname_update`. -/
def dhcpHostnameUpdate (state : DhcpHostnameState) (interfaceIndex : ℕ) (hostname : Domain) :
    DhcpHostnameState :=
  if h : interfaceIndex < cfgMaxAttached then
    { state with lease := Function.update state.lease ⟨interfaceIndex, h⟩ (.copy hostname) }
  else state

/-- `ami_ns_dhcp_hostname_displace`. -/
def dhcpHostnameDisplace (state : DhcpHostnameState) : DhcpHostnameState :=
  { state with owner := .empty, fallback := .empty, fallbackSource := .none }

/-- The first interface whose lease names the machine. -/
def firstOffer (lease : Fin cfgMaxAttached → NameBuffer) : Option NameBuffer :=
  ((List.finRange cfgMaxAttached).map lease).find? fun b ↦ b.text ≠ []

/-- `ami_ns_dhcp_hostname_reconcile`, without its answer. -/
def dhcpHostnameReconcile (cfg : HostnameConfig) (state : DhcpHostnameState) :
    HostnameConfig × DhcpHostnameState :=
  let offered := firstOffer state.lease
  if state.owner.text ≠ [] then
    if cfg.hostnameSource ≠ .dhcp ∨ cfg.hostname ≠ state.owner then
      -- a direct writer or a stronger source displaced this lease
      (cfg, dhcpHostnameDisplace state)
    else match offered with
      | some name =>
        if state.owner = name then (cfg, state)
        else match hostnameOffer cfg .dhcp name.text with
          | none => (cfg, state)
          | some cfg' => (cfg', { state with owner := .copy name.text })
      | none => (⟨.copy state.fallback.text, state.fallbackSource⟩, dhcpHostnameDisplace state)
  else match offered with
    | none => (cfg, state)
    | some name =>
      if hostnameRank .dhcp ≤ hostnameRank cfg.hostnameSource then (cfg, state)
      else match hostnameOffer cfg .dhcp name.text with
        | none => (cfg, { state with fallback := .empty, fallbackSource := .none })
        | some cfg' => (cfg', { state with
            owner := .copy name.text
            fallback := .copy cfg.hostname.text
            fallbackSource := cfg.hostnameSource })

/-! ### Runs -/

/-- A lease that is read again, with the name it carries (none for a lease that is gone), or a
reconciliation. -/
inductive HostnameEvent
  | update (interfaceIndex : ℕ) (hostname : Domain)
  | reconcile

/-- The configuration and the leases. -/
abbrev HostnameSystem := HostnameConfig × DhcpHostnameState

/-- One event. -/
def hostnameStep (s : HostnameSystem) : HostnameEvent → HostnameSystem
  | .update i hostname => (s.1, dhcpHostnameUpdate s.2 i hostname)
  | .reconcile => dhcpHostnameReconcile s.1 s.2

/-- The machine before the first lease. -/
def hostnameStart (base : HostnameConfig) : HostnameSystem :=
  (base, ⟨fun _ ↦ .empty, .empty, .empty, .none⟩)

/-- The name the machine should have: that of the first lease with one, if the name it replaces is
ranked below DHCP. A text that is no host name leaves the machine the name it has now. -/
def activeHostname (base now : HostnameConfig) (lease : Fin cfgMaxAttached → NameBuffer) :
    HostnameConfig :=
  match firstOffer lease with
  | none => base
  | some name =>
    if hostnameRank .dhcp ≤ hostnameRank base.hostnameSource then base
    else if hostnameValid name.text then ⟨name, .dhcp⟩
    else now

/-- What every run keeps: the machine has its own name, or that of the lease that owns it with its
own kept beside it. -/
structure HostnameInv (base : HostnameConfig) (s : HostnameSystem) : Prop where
  unowned : s.2.owner.text = [] → s.1 = base
  owned : s.2.owner.text ≠ [] → s.1 = ⟨s.2.owner, .dhcp⟩ ∧ s.2.fallback = base.hostname ∧
    s.2.fallbackSource = base.hostnameSource ∧ hostnameRank base.hostnameSource < hostnameRank .dhcp

theorem firstOffer_some {lease : Fin cfgMaxAttached → NameBuffer} {name : NameBuffer}
    (h : firstOffer lease = some name) : name.text ≠ [] ∧ ∃ i, lease i = name := by
  obtain ⟨i, -, hi⟩ := List.mem_map.mp (List.mem_of_find?_eq_some h)
  exact ⟨by simpa using List.find?_some h, i, hi⟩

/-- A name of a lease is taken where DHCP may name the machine. -/
theorem hostnameOffer_dhcp {cfg : HostnameConfig} {name : Domain} (hname : name ≠ [])
    (hrank : hostnameRank cfg.hostnameSource ≤ hostnameRank .dhcp) :
    hostnameOffer cfg .dhcp name =
      if hostnameValid name then some ⟨.copy name, .dhcp⟩ else none := by
  cases hvalid : hostnameValid name <;> simp [hostnameOffer, hname, hvalid, Nat.not_lt.mpr hrank]

variable {base : HostnameConfig} {s : HostnameSystem}

/-- **A reconciliation** gives the machine the name it should have. -/
theorem HostnameInv.reconcile (h : HostnameInv base s) :
    HostnameInv base (dhcpHostnameReconcile s.1 s.2) ∧
      (dhcpHostnameReconcile s.1 s.2).1 = activeHostname base s.1 s.2.lease := by
  obtain ⟨cfg, state⟩ := s
  unfold dhcpHostnameReconcile activeHostname
  by_cases howner : state.owner.text = []
  · obtain rfl : cfg = base := h.unowned howner
    cases hoffer : firstOffer state.lease with
    | none => simpa [howner] using h
    | some name =>
      have hname := (firstOffer_some hoffer).1
      by_cases hrank : hostnameRank .dhcp ≤ hostnameRank cfg.hostnameSource
      · simpa [howner, hrank] using h
      · have hoffer := hostnameOffer_dhcp hname (Nat.not_le.mp hrank).le
        cases hvalid : hostnameValid name.text with
        | true =>
          have hinv : HostnameInv cfg (⟨name, .dhcp⟩,
              ⟨state.lease, name, cfg.hostname, cfg.hostnameSource⟩) :=
            ⟨fun hnil ↦ absurd hnil hname, fun _ ↦ ⟨rfl, rfl, rfl, Nat.not_le.mp hrank⟩⟩
          simpa [howner, hrank, hoffer, hvalid] using hinv
        | false =>
          have hinv : HostnameInv cfg (cfg, { state with
              fallback := .empty, fallbackSource := .none }) :=
            ⟨h.unowned, fun hno ↦ absurd howner hno⟩
          simpa [howner, hrank, hoffer, hvalid] using hinv
  · obtain ⟨hcfg, hfallback, hsource, hrank⟩ := h.owned howner
    obtain rfl : cfg = ⟨state.owner, .dhcp⟩ := hcfg
    have hlow := Nat.not_le.mpr hrank
    cases hoffer : firstOffer state.lease with
    | none =>
      have hinv : HostnameInv base (base, dhcpHostnameDisplace state) :=
        ⟨fun _ ↦ rfl, fun hno ↦ absurd rfl hno⟩
      have hbase : ⟨state.fallback, state.fallbackSource⟩ = base :=
        congrArg₂ HostnameConfig.mk hfallback hsource
      simpa [howner, hbase] using hinv
    | some name =>
      have hname := (firstOffer_some hoffer).1
      by_cases hsame : state.owner = name
      · subst hsame
        simpa [howner, hlow] using h
      · have hoffer : hostnameOffer ⟨state.owner, .dhcp⟩ .dhcp name.text = _ :=
          hostnameOffer_dhcp hname le_rfl
        cases hvalid : hostnameValid name.text with
        | true =>
          have hinv : HostnameInv base (⟨name, .dhcp⟩, { state with owner := name }) :=
            ⟨fun hnil ↦ absurd hnil hname, fun _ ↦ ⟨rfl, hfallback, hsource, hrank⟩⟩
          simpa [howner, hsame, hlow, hoffer, hvalid] using hinv
        | false => simpa [howner, hsame, hlow, hoffer, hvalid] using h

theorem HostnameInv.step (h : HostnameInv base s) (e : HostnameEvent) :
    HostnameInv base (hostnameStep s e) := by
  cases e with
  | update i hostname =>
    simp only [hostnameStep, dhcpHostnameUpdate]
    split_ifs
    · exact ⟨h.unowned, h.owned⟩
    · exact h
  | reconcile => exact h.reconcile.1

theorem hostnameInv_run (base : HostnameConfig) (es : List HostnameEvent) :
    HostnameInv base (es.foldl hostnameStep (hostnameStart base)) :=
  List.foldlRecOn es hostnameStep ⟨fun _ ↦ rfl, fun hno ↦ absurd rfl hno⟩ fun _ h e _ ↦ h.step e

/-! ### Leases the decoder has read -/

/-- A name that the decoder makes of some bytes. -/
def HostnameEvent.Decoded : HostnameEvent → Prop
  | .update _ hostname => ∃ raw, hostname = dhcpHostnameDecode raw
  | .reconcile => True

theorem dhcpHostnameDecode_valid {raw : List UInt8} (h : dhcpHostnameDecode raw ≠ []) :
    hostnameValid (dhcpHostnameDecode raw) = true ∧
      (dhcpHostnameDecode raw).length < cfgNameLen := by
  unfold dhcpHostnameDecode at h ⊢
  split_ifs at h ⊢ with hlength hzero hvalid
  · exact absurd rfl h
  · exact absurd rfl h
  · exact ⟨hvalid, by omega⟩
  · exact absurd rfl h

/-- Every lease is a host name or none. -/
def LeasesValid (s : HostnameSystem) : Prop :=
  ∀ i, (s.2.lease i).text ≠ [] → hostnameValid (s.2.lease i).text = true

theorem dhcpHostnameReconcile_lease (cfg : HostnameConfig) (state : DhcpHostnameState) :
    (dhcpHostnameReconcile cfg state).2.lease = state.lease := by
  unfold dhcpHostnameReconcile
  grind [dhcpHostnameDisplace]

theorem LeasesValid.step (h : LeasesValid s) {e : HostnameEvent} (he : e.Decoded) :
    LeasesValid (hostnameStep s e) := by
  intro j hj
  cases e with
  | reconcile =>
    rw [hostnameStep, dhcpHostnameReconcile_lease] at hj ⊢
    exact h j hj
  | update i hostname =>
    obtain ⟨raw, rfl⟩ := he
    simp only [hostnameStep, dhcpHostnameUpdate] at hj ⊢
    split_ifs at hj ⊢ with hi
    · dsimp only at hj ⊢
      by_cases hji : j = ⟨i, hi⟩
      · rw [hji, Function.update_self] at hj ⊢
        have hdecoded : dhcpHostnameDecode raw ≠ [] := fun hnil ↦ hj (by rw [hnil]; rfl)
        obtain ⟨hvalid, hfits⟩ := dhcpHostnameDecode_valid hdecoded
        rw [show NameBuffer.copy (dhcpHostnameDecode raw) = ⟨_, hfits⟩ from
          NameBuffer.copy_text ⟨_, hfits⟩]
        exact hvalid
      · rw [Function.update_of_ne hji] at hj ⊢
        exact h j hj
    · exact h j hj

/-- **The host name.** After every reconciliation the machine has the name of the first lease that
names it, if the name it had from elsewhere is ranked below DHCP, and otherwise that one, text and
source; it has that one back when no lease names it. Only a text that is no host name is not taken,
and no lease has one that its option was decoded to. -/
theorem dhcpHostname_active (base : HostnameConfig) (es : List HostnameEvent) :
    let s := es.foldl hostnameStep (hostnameStart base)
    (hostnameStep s .reconcile).1 = activeHostname base s.1 s.2.lease ∧
      ((∀ i, (s.2.lease i).text = []) → (hostnameStep s .reconcile).1 = base) ∧
      ((∀ e ∈ es, e.Decoded) → ∀ name, firstOffer s.2.lease = some name →
        hostnameRank base.hostnameSource < hostnameRank .dhcp →
        (hostnameStep s .reconcile).1 = ⟨name, .dhcp⟩) := by
  intro s
  have hactive : (hostnameStep s .reconcile).1 = activeHostname base s.1 s.2.lease :=
    (hostnameInv_run base es).reconcile.2
  refine ⟨hactive, fun hnone ↦ ?_, fun hdecoded name hoffer hrank ↦ ?_⟩
  · have hoffer : firstOffer s.2.lease = none := by
      simpa [firstOffer, List.find?_eq_none] using hnone
    rw [hactive, activeHostname, hoffer]
  · have hvalid : LeasesValid s :=
      List.foldlRecOn es hostnameStep (fun _ hno ↦ absurd rfl hno) fun _ h e he ↦
        h.step (hdecoded e he)
    obtain ⟨hname, i, rfl⟩ := firstOffer_some hoffer
    rw [hactive, activeHostname, hoffer]
    simp [hvalid i hname, Nat.not_le.mpr hrank]

/-- **A text that is no host name** is offered by the first interface and not taken, and the name
the second one offers is not taken either. -/
theorem dhcpHostname_refuses :
    let base : HostnameConfig := ⟨.copy [0x61], .env⟩
    let s := [HostnameEvent.update 0 [0x20], .update 1 [0x62]].foldl hostnameStep
      (hostnameStart base)
    firstOffer s.2.lease = some (.copy [0x20]) ∧
      hostnameRank base.hostnameSource < hostnameRank .dhcp ∧
      (hostnameStep s .reconcile).1 = base := by
  decide

end AmiNetXDuo.Netstack
