import AmiNetXDuo.Netstack.ResolverNames

/-!
# The hand-off of router advertisements

The IP thread records the RDNSS and DNSSL options it receives for each interface, and a caller's
task takes a snapshot of the record when something has changed or has expired: the servers and the
search domains, each once, as many as the snapshot holds. Every call is one section, and the flag
that says that something has changed is cleared in the section that copies what it is about.

## Main definitions

* `dnsslName`, `raDnssl`, `dnsslSnapshot` : the DNSSL half of the code, beside `RouterAdvert`.
* `RaWorld`, `RaEvent`, `raStep` : the record and what was delivered last.

## Main results

* `collectBy_spec` : what a snapshot lists.
* `RaHandedOff.step` : one call.
* `raHandoff_complete` : no update is lost.
* `raHandoff_cut` : a server that leaves the list while an interface still advertises it.
-/

namespace AmiNetXDuo.Netstack

/-! ### The DNSSL half -/

/-- `AMI_DNSSL_MAX`. -/
def dnsslMax : ℕ := 256

/-- `AmiNsDnsslEntry`. -/
structure DnsslEntry where
  domain : Domain
  lifetime : UInt32
  received : UInt32
  deriving DecidableEq, Repr

/-- The DNSSL half of `AmiNsRaPending`. -/
structure DnsslPending where
  dnssl : Fin cfgMaxAttached → List DnsslEntry
  dnsslPending : Bool

/-- The letters, digits and hyphens of a label. -/
def labelByte (c : UInt8) : Bool :=
  (0x61 ≤ c && c ≤ 0x7A) || (0x41 ≤ c && c ≤ 0x5A) || (0x30 ≤ c && c ≤ 0x39) || c = 0x2D

/-- `ami_ns_ra_dnssl_name`: one name off the option, behind what is already read of it. -/
def dnsslName (out : Domain) : List UInt8 → Option (Domain × List UInt8)
  | [] => none
  | label :: rest =>
    if label = 0 then if out = [] then none else some (out, rest)
    else if 63 < label ∨ rest.length < label.toNat ∨ rest.head? = some 0x2D ∨
        (rest.take label.toNat).getLast? = some 0x2D then none
    else if out ≠ [] ∧ cfgNameLen ≤ out.length + 1 then none
    else
      let dotted := if out = [] then out else out ++ [0x2E]
      if cfgNameLen ≤ dotted.length + label.toNat then none
      else if (rest.take label.toNat).all labelByte then
        dnsslName (dotted ++ rest.take label.toNat) (rest.drop label.toNat)
      else none
termination_by bytes => bytes.length
decreasing_by
  rw [List.length_drop, List.length_cons]
  omega

theorem dnsslName_length {out name : Domain} {bytes rest : List UInt8}
    (h : dnsslName out bytes = some (name, rest)) : rest.length < bytes.length := by
  fun_induction dnsslName out bytes with
  | case1 => cases h
  | case2 => cases h
  | case3 => grind
  | case4 => cases h
  | case5 => cases h
  | case6 => cases h
  | case7 => grind
  | case8 => cases h

/-- One name of a DNSSL option. -/
def dnsslOne (pending : DnsslPending) (iface : Fin cfgMaxAttached) (name : Domain)
    (lifetime now : UInt32) : DnsslPending :=
  let entries := pending.dnssl iface
  let known := entries.any fun e ↦ domainSame e.domain name
  let store := fun entries' ↦ Function.update pending.dnssl iface entries'
  if lifetime = 0 then
    if known then ⟨store (entries.eraseP fun e ↦ domainSame e.domain name), true⟩ else pending
  else if known then
    ⟨store (entries.replaceF fun e ↦
      if domainSame e.domain name then some { e with lifetime := lifetime, received := now }
      else none), pending.dnsslPending⟩
  else if entries.length < cfgMaxSearch then
    ⟨store (entries ++ [⟨name, lifetime, now⟩]), true⟩
  else pending

/-- The names of an option, up to the first that is not one. -/
def dnsslNames (bytes : List UInt8) : List Domain :=
  match _h : dnsslName [] bytes with
  | none => []
  | some (name, rest) => name :: dnsslNames rest
termination_by bytes.length
decreasing_by exact dnsslName_length _h

/-- `ami_ns_ra_dnssl`. -/
def raDnssl (pending : DnsslPending) (interfaceIndex : ℕ) (domains : List UInt8)
    (lifetime now : UInt32) : DnsslPending :=
  if h : interfaceIndex < cfgMaxAttached then
    if domains.length = 0 ∨ dnsslMax < domains.length then pending
    else (dnsslNames domains).foldl (fun pending name ↦
      dnsslOne pending ⟨interfaceIndex, h⟩ name lifetime now) pending
  else pending

/-- Every domain on record, interface by interface. -/
def DnsslPending.domains (pending : DnsslPending) : List Domain :=
  (List.finRange cfgMaxAttached).flatMap fun iface ↦ (pending.dnssl iface).map DnsslEntry.domain

/-- The expiry pass of `ami_ns_ra_snapshot`. -/
def dnsslExpire (pending : DnsslPending) (now : UInt32) : DnsslPending where
  dnssl iface := (pending.dnssl iface).filter fun e ↦ !raExpired e.received e.lifetime now
  dnsslPending := pending.dnsslPending || (List.finRange cfgMaxAttached).any fun iface ↦
    (pending.dnssl iface).any fun e ↦ raExpired e.received e.lifetime now

/-! ### What a snapshot lists -/

section Collect

variable {α : Type*} {same : α → α → Bool} {max : ℕ}

/-- A list has every item of a collection once, unless it is full. -/
structure Lists (same : α → α → Bool) (max : ℕ) (list union : List α) : Prop where
  length_le : list.length ≤ max
  mem : ∀ x ∈ list, x ∈ union
  once : list.Pairwise fun x y ↦ same x y = false
  complete : list.length = max ∨ ∀ x ∈ union, ∃ y ∈ list, same y x = true

/-- **The list of a snapshot.** -/
theorem collectBy_spec (hrefl : ∀ x, same x x = true) {found done : List α}
    (h : Lists same max found done) (rest : List α) :
    Lists same max (collectBy same max found rest) (done ++ rest) := by
  induction rest generalizing found done with
  | nil => simpa [collectBy] using h
  | cons x rest ih =>
    have hassoc : done ++ x :: rest = done ++ [x] ++ rest := by simp
    rw [collectBy, hassoc]
    split_ifs with hnew
    · refine ih ⟨?_, ?_, ?_, ?_⟩
      · rw [List.length_append, List.length_singleton]
        exact hnew.1
      · intro y hy
        exact List.mem_append.mpr ((List.mem_append.mp hy).imp_left (h.mem y))
      · exact List.pairwise_append.mpr ⟨h.once, List.pairwise_singleton .., by simpa using hnew.2⟩
      · refine .inr fun y hy ↦ ?_
        rcases List.mem_append.mp hy with hy | hy
        · rcases h.complete with hfull | hall
          · exact absurd hfull hnew.1.ne
          · obtain ⟨z, hz, hsame⟩ := hall y hy
            exact ⟨z, List.mem_append_left _ hz, hsame⟩
        · obtain rfl := List.mem_singleton.mp hy
          exact ⟨y, by simp, hrefl y⟩
    · refine ih ⟨h.length_le, fun y hy ↦ List.mem_append_left _ (h.mem y hy), h.once, ?_⟩
      rcases h.length_le.eq_or_lt with hfull | hroom
      · exact .inl hfull
      · refine .inr fun y hy ↦ ?_
        rcases List.mem_append.mp hy with hy | hy
        · exact h.complete.resolve_left hroom.ne y hy
        · obtain rfl := List.mem_singleton.mp hy
          simpa [hroom] using hnew

theorem lists_nil : Lists same max [] [] :=
  ⟨Nat.zero_le _, by simp, .nil, .inr (by simp)⟩

end Collect

/-- The DNSSL half of `ami_ns_ra_snapshot`. -/
def dnsslSnapshot (pending : DnsslPending) (now : UInt32) : DnsslPending × Option (List Domain) :=
  if (dnsslExpire pending now).dnsslPending then
    ({ dnsslExpire pending now with dnsslPending := false },
      some (collectBy domainSame cfgMaxSearch [] (dnsslExpire pending now).domains))
  else (dnsslExpire pending now, none)

/-! ### Runs -/

/-- The record, and the servers and the domains that were delivered last. -/
structure RaWorld where
  ra : RaPending
  dnssl : DnsslPending
  servers : List Ip6
  domains : List Domain

/-- A call: an option that arrives on an interface, or a snapshot. -/
inductive RaEvent
  | rdnss (interfaceIndex : ℕ) (address : Ip6) (lifetime now : UInt32)
  | dnssl (interfaceIndex : ℕ) (domains : List UInt8) (lifetime now : UInt32)
  | snapshot (now : UInt32)

/-- One call. What is not pending is not delivered again. -/
def raStep (w : RaWorld) : RaEvent → RaWorld
  | .rdnss i address lifetime now => { w with ra := raRdnss w.ra i address lifetime now }
  | .dnssl i domains lifetime now => { w with dnssl := raDnssl w.dnssl i domains lifetime now }
  | .snapshot now =>
    ⟨(raSnapshot w.ra now).1, (dnsslSnapshot w.dnssl now).1,
      (raSnapshot w.ra now).2.getD w.servers, (dnsslSnapshot w.dnssl now).2.getD w.domains⟩

/-- Nothing has been received. -/
def raStart : RaWorld :=
  ⟨⟨fun _ ↦ [], false⟩, ⟨fun _ ↦ [], false⟩, [], []⟩

/-- What is not pending has been delivered. -/
structure RaHandedOff (w : RaWorld) : Prop where
  servers : w.ra.rdnssPending = false →
    w.servers = collectBy (fun x y ↦ decide (x = y)) rdnssMax [] w.ra.addresses
  domains : w.dnssl.dnsslPending = false →
    w.domains = collectBy domainSame cfgMaxSearch [] w.dnssl.domains

theorem map_replaceF {α β : Type*} {f : α → Option α} {g : α → β}
    (h : ∀ x y, f x = some y → g y = g x) (l : List α) : (l.replaceF f).map g = l.map g := by
  induction l with
  | nil => rfl
  | cons x l ih =>
    rw [List.replaceF_cons]
    cases hf : f x with
    | none => rw [List.map_cons, List.map_cons, ih]
    | some y => rw [List.map_cons, List.map_cons, h x y hf]

theorem flatMap_update {α β : Type*} {table : Fin cfgMaxAttached → List α}
    {iface : Fin cfgMaxAttached} {entries : List α} {g : α → β}
    (h : entries.map g = (table iface).map g) :
    ((List.finRange cfgMaxAttached).flatMap fun j ↦
        (Function.update table iface entries j).map g) =
      (List.finRange cfgMaxAttached).flatMap fun j ↦ (table j).map g := by
  congr 1
  funext j
  by_cases hj : j = iface
  · rw [hj, Function.update_self, h]
  · rw [Function.update_of_ne hj]

/-- An option sets the flag, or leaves the servers as they are. -/
theorem raRdnss_pending (p : RaPending) (i : ℕ) (address : Ip6) (lifetime now : UInt32) :
    (raRdnss p i address lifetime now).rdnssPending = true ∨
      (raRdnss p i address lifetime now).rdnssPending = p.rdnssPending ∧
        (raRdnss p i address lifetime now).addresses = p.addresses := by
  simp only [raRdnss]
  split_ifs
  · exact .inl rfl
  · exact .inr ⟨rfl, rfl⟩
  · refine .inr ⟨rfl, flatMap_update (map_replaceF ?_ _)⟩
    intro x y hxy
    split_ifs at hxy with heq
    obtain rfl := Option.some.inj hxy
    exact heq.symm
  · exact .inl rfl
  · exact .inr ⟨rfl, rfl⟩
  · exact .inr ⟨rfl, rfl⟩

theorem dnsslOne_pending (p : DnsslPending) (iface : Fin cfgMaxAttached) (name : Domain)
    (lifetime now : UInt32) : (dnsslOne p iface name lifetime now).dnsslPending = true ∨
      (dnsslOne p iface name lifetime now).dnsslPending = p.dnsslPending ∧
        (dnsslOne p iface name lifetime now).domains = p.domains := by
  simp only [dnsslOne]
  split_ifs
  · exact .inl rfl
  · exact .inr ⟨rfl, rfl⟩
  · refine .inr ⟨rfl, flatMap_update (map_replaceF ?_ _)⟩
    intro x y hxy
    split_ifs at hxy
    obtain rfl := Option.some.inj hxy
    rfl
  · exact .inl rfl
  · exact .inr ⟨rfl, rfl⟩

theorem raDnssl_pending (p : DnsslPending) (i : ℕ) (domains : List UInt8) (lifetime now : UInt32) :
    (raDnssl p i domains lifetime now).dnsslPending = true ∨
      (raDnssl p i domains lifetime now).dnsslPending = p.dnsslPending ∧
        (raDnssl p i domains lifetime now).domains = p.domains := by
  unfold raDnssl
  split_ifs with hi
  · exact .inr ⟨rfl, rfl⟩
  · refine List.foldlRecOn (dnsslNames domains) _ (motive := fun q : DnsslPending ↦
      q.dnsslPending = true ∨ q.dnsslPending = p.dnsslPending ∧ q.domains = p.domains)
      (.inr ⟨rfl, rfl⟩) ?_
    intro q hq name _
    rcases dnsslOne_pending q ⟨i, hi⟩ name lifetime now with hset | ⟨hsame, hdomains⟩
    · exact .inl hset
    · rw [hsame, hdomains]
      exact hq
  · exact .inr ⟨rfl, rfl⟩

/-- With nothing expired the expiry pass does nothing. -/
theorem addresses_raExpire (p : RaPending) {now : UInt32}
    (h : ∀ iface, ∀ e ∈ p.rdnss iface, e.expired now = false) :
    (raExpire p now).addresses = p.addresses := by
  unfold RaPending.addresses raExpire
  congr 1
  funext iface
  dsimp only
  rw [List.filter_eq_self.mpr fun e he ↦ by rw [h iface e he]; rfl]

theorem domains_dnsslExpire (p : DnsslPending) {now : UInt32}
    (h : ∀ iface, ∀ e ∈ p.dnssl iface, raExpired e.received e.lifetime now = false) :
    (dnsslExpire p now).domains = p.domains := by
  unfold DnsslPending.domains dnsslExpire
  congr 1
  funext iface
  dsimp only
  rw [List.filter_eq_self.mpr fun e he ↦ by rw [h iface e he]; rfl]

variable {w : RaWorld}

theorem RaHandedOff.snapshot (h : RaHandedOff w) (now : UInt32) :
    RaHandedOff (raStep w (.snapshot now)) := by
  refine ⟨fun _ ↦ ?_, fun _ ↦ ?_⟩
  · cases hpending : (raExpire w.ra now).rdnssPending with
    | true => simp [raStep, raSnapshot, hpending, RaPending.addresses]
    | false =>
      obtain ⟨hclear, hfresh⟩ := Bool.or_eq_false_iff.mp hpending
      have hexpire := addresses_raExpire w.ra (by simpa using hfresh)
      simpa [raStep, raSnapshot, hpending, hexpire] using h.servers hclear
  · cases hpending : (dnsslExpire w.dnssl now).dnsslPending with
    | true => simp [raStep, dnsslSnapshot, hpending, DnsslPending.domains]
    | false =>
      obtain ⟨hclear, hfresh⟩ := Bool.or_eq_false_iff.mp hpending
      have hexpire := domains_dnsslExpire w.dnssl (by simpa using hfresh)
      simpa [raStep, dnsslSnapshot, hpending, hexpire] using h.domains hclear

/-- **One call.** -/
theorem RaHandedOff.step (h : RaHandedOff w) (e : RaEvent) : RaHandedOff (raStep w e) := by
  cases e with
  | rdnss i address lifetime now =>
    refine ⟨fun hclear ↦ ?_, h.domains⟩
    rcases raRdnss_pending w.ra i address lifetime now with hset | ⟨hsame, haddresses⟩
    · exact absurd (hclear.symm.trans hset) Bool.false_ne_true
    · exact (h.servers (hsame.symm.trans hclear)).trans (by rw [← haddresses]; rfl)
  | dnssl i domains lifetime now =>
    refine ⟨h.servers, fun hclear ↦ ?_⟩
    rcases raDnssl_pending w.dnssl i domains lifetime now with hset | ⟨hsame, hdomains⟩
    · exact absurd (hclear.symm.trans hset) Bool.false_ne_true
    · exact (h.domains (hsame.symm.trans hclear)).trans (by rw [← hdomains]; rfl)
  | snapshot now => exact h.snapshot now

theorem raHandedOff_run (es : List RaEvent) : RaHandedOff (es.foldl raStep raStart) :=
  List.foldlRecOn es raStep ⟨fun _ ↦ by decide, fun _ ↦ by decide⟩ fun _ h e _ ↦ h.step e

/-- A withdrawal on one interface leaves the tables of the others alone. -/
theorem raRdnss_other {p : RaPending} {i : ℕ} {address : Ip6} {lifetime now : UInt32}
    {j : Fin cfgMaxAttached} (hj : j.val ≠ i) :
    (raRdnss p i address lifetime now).rdnss j = p.rdnss j := by
  simp only [raRdnss]
  split_ifs with hi
  all_goals first | rfl | exact Function.update_of_ne (fun heq ↦ hj (congrArg Fin.val heq)) ..

theorem raDnssl_other {p : DnsslPending} {i : ℕ} {domains : List UInt8} {lifetime now : UInt32}
    {j : Fin cfgMaxAttached} (hj : j.val ≠ i) :
    (raDnssl p i domains lifetime now).dnssl j = p.dnssl j := by
  unfold raDnssl
  split_ifs with hi
  · rfl
  · refine List.foldlRecOn (dnsslNames domains) _ (motive := fun q : DnsslPending ↦
      q.dnssl j = p.dnssl j) rfl fun q hq name _ ↦ ?_
    rw [← hq]
    simp only [dnsslOne]
    split_ifs
    all_goals first | rfl | exact Function.update_of_ne (fun heq ↦ hj (congrArg Fin.val heq)) ..
  · rfl

/-- **No update is lost.** In every run, where a half is not pending and none of its entries has
expired, what was delivered last lists the servers or the domains on record, each once, unless the
list is full. An option touches no table but that of its own interface, and the expiry pass no entry
that has not expired. -/
theorem raHandoff_complete (es : List RaEvent) (now : UInt32) :
    let w := es.foldl raStep raStart
    (w.ra.rdnssPending = false → (∀ iface, ∀ e ∈ w.ra.rdnss iface, e.expired now = false) →
      Lists (fun x y ↦ decide (x = y)) rdnssMax w.servers (raExpire w.ra now).addresses) ∧
    (w.dnssl.dnsslPending = false →
      (∀ iface, ∀ e ∈ w.dnssl.dnssl iface, raExpired e.received e.lifetime now = false) →
      Lists domainSame cfgMaxSearch w.domains (dnsslExpire w.dnssl now).domains) ∧
    (∀ i address lifetime j, j.val ≠ i →
      (raRdnss w.ra i address lifetime now).rdnss j = w.ra.rdnss j) ∧
    (∀ i domains lifetime j, j.val ≠ i →
      (raDnssl w.dnssl i domains lifetime now).dnssl j = w.dnssl.dnssl j) ∧
    (∀ iface, ∀ e ∈ w.ra.rdnss iface, e.expired now = false →
      e ∈ (raStep w (.snapshot now)).ra.rdnss iface) ∧
    ∀ iface, ∀ e ∈ w.dnssl.dnssl iface, raExpired e.received e.lifetime now = false →
      e ∈ (raStep w (.snapshot now)).dnssl.dnssl iface := by
  intro w
  have h := raHandedOff_run es
  refine ⟨fun hclear hfresh ↦ ?_, fun hclear hfresh ↦ ?_, fun i address lifetime j ↦ raRdnss_other,
    fun i domains lifetime j ↦ raDnssl_other, fun iface e he hfresh ↦ ?_,
    fun iface e he hfresh ↦ ?_⟩
  · rw [h.servers hclear, addresses_raExpire _ hfresh]
    exact collectBy_spec (by simp) lists_nil _
  · rw [h.domains hclear, domains_dnsslExpire _ hfresh]
    exact collectBy_spec (fun x ↦ domainSame_iff.mpr rfl) lists_nil _
  · have hmem : e ∈ (raExpire w.ra now).rdnss iface :=
      List.mem_filter.mpr ⟨he, by rw [hfresh]; rfl⟩
    simp only [raStep, raSnapshot]
    split_ifs <;> exact hmem
  · have hmem : e ∈ (dnsslExpire w.dnssl now).dnssl iface :=
      List.mem_filter.mpr ⟨he, by rw [hfresh]; rfl⟩
    simp only [raStep, dnsslSnapshot]
    split_ifs <;> exact hmem

/-- A server, by its last word. -/
def server (n : UInt32) : Ip6 := ⟨0, 0, 0, n⟩

/-- Four servers on the first interface; a fifth and the first again on the second. -/
def sixOptions : List RaEvent :=
  [.rdnss 0 (server 1) 60 0, .rdnss 0 (server 2) 60 0, .rdnss 0 (server 3) 60 0,
    .rdnss 0 (server 4) 60 0, .rdnss 1 (server 5) 60 0, .rdnss 1 (server 1) 60 0, .snapshot 1]

/-- **A full list.** The first interface withdraws a server that the second still advertises, and
the fifth server takes its place. -/
theorem raHandoff_cut :
    (sixOptions.foldl raStep raStart).servers = [server 1, server 2, server 3, server 4] ∧
    let w := [RaEvent.rdnss 0 (server 1) 0 2, .snapshot 3].foldl raStep
      (sixOptions.foldl raStep raStart)
    (∃ e ∈ w.ra.rdnss ⟨1, by decide⟩, e.address = server 1 ∧ e.expired 3 = false) ∧
      w.servers = [server 2, server 3, server 4, server 5] := by
  decide

end AmiNetXDuo.Netstack
