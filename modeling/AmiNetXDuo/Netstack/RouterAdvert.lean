import AmiNetXDuo.Basic
import Mathlib.Data.List.FinRange

/-!
# What router advertisements say about name servers

`netstack_ra.c` keeps the RDNSS options of RFC 8106 for each attached interface until a caller
thread takes a snapshot of them. An option with lifetime zero withdraws a server, a repeated one
only refreshes it, and a server that was not refreshed in time is dropped by the next snapshot.

## Main definitions

* `RaPending`, `raRdnss` : the record, and an option that arrives.
* `raSnapshot` : the still valid set, when it has to be reconciled.
* `RaPending.addresses` : every server on record, expired or not.
-/

namespace AmiNetXDuo.Netstack

/-- `AMI_CFG_MAX_NAMESERVERS`. -/
def cfgMaxNameservers : ℕ := 4

/-- The four words of an IPv6 address. -/
structure Ip6 where
  w0 : UInt32
  w1 : UInt32
  w2 : UInt32
  w3 : UInt32
  deriving DecidableEq, Repr

/-- `AMI_CFG_MAX_ATTACHED`. -/
def cfgMaxAttached : ℕ := 4

/-- `AMI_RDNSS_MAX`. -/
def rdnssMax : ℕ := 4

/-- `NX_IP_PERIODIC_RATE`: ticks in a second. -/
def ipPeriodicRate : UInt32 := 50

/-- `AmiNsRdnssEntry`. -/
structure RdnssEntry where
  address : Ip6
  lifetime : UInt32
  received : UInt32
  deriving DecidableEq, Repr

/-- The RDNSS half of `AmiNsRaPending`. -/
structure RaPending where
  rdnss : Fin cfgMaxAttached → List RdnssEntry
  rdnssPending : Bool

/-- `ami_ns_ra_expired`. All ones is forever, and so is what the tick counter cannot hold. -/
def raExpired (received lifetime now : UInt32) : Bool :=
  if lifetime = 0 ∨ lifetime = 0xFFFFFFFF ∨ 0xFFFFFFFF / ipPeriodicRate < lifetime then false
  else decide (lifetime * ipPeriodicRate ≤ now - received)

/-- An entry is expired at the tick `now`. -/
def RdnssEntry.expired (now : UInt32) (e : RdnssEntry) : Bool :=
  raExpired e.received e.lifetime now

/-- `ami_ns_ra_rdnss`: one RDNSS address on one interface. -/
def raRdnss (pending : RaPending) (interfaceIndex : ℕ) (address : Ip6) (lifetime now : UInt32) :
    RaPending :=
  if h : interfaceIndex < cfgMaxAttached then
    let iface : Fin cfgMaxAttached := ⟨interfaceIndex, h⟩
    let entries := pending.rdnss iface
    let known := entries.any fun e ↦ e.address = address
    let store := fun entries' ↦ Function.update pending.rdnss iface entries'
    if lifetime = 0 then
      if known then ⟨store (entries.eraseP fun e ↦ e.address = address), true⟩
      else pending
    else if known then
      -- a repeated option refreshes the entry and does not wake the consumer
      ⟨store (entries.replaceF fun e ↦
        if e.address = address then some ⟨address, lifetime, now⟩ else none), pending.rdnssPending⟩
    else if entries.length < rdnssMax then
      ⟨store (entries ++ [⟨address, lifetime, now⟩]), true⟩
    else pending
  else pending

/-- The loops of `ami_ns_ra_snapshot`: the first `max` items of a list that are not the same as one
before, after those in `found`. -/
def collectBy {α : Type*} (same : α → α → Bool) (max : ℕ) (found : List α) : List α → List α
  | [] => found
  | x :: rest =>
    if found.length < max ∧ ∀ y ∈ found, same y x = false then
      collectBy same max (found ++ [x]) rest
    else collectBy same max found rest

/-- Every server on record, interface by interface. -/
def RaPending.addresses (pending : RaPending) : List Ip6 :=
  (List.finRange cfgMaxAttached).flatMap fun iface ↦ (pending.rdnss iface).map RdnssEntry.address

/-- The expiry pass of `ami_ns_ra_snapshot`. -/
def raExpire (pending : RaPending) (now : UInt32) : RaPending where
  rdnss iface := (pending.rdnss iface).filter fun e ↦ !e.expired now
  rdnssPending := pending.rdnssPending ||
    (List.finRange cfgMaxAttached).any fun iface ↦ (pending.rdnss iface).any (·.expired now)

/-- The RDNSS half of `ami_ns_ra_snapshot`: the record after the expiry pass, and the servers to
reconcile with when anything changed since the last snapshot. -/
def raSnapshot (pending : RaPending) (now : UInt32) : RaPending × Option (List Ip6) :=
  if (raExpire pending now).rdnssPending then
    ({ raExpire pending now with rdnssPending := false },
      some (collectBy (fun x y ↦ decide (x = y)) rdnssMax [] (raExpire pending now).addresses))
  else (raExpire pending now, none)

end AmiNetXDuo.Netstack
