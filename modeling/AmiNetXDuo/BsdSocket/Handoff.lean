import AmiNetXDuo.BsdSocket.Descriptor
import Mathlib.Algebra.BigOperators.Fin
import Mathlib.Data.Fintype.BigOperators
import Mathlib.Data.Int.Interval
import Mathlib.Tactic.Ring

/-!
# Handing a socket from one task to another

`ReleaseSocket()` parks a socket in the registry of the master base under an id,
`ReleaseCopyOfSocket()` parks another reference to it, and `ObtainSocket()` takes a parked socket
back into the descriptor table of any base (`handoff.c`).  A descriptor and a registry entry each
hold one reference.

## Main definitions

* `State` : the bases, the sockets and the registry.
* `bsdReleaseSocket`, `bsdReleaseCopyOfSocket`, `bsdObtainSocket` : the three calls.
* `handoffCall`, `handoffRun` : one call, and a sequence of calls.

## Main results

* `exists_bsdHandoffNewId` : the search for an unused id ends.
* `handoffCall_inv` : one call keeps the reference counts, and what it leaves when it fails.
* `handoffRun_refCount` : the reference counts after any sequence of calls.
-/

namespace AmiNetXDuo.BsdSocket

/-! ### The calls -/

/-- `AmiSocket`, as far as the handing over goes.  `n` is the number of bases. -/
structure AmiSocket (n : Nat) where
  /-- `as_RefCount`. -/
  refCount : Nat
  /-- `as_Domain`. -/
  domain : UWord
  /-- `as_Type`. -/
  type : UWord
  /-- `as_Protocol`. -/
  protocol : Int
  /-- `ASF_INET6` in `as_Flags`. -/
  inet6 : Bool
  /-- `ASF_FAM23` in `as_Flags`. -/
  fam23 : Bool
  /-- `as_Owner`. -/
  owner : Option (Fin n)
  /-- `as_Parent`. -/
  parent : Option Nat
  /-- The list `as_Incoming` heads. -/
  incoming : List Nat

/-- `BsdHandoff`. -/
structure Handoff where
  id : Int
  socket : Nat
  claimed : Bool
  deriving DecidableEq, Repr

/-- The bases, the sockets and the registry `sb_Handoffs` of the master. -/
structure State (n : Nat) where
  base : Fin n → SocketBase
  socket : Nat → AmiSocket n
  handoffs : List Handoff
  /-- `sb_NextHandoffId`. -/
  nextHandoffId : Int

/-- `UNIQUE_ID`. -/
def uniqueId : Int := -1

/-- The first id that is made up, as `bsd_handoff_init()` sets it. -/
def firstHandoffId : Int := 0x10000

/-- `BSD_AF_INET6_23`. -/
def afInet6As23 : Int := 23

/-- `AF_INET6`. -/
def afInet6 : Int := 28

/-- `BSD_AF_CANON()`; `ipv6` is `AMINETXDUO_IPV6`. -/
def afCanon (ipv6 : Bool) (af : Int) : Int :=
  if ipv6 ∧ af = afInet6As23 then afInet6 else af

/-- `bsd_handoff_id_is_unique()`. -/
def bsdHandoffIdIsUnique (id : Int) : Bool := decide (id < 0 ∨ id > 65535)

variable {n : Nat}

/-- A base of the state, replaced. -/
def State.setBase (st : State n) (b : Fin n) (x : SocketBase) : State n :=
  { st with base := Function.update st.base b x }

/-- A socket of the state, changed. -/
def State.modifySocket (st : State n) (s : Nat) (f : AmiSocket n → AmiSocket n) : State n :=
  { st with socket := Function.update st.socket s (f (st.socket s)) }

/-- `bsd_fail()` on one of the bases. -/
def State.fail (st : State n) (b : Fin n) (code : Int) : Int × State n :=
  (-1, st.setBase b (bsdFail (st.base b) code).2)

/-- `bsd_handoff_match()`: the first unclaimed entry of that id, family, type and protocol, with
its position in the registry. -/
def bsdHandoffMatch (ipv6 : Bool) (st : State n) (id domain type protocol : Int) :
    Option (Handoff × Nat) :=
  st.handoffs.zipIdx.find? fun e ↦
    !e.1.claimed && decide (e.1.id = id) &&
    decide (afCanon ipv6 (st.socket e.1.socket).domain.toNat = afCanon ipv6 domain) &&
    decide (((st.socket e.1.socket).type.toNat : Int) = type) &&
    (decide (protocol = 0) || decide ((st.socket e.1.socket).protocol = protocol))

/-- `bsd_handoff_find()`. -/
def bsdHandoffFind (hs : List Handoff) (id : Int) : Option Handoff :=
  hs.find? fun e ↦ decide (e.id = id)

/-- `sb_NextHandoffId` after one id was taken: the increment wraps like any `LONG`, and what has
wrapped restarts at the first id. -/
def nextIdAfter (id : Int) : Int :=
  if (id + 1).bmod (2 ^ 32) ≤ 0 then firstHandoffId else (id + 1).bmod (2 ^ 32)

/-- The number of ids between the first one and the largest `LONG`. -/
def handoffIdCount : Nat := 0x7fff0000

/-- The loop of `bsd_handoff_new_id()`, with the next id; nothing when no id was found. -/
def newIdFrom (hs : List Handoff) : Nat → Int → Option (Int × Int)
  | 0, _ => none
  | fuel + 1, next =>
    if next = uniqueId ∨ (bsdHandoffFind hs next).isSome then newIdFrom hs fuel (nextIdAfter next)
    else some (next, nextIdAfter next)

/-- `bsd_handoff_new_id()`.  Every id has been tried after `handoffIdCount` rounds; the loop of the
source does not end when all are taken. -/
def bsdHandoffNewId (st : State n) : Option (Int × Int) :=
  newIdFrom st.handoffs handoffIdCount st.nextHandoffId

/-- `sizeof(BsdHandoff)`. -/
def handoffSize : Nat := 18

/-- `ami_alloc()` of a registry entry: it can fail at any time, and fails for certain when the
address space is full of entries. -/
def allocHandoff (env : Env) (st : State n) : Bool :=
  env.allocEntry && decide (handoffSize * (st.handoffs.length + 1) ≤ 2 ^ 32)

/-- `bsd_owner_elect()`: another base that still holds the socket, one with a task if there is
one. -/
def bsdOwnerElect (st : State n) (b : Fin n) (s : Nat) : Option (Fin n) :=
  let holders := (List.finRange n).filter fun c ↦
    decide (c ≠ b) && decide (.socket s ∈ (st.base c).slots)
  (holders.find? fun c ↦ (st.base c).hasTask) <|> holders.head?

/-- `bsd_owner_set()`: the socket and those waiting to be accepted on it pass together. -/
def bsdOwnerSet (st : State n) (s : Nat) (owner : Option (Fin n)) : State n :=
  { st with
    socket := fun x ↦
      if x = s ∨ (x ∈ (st.socket s).incoming ∧ (st.socket x).parent = some s) then
        { st.socket x with owner := owner }
      else st.socket x }

/-- `bsd_owner_drop()`. -/
def bsdOwnerDrop (st : State n) (b : Fin n) (s : Nat) : State n :=
  if (st.socket s).owner ≠ some b then st
  else if .socket s ∈ (st.base b).slots then st
  else bsdOwnerSet st s (bsdOwnerElect st b s)

/-- `bh_Claimed` of the entry at a position. -/
def State.setClaimed (st : State n) (i : Nat) (v : Bool) : State n :=
  { st with handoffs := st.handoffs.modify i fun e ↦ { e with claimed := v } }

/-- `Remove()` of the entry at a position. -/
def State.removeHandoff (st : State n) (i : Nat) : State n :=
  { st with handoffs := st.handoffs.eraseIdx i }

/-- `AddTail()` of a new entry. -/
def State.addHandoff (st : State n) (e : Handoff) : State n :=
  { st with handoffs := st.handoffs ++ [e] }

/-- `bsd_handoff_park()` once the id is known: the entry is added, claimed while the descriptor is
being given back, and removed again when that is refused. -/
def parkEntry (env : Env) (st : State n) (b : Fin n) (s : Nat) (id detachFd : Int) :
    Int × State n :=
  let added := st.addHandoff ⟨id, s, decide (0 ≤ detachFd)⟩
  if 0 ≤ detachFd then
    let freed := bsdFdFree env (st.base b) detachFd
    let after := added.setBase b freed.2
    if freed.1 ≠ 0 then (-1, after.removeHandoff st.handoffs.length)
    else (id, bsdOwnerDrop (after.setClaimed st.handoffs.length false) b s)
  else (id, added)

/-- `bsd_handoff_park()`; nothing when it does not return. -/
def bsdHandoffPark (env : Env) (st : State n) (b : Fin n) (s : Nat) (id detachFd : Int) :
    Option (Int × State n) :=
  if ¬ allocHandoff env st then some (st.fail b enomem)
  else if id = uniqueId then
    (bsdHandoffNewId st).map fun r ↦
      parkEntry env { st with nextHandoffId := r.2 } b s r.1 detachFd
  else if bsdHandoffIdIsUnique id ∧ (bsdHandoffFind st.handoffs id).isSome then
    some (st.fail b einval)
  else some (parkEntry env st b s id detachFd)

/-- `bsd_ReleaseSocket()`. -/
def bsdReleaseSocket (env : Env) (st : State n) (b : Fin n) (fd id : Int) :
    Option (Int × State n) :=
  match bsdLookup (st.base b) fd with
  | none => some (st.fail b ebadf)
  | some s => bsdHandoffPark env st b s id fd

/-- `bsd_socket_retain()`. -/
def bsdSocketRetain (st : State n) (s : Nat) : State n :=
  st.modifySocket s fun x ↦ { x with refCount := x.refCount + 1 }

/-- The reference taken by `bsd_socket_retain()`, given back. -/
def dropReference (st : State n) (s : Nat) : State n :=
  st.modifySocket s fun x ↦ { x with refCount := x.refCount - 1 }

/-- `bsd_ReleaseCopyOfSocket()`. -/
def bsdReleaseCopyOfSocket (env : Env) (st : State n) (b : Fin n) (fd id : Int) :
    Option (Int × State n) :=
  match bsdLookup (st.base b) fd with
  | none => some (st.fail b ebadf)
  | some s =>
    (bsdHandoffPark env (bsdSocketRetain st s) b s id (-1)).map fun r ↦
      if r.1 < 0 then (r.1, dropReference r.2 s) else r

/-- `bsd_af_in()`. -/
def bsdAfIn (ipv6 : Bool) (b : SocketBase) (af : Int) : Int × SocketBase :=
  if ipv6 ∧ af = afInet6As23 then (afInet6, { b with fam23 := true }) else (af, b)

/-- The end of `bsd_ObtainSocket()`: answers come in the obtainer's spelling of `AF_INET6`. -/
def setFamily (ipv6 : Bool) (st : State n) (b : Fin n) (s : Nat) (domain : Int) : State n :=
  if ipv6 ∧ (st.socket s).inet6 then
    let r := bsdAfIn ipv6 (st.base b) domain
    (st.setBase b r.2).modifySocket s fun x ↦
      { x with domain := BitVec.ofInt 16 domain, fam23 := decide (r.1 ≠ domain) }
  else st

/-- `bsd_ObtainSocket()`. -/
def bsdObtainSocket (ipv6 : Bool) (env : Env) (st : State n) (b : Fin n)
    (id domain type protocol : Int) : Int × State n :=
  match bsdHandoffMatch ipv6 st id domain type protocol with
  | none => st.fail b ebadf
  | some (e, i) =>
    let claimed := st.setClaimed i true
    let r := bsdFdAlloc env (st.base b) e.socket
    if r.1 < 0 then (-1, (claimed.setBase b r.2).setClaimed i false)
    else
      let taken := (claimed.setBase b r.2).removeHandoff i
      (r.1, setFamily ipv6 (bsdOwnerSet taken e.socket (some b)) b e.socket domain)

/-- A call of one of the bases, with what memory and the opener's callback answer it. -/
inductive HandoffCall (n : Nat) where
  | release (env : Env) (b : Fin n) (fd id : Int)
  | releaseCopy (env : Env) (b : Fin n) (fd id : Int)
  | obtain (env : Env) (b : Fin n) (id domain type protocol : Int)

/-- One call: what it returns and the state it leaves, or nothing when it does not return. -/
def handoffCall (ipv6 : Bool) (st : State n) : HandoffCall n → Option (Int × State n)
  | .release env b fd id => bsdReleaseSocket env st b fd id
  | .releaseCopy env b fd id => bsdReleaseCopyOfSocket env st b fd id
  | .obtain env b id domain type protocol =>
    some (bsdObtainSocket ipv6 env st b id domain type protocol)

/-- The state a sequence of calls leaves. -/
def handoffRun (ipv6 : Bool) (st : State n) : List (HandoffCall n) → Option (State n)
  | [] => some st
  | c :: cs => (handoffCall ipv6 st c).bind fun r ↦ handoffRun ipv6 r.2 cs

/-! ### Counting references -/

/-- The number of descriptors, in any base, that name a socket. -/
def State.descriptors (st : State n) (s : Nat) : Nat := ∑ b, (st.base b).refs s

/-- The number of registry entries that hold a socket. -/
def State.entries (st : State n) (s : Nat) : Nat := (st.handoffs.map (·.socket)).count s

/-- Every reference count is the number of descriptors and registry entries. -/
def State.RefCountsMatch (st : State n) : Prop :=
  ∀ s, (st.socket s).refCount = st.descriptors s + st.entries s

/-- The registry and the descriptor tables of two states are the same. -/
def SameHoldings (st st' : State n) : Prop :=
  st'.handoffs = st.handoffs ∧ ∀ b, SameDescriptors (st.base b) (st'.base b)

/-- The registry as `bsd_handoff_init()` leaves it, with descriptors that account for every
reference. -/
structure State.Initial (st : State n) : Prop where
  handoffs : st.handoffs = []
  nextHandoffId : st.nextHandoffId = firstHandoffId
  refCounts : ∀ s, (st.socket s).refCount = st.descriptors s

/-- What holds between two calls. -/
structure State.Inv (st : State n) : Prop where
  refCounts : st.RefCountsMatch
  unclaimed : ∀ e ∈ st.handoffs, e.claimed = false
  idLo : firstHandoffId ≤ st.nextHandoffId
  idHi : st.nextHandoffId < 2 ^ 31

theorem State.Initial.inv {st : State n} (h : st.Initial) : st.Inv where
  refCounts := by
    intro s
    simp [h.refCounts s, State.entries, h.handoffs]
  unclaimed := by simp [h.handoffs]
  idLo := h.nextHandoffId.ge
  idHi := by
    rw [h.nextHandoffId]
    decide

/-- One base changed: the descriptors it shows before and after account for the difference. -/
theorem descriptors_setBase (st : State n) (b : Fin n) (x : SocketBase) (s : Nat) :
    (st.setBase b x).descriptors s + (st.base b).refs s = st.descriptors s + x.refs s := by
  simp only [State.descriptors, State.setBase]
  rw [← Finset.add_sum_erase _ _ (Finset.mem_univ b),
    ← Finset.add_sum_erase (a := b) _ _ (Finset.mem_univ b), Function.update_self]
  have hrest : ∑ c ∈ Finset.univ.erase b, (Function.update st.base b x c).refs s =
      ∑ c ∈ Finset.univ.erase b, (st.base c).refs s :=
    Finset.sum_congr rfl fun c hc ↦ by rw [Function.update_of_ne (Finset.ne_of_mem_erase hc)]
  omega

theorem sameDescriptors_setBase {st : State n} {b : Fin n} {x : SocketBase}
    (h : SameDescriptors (st.base b) x) (c : Fin n) :
    SameDescriptors (st.base c) ((st.setBase b x).base c) := by
  rcases eq_or_ne c b with rfl | hc
  · simpa [State.setBase] using h
  · simpa [State.setBase, Function.update_of_ne hc] using SameDescriptors.refl _

theorem refs_setBase {st : State n} {b : Fin n} {x : SocketBase}
    (h : ∀ s, x.refs s = (st.base b).refs s) (c : Fin n) (s : Nat) :
    ((st.setBase b x).base c).refs s = (st.base c).refs s := by
  rcases eq_or_ne c b with rfl | hc
  · simp [State.setBase, h]
  · simp [State.setBase, Function.update_of_ne hc]

/-! ### The search for an unused id -/

theorem nextIdAfter_eq {id : Int} (hlo : firstHandoffId ≤ id) (hhi : id < 2 ^ 31) :
    nextIdAfter id = if id + 1 = 2 ^ 31 then firstHandoffId else id + 1 := by
  simp only [nextIdAfter, firstHandoffId, Int.bmod] at hlo ⊢
  split_ifs <;> omega

theorem nextIdAfter_range {id : Int} (hlo : firstHandoffId ≤ id) (hhi : id < 2 ^ 31) :
    firstHandoffId ≤ nextIdAfter id ∧ nextIdAfter id < 2 ^ 31 := by
  rw [nextIdAfter_eq hlo hhi]
  simp only [firstHandoffId] at hlo ⊢
  split_ifs <;> omega

/-- The id that is tried in round `j`, counted from `id`. -/
def idAtRound (id : Int) (j : Nat) : Int :=
  firstHandoffId + (id - firstHandoffId + j) % handoffIdCount

theorem idAtRound_zero {id : Int} (hlo : firstHandoffId ≤ id) (hhi : id < 2 ^ 31) :
    idAtRound id 0 = id := by
  simp only [idAtRound, firstHandoffId, handoffIdCount] at hlo ⊢
  omega

theorem idAtRound_nextIdAfter {id : Int} (hlo : firstHandoffId ≤ id) (hhi : id < 2 ^ 31) (j : Nat) :
    idAtRound (nextIdAfter id) j = idAtRound id (j + 1) := by
  rw [nextIdAfter_eq hlo hhi]
  simp only [idAtRound, firstHandoffId, handoffIdCount] at hlo ⊢
  split_ifs <;> omega

theorem idAtRound_injOn {id : Int} {i j : Nat} (hi : i < handoffIdCount) (hj : j < handoffIdCount)
    (h : idAtRound id i = idAtRound id j) : i = j := by
  simp only [idAtRound, firstHandoffId, handoffIdCount] at hi hj h
  omega

/-- Rounds that found no unused id have each met an id of the registry. -/
theorem mem_ids_of_newIdFrom_eq_none {hs : List Handoff} {fuel : Nat} {id : Int}
    (hlo : firstHandoffId ≤ id) (hhi : id < 2 ^ 31) (h : newIdFrom hs fuel id = none) {j : Nat}
    (hj : j < fuel) : idAtRound id j ∈ hs.map (·.id) := by
  induction fuel generalizing id j with
  | zero => omega
  | succ fuel ih =>
    have hne : id ≠ uniqueId := by
      simp only [firstHandoffId, uniqueId] at hlo ⊢
      omega
    simp only [newIdFrom, hne, false_or] at h
    split_ifs at h with hfound
    obtain ⟨hlo', hhi'⟩ := nextIdAfter_range hlo hhi
    rcases j with _ | j
    · rw [idAtRound_zero hlo hhi]
      obtain ⟨e, he⟩ := Option.isSome_iff_exists.mp hfound
      have hid := List.find?_some he
      exact List.mem_map.mpr ⟨e, List.mem_of_find?_eq_some he, by simpa using hid⟩
    · rw [← idAtRound_nextIdAfter hlo hhi]
      exact ih hlo' hhi' h (by omega)

/-- A round that ends the search gives an id of the range. -/
theorem newIdFrom_range {hs : List Handoff} {fuel : Nat} {id : Int} {r : Int × Int}
    (hlo : firstHandoffId ≤ id) (hhi : id < 2 ^ 31) (h : newIdFrom hs fuel id = some r) :
    firstHandoffId ≤ r.1 ∧ firstHandoffId ≤ r.2 ∧ r.2 < 2 ^ 31 := by
  induction fuel generalizing id with
  | zero => simp [newIdFrom] at h
  | succ fuel ih =>
    obtain ⟨hlo', hhi'⟩ := nextIdAfter_range hlo hhi
    simp only [newIdFrom] at h
    split_ifs at h with hfound
    · exact ih hlo' hhi' h
    · obtain rfl := Option.some.inj h
      exact ⟨hlo, hlo', hhi'⟩

/-- **The search ends.** A registry that fits the address space leaves an id unused. -/
theorem exists_bsdHandoffNewId {st : State n} (hlo : firstHandoffId ≤ st.nextHandoffId)
    (hhi : st.nextHandoffId < 2 ^ 31) (hroom : handoffSize * (st.handoffs.length + 1) ≤ 2 ^ 32) :
    ∃ r, bsdHandoffNewId st = some r ∧ firstHandoffId ≤ r.1 ∧ firstHandoffId ≤ r.2 ∧
      r.2 < 2 ^ 31 := by
  rcases h : bsdHandoffNewId st with _ | r
  · -- as many distinct ids as there are rounds would be in the registry
    let tried := (List.range handoffIdCount).map (idAtRound st.nextHandoffId)
    have hnodup : tried.Nodup :=
      (List.nodup_map_iff_inj_on List.nodup_range).mpr fun i hi j hj hij ↦
        idAtRound_injOn (List.mem_range.mp hi) (List.mem_range.mp hj) hij
    have hsub : tried ⊆ st.handoffs.map (·.id) := by
      intro x hx
      obtain ⟨j, hj, rfl⟩ := List.mem_map.mp hx
      exact mem_ids_of_newIdFrom_eq_none hlo hhi h (List.mem_range.mp hj)
    have hlen := (hnodup.subperm hsub).length_le
    simp only [tried, List.length_map, List.length_range] at hlen
    simp only [handoffIdCount, handoffSize] at hlen hroom
    omega
  · exact ⟨r, rfl, newIdFrom_range hlo hhi h⟩

/-! ### What does not move a reference -/

/-- A change that moves no reference and takes no id. -/
structure SameAccount (st st' : State n) : Prop where
  handoffs : st'.handoffs = st.handoffs
  refs : ∀ b s, (st'.base b).refs s = (st.base b).refs s
  refCount : ∀ s, (st'.socket s).refCount = (st.socket s).refCount
  nextHandoffId : st'.nextHandoffId = st.nextHandoffId

theorem SameAccount.refl (st : State n) : SameAccount st st :=
  ⟨rfl, fun _ _ ↦ rfl, fun _ ↦ rfl, rfl⟩

theorem SameAccount.trans {a b c : State n} (h : SameAccount a b) (h' : SameAccount b c) :
    SameAccount a c where
  handoffs := h'.handoffs.trans h.handoffs
  refs i s := (h'.refs i s).trans (h.refs i s)
  refCount s := (h'.refCount s).trans (h.refCount s)
  nextHandoffId := h'.nextHandoffId.trans h.nextHandoffId

theorem SameAccount.inv {st st' : State n} (h : SameAccount st st') (hinv : st.Inv) :
    st'.Inv where
  refCounts := by
    intro s
    have hdescriptors : st'.descriptors s = st.descriptors s :=
      Finset.sum_congr rfl fun b _ ↦ h.refs b s
    rw [h.refCount, hdescriptors, State.entries, h.handoffs]
    exact hinv.refCounts s
  unclaimed := by
    rw [h.handoffs]
    exact hinv.unclaimed
  idLo := h.nextHandoffId ▸ hinv.idLo
  idHi := h.nextHandoffId ▸ hinv.idHi

/-- The registry and the tables as they were, and every reference count. -/
theorem SameHoldings.account {st st' : State n} (h : SameHoldings st st')
    (hcount : ∀ s, (st'.socket s).refCount = (st.socket s).refCount)
    (hid : st'.nextHandoffId = st.nextHandoffId) : SameAccount st st' :=
  ⟨h.1, fun b ↦ (h.2 b).2, hcount, hid⟩

theorem sameHoldings_setBase {st : State n} {b : Fin n} {x : SocketBase}
    (h : SameDescriptors (st.base b) x) : SameHoldings st (st.setBase b x) :=
  ⟨rfl, sameDescriptors_setBase h⟩

theorem sameHoldings_fail (st : State n) (b : Fin n) (code : Int) :
    SameHoldings st (st.fail b code).2 :=
  sameHoldings_setBase (sameDescriptors_bsdFail _ _)

theorem sameAccount_fail (st : State n) (b : Fin n) (code : Int) :
    SameAccount st (st.fail b code).2 :=
  (sameHoldings_fail st b code).account (fun _ ↦ rfl) rfl

theorem sameAccount_bsdOwnerSet (st : State n) (s : Nat) (owner : Option (Fin n)) :
    SameAccount st (bsdOwnerSet st s owner) := by
  refine ⟨rfl, fun _ _ ↦ rfl, fun x ↦ ?_, rfl⟩
  simp only [bsdOwnerSet]
  split_ifs <;> rfl

theorem sameAccount_bsdOwnerDrop (st : State n) (b : Fin n) (s : Nat) :
    SameAccount st (bsdOwnerDrop st b s) := by
  simp only [bsdOwnerDrop]
  split_ifs
  · exact .refl st
  · exact .refl st
  · exact sameAccount_bsdOwnerSet _ _ _

theorem sameAccount_modifySocket (st : State n) (s : Nat) {f : AmiSocket n → AmiSocket n}
    (h : ∀ x, (f x).refCount = x.refCount) : SameAccount st (st.modifySocket s f) := by
  refine ⟨rfl, fun _ _ ↦ rfl, fun x ↦ ?_, rfl⟩
  rcases eq_or_ne x s with rfl | hx
  · simp [State.modifySocket, h]
  · simp [State.modifySocket, hx]

theorem sameAccount_setFamily (ipv6 : Bool) (st : State n) (b : Fin n) (s : Nat) (domain : Int) :
    SameAccount st (setFamily ipv6 st b s domain) := by
  simp only [setFamily]
  split_ifs
  · have hslots : (bsdAfIn ipv6 (st.base b) domain).2.slots = (st.base b).slots := by
      simp only [bsdAfIn]
      split_ifs <;> rfl
    have hbase := sameHoldings_setBase (sameDescriptors_of_slots hslots)
    exact (hbase.account (fun _ ↦ rfl) rfl).trans (sameAccount_modifySocket _ _ fun _ ↦ rfl)
  · exact .refl st

/-! ### Entries of the registry -/

theorem entries_addHandoff (st : State n) (e : Handoff) (s : Nat) :
    (st.addHandoff e).entries s = st.entries s + if s = e.socket then 1 else 0 := by
  simp only [State.entries, State.addHandoff, List.map_append, List.count_append, List.map_cons,
    List.map_nil, List.count_singleton, beq_iff_eq, eq_comm (a := s)]

/-- The entry that was added last, removed again. -/
theorem removeHandoff_addHandoff (st : State n) (e : Handoff) :
    ((st.addHandoff e).removeHandoff st.handoffs.length).handoffs = st.handoffs := by
  simp [State.addHandoff, State.removeHandoff, List.eraseIdx_append_of_length_le]

theorem setClaimed_addHandoff (st : State n) (e : Handoff) (v : Bool) :
    (st.addHandoff e).setClaimed st.handoffs.length v =
      st.addHandoff { e with claimed := v } := by
  have hmod : (st.handoffs ++ [e]).modify st.handoffs.length
      (fun e ↦ { e with claimed := v }) = st.handoffs ++ [{ e with claimed := v }] := by
    rw [List.modify_eq_take_cons_drop (by simp)]
    simp
  simp only [State.addHandoff, State.setClaimed, hmod]

/-- An entry that is taken out of the registry counts one less. -/
theorem entries_removeHandoff {st : State n} {i : Nat} {e : Handoff}
    (h : st.handoffs[i]? = some e) (s : Nat) :
    (st.removeHandoff i).entries s + (if s = e.socket then 1 else 0) = st.entries s := by
  obtain ⟨hi, rfl⟩ := List.getElem?_eq_some_iff.mp h
  have hsplit := List.take_append_drop i st.handoffs
  rw [List.drop_eq_getElem_cons hi] at hsplit
  have hcount := congrArg (fun l ↦ (l.map (·.socket)).count s) hsplit
  simp only [List.map_append, List.map_cons, List.count_append, List.count_cons,
    beq_iff_eq] at hcount
  simp only [State.entries, State.removeHandoff, List.eraseIdx_eq_take_drop_succ,
    List.map_append, List.count_append, ← hcount, eq_comm (a := s)]
  omega

theorem entries_setClaimed (st : State n) (i : Nat) (v : Bool) (s : Nat) :
    (st.setClaimed i v).entries s = st.entries s := by
  have hmap : (st.setClaimed i v).handoffs.map (·.socket) = st.handoffs.map (·.socket) := by
    apply List.ext_getElem?
    intro j
    simp only [State.setClaimed, List.getElem?_map, List.getElem?_modify]
    rcases st.handoffs[j]? with _ | e
    · rfl
    · by_cases hij : i = j <;> simp [hij]
  simp only [State.entries, hmap]

/-- An entry that was unclaimed is claimed and given up again. -/
theorem setClaimed_setClaimed {st : State n} {i : Nat} {e : Handoff}
    (h : st.handoffs[i]? = some e) (he : e.claimed = false) :
    ((st.setClaimed i true).setClaimed i false).handoffs = st.handoffs := by
  apply List.ext_getElem?
  intro j
  simp only [State.setClaimed, List.getElem?_modify]
  by_cases hij : i = j
  · subst hij
    rw [h]
    simp [← he]
  · simp [hij]

/-! ### One call -/

/-- What a park does: it fails at once, or it adds an entry under an id, the one asked for or, for
`UNIQUE_ID`, a new one. -/
theorem bsdHandoffPark_cases (env : Env) {st : State n} (b : Fin n) (s : Nat) (id detachFd : Int)
    (hlo : firstHandoffId ≤ st.nextHandoffId) (hhi : st.nextHandoffId < 2 ^ 31) :
    (∃ code, bsdHandoffPark env st b s id detachFd = some (st.fail b code)) ∨
      ∃ id' next, (id ≠ uniqueId ∧ id' = id ∨ firstHandoffId ≤ id') ∧ firstHandoffId ≤ next ∧
        next < 2 ^ 31 ∧ bsdHandoffPark env st b s id detachFd =
          some (parkEntry env { st with nextHandoffId := next } b s id' detachFd) := by
  simp only [bsdHandoffPark]
  split_ifs with halloc hid hfound
  · obtain ⟨r, hr, hid', hlo', hhi'⟩ := exists_bsdHandoffNewId hlo hhi (by
      simp only [allocHandoff, Bool.and_eq_true, decide_eq_true_eq] at halloc
      exact halloc.2)
    exact .inr ⟨r.1, r.2, .inr hid', hlo', hhi', by rw [hr, Option.map_some]⟩
  · exact .inl ⟨einval, rfl⟩
  · exact .inr ⟨id, st.nextHandoffId, .inl ⟨hid, rfl⟩, hlo, hhi, rfl⟩
  · exact .inl ⟨enomem, rfl⟩

/-- Taking an id touches no reference. -/
theorem State.Inv.setNextId {st : State n} (h : st.Inv) {next : Int}
    (hlo : firstHandoffId ≤ next) (hhi : next < 2 ^ 31) :
    State.Inv { st with nextHandoffId := next } :=
  ⟨h.refCounts, h.unclaimed, hlo, hhi⟩

/-- Parking with the descriptor: the reference moves from the descriptor to the entry, or the
release is refused and everything stays. -/
theorem parkEntry_release (env : Env) {st : State n} {b : Fin n} {s : Nat} (id : Int) {fd : Int}
    (h : st.Inv) (hl : bsdLookup (st.base b) fd = some s) :
    (parkEntry env st b s id fd).2.Inv ∧
      ((parkEntry env st b s id fd).1 = id ∨ SameHoldings st (parkEntry env st b s id fd).2) := by
  have hfd : 0 ≤ fd := by
    by_contra hneg
    simp [bsdLookup, bsdFdPeek, hneg, Slot.socket?] at hl
  simp only [parkEntry, hfd, if_true]
  split_ifs with hfree
  · -- the opener refused: the entry goes again
    have hsame : SameHoldings st (((st.addHandoff ⟨id, s, decide True⟩).setBase b
        (bsdFdFree env (st.base b) fd).2).removeHandoff st.handoffs.length) :=
      ⟨removeHandoff_addHandoff st _, sameDescriptors_setBase (bsdFdFree_fail hfree)⟩
    exact ⟨(hsame.account (fun _ ↦ rfl) rfl).inv h, .inr hsame⟩
  · refine ⟨(sameAccount_bsdOwnerDrop _ _ _).inv ?_, .inl rfl⟩
    have hfree' := bsdFdFree_ok hl (not_not.mp hfree)
    have hbase := descriptors_setBase st b (bsdFdFree env (st.base b) fd).2
    have hcomm : ((st.addHandoff ⟨id, s, decide True⟩).setBase b
        (bsdFdFree env (st.base b) fd).2).setClaimed st.handoffs.length false =
        (st.setBase b (bsdFdFree env (st.base b) fd).2).addHandoff ⟨id, s, false⟩ :=
      congrArg (fun st' : State n ↦ st'.setBase b (bsdFdFree env (st.base b) fd).2)
        (setClaimed_addHandoff st ⟨id, s, decide True⟩ false)
    rw [hcomm]
    refine ⟨fun x ↦ ?_, ?_, h.idLo, h.idHi⟩
    · rw [entries_addHandoff]
      have hx := h.refCounts x
      have hdx := hbase x
      have hfx := hfree' x
      have hent : (st.setBase b (bsdFdFree env (st.base b) fd).2).entries x = st.entries x := rfl
      rw [hent]
      change (st.socket x).refCount =
        (st.setBase b _).descriptors x + (st.entries x + if x = s then 1 else 0)
      omega
    · intro e he
      rcases List.mem_append.mp he with he | he
      · exact h.unclaimed e he
      · rw [List.mem_singleton.mp he]

/-- **`ReleaseSocket()`.** -/
theorem bsdReleaseSocket_inv (env : Env) {st : State n} (b : Fin n) (fd : Int) {id : Int}
    (h : st.Inv) (hid : 0 ≤ id ∨ id = uniqueId) :
    ∃ r, bsdReleaseSocket env st b fd id = some r ∧ r.2.Inv ∧
      (r.1 < 0 → SameHoldings st r.2) := by
  simp only [bsdReleaseSocket]
  rcases hl : bsdLookup (st.base b) fd with _ | s
  · exact ⟨_, rfl, (sameAccount_fail ..).inv h, fun _ ↦ sameHoldings_fail ..⟩
  · rcases bsdHandoffPark_cases env b s id fd h.idLo h.idHi with
      ⟨code, hr⟩ | ⟨id', next, hid', hlo, hhi, hr⟩
    · exact ⟨_, hr, (sameAccount_fail ..).inv h, fun _ ↦ sameHoldings_fail ..⟩
    · obtain ⟨hinv, hres⟩ := parkEntry_release env id' (h.setNextId hlo hhi) hl
      refine ⟨_, hr, hinv, fun hneg ↦ hres.resolve_left fun hres ↦ ?_⟩
      rw [hres] at hneg
      simp only [firstHandoffId, uniqueId] at hid hid'
      omega

@[simp] theorem refCount_modifySocket (st : State n) (s x : Nat) (f : AmiSocket n → AmiSocket n) :
    ((st.modifySocket s f).socket x).refCount =
      if x = s then (f (st.socket s)).refCount else (st.socket x).refCount := by
  rcases eq_or_ne x s with rfl | hx
  · simp [State.modifySocket]
  · simp [State.modifySocket, hx]

/-- A reference taken and given back. -/
theorem sameAccount_dropReference_fail (st : State n) (b : Fin n) (s : Nat) (code : Int) :
    SameAccount st (dropReference ((bsdSocketRetain st s).fail b code).2 s) := by
  have hholdings : SameHoldings st (dropReference ((bsdSocketRetain st s).fail b code).2 s) :=
    sameHoldings_fail (bsdSocketRetain st s) b code
  refine hholdings.account (fun x ↦ ?_) rfl
  have hx := (sameAccount_fail (bsdSocketRetain st s) b code).refCount
  simp only [dropReference, refCount_modifySocket, hx]
  simp only [bsdSocketRetain, refCount_modifySocket]
  split_ifs with hxs
  · simp [hxs]
  · rfl

/-- **`ReleaseCopyOfSocket()`.** -/
theorem bsdReleaseCopyOfSocket_inv (env : Env) {st : State n} (b : Fin n) (fd : Int) {id : Int}
    (h : st.Inv) (hid : 0 ≤ id ∨ id = uniqueId) :
    ∃ r, bsdReleaseCopyOfSocket env st b fd id = some r ∧ r.2.Inv ∧
      (r.1 < 0 → SameHoldings st r.2) := by
  rcases hl : bsdLookup (st.base b) fd with _ | s
  · refine ⟨st.fail b ebadf, by simp only [bsdReleaseCopyOfSocket, hl], ?_⟩
    exact ⟨(sameAccount_fail ..).inv h, fun _ ↦ sameHoldings_fail ..⟩
  · have hlo : firstHandoffId ≤ (bsdSocketRetain st s).nextHandoffId := h.idLo
    rcases bsdHandoffPark_cases env b s id (-1) hlo h.idHi with
      ⟨code, hr⟩ | ⟨id', next, hid', hlo, hhi, hr⟩
    · have hsame := sameAccount_dropReference_fail st b s code
      refine ⟨(-1, dropReference ((bsdSocketRetain st s).fail b code).2 s), ?_, hsame.inv h,
        fun _ ↦ sameHoldings_fail (bsdSocketRetain st s) b code⟩
      simp only [bsdReleaseCopyOfSocket, hl, hr, Option.map_some]
      rfl
    · have hpos : ¬ id' < 0 := by
        simp only [firstHandoffId, uniqueId] at hid hid'
        omega
      -- without a descriptor to give back, the entry is simply added
      refine ⟨(id', State.addHandoff { bsdSocketRetain st s with nextHandoffId := next }
        ⟨id', s, false⟩), ?_, ?_, fun hneg ↦ absurd hneg hpos⟩
      · simp only [bsdReleaseCopyOfSocket, hl, hr, Option.map_some]
        exact congrArg some (if_neg hpos)
      refine ⟨fun x ↦ ?_, fun e he ↦ ?_, hlo, hhi⟩
      · rw [entries_addHandoff]
        change ((bsdSocketRetain st s).socket x).refCount =
          st.descriptors x + (st.entries x + if x = s then 1 else 0)
        simp only [bsdSocketRetain, refCount_modifySocket]
        have hx := h.refCounts x
        split_ifs with hxs
        · rw [← hxs]
          omega
        · omega
      · rcases List.mem_append.mp he with he | he
        · exact h.unclaimed e he
        · rw [List.mem_singleton.mp he]

/-- What a match has found. -/
theorem bsdHandoffMatch_some {ipv6 : Bool} {st : State n} {id domain type protocol : Int}
    {e : Handoff} {i : Nat} (h : bsdHandoffMatch ipv6 st id domain type protocol = some (e, i)) :
    st.handoffs[i]? = some e ∧ e.claimed = false := by
  have hp := List.find?_some h
  simp only [Bool.and_eq_true, Bool.not_eq_true'] at hp
  exact ⟨List.mem_zipIdx_iff_getElem?.mp (List.mem_of_find?_eq_some h), hp.1.1.1.1⟩

/-- The slots that a call of `ObtainSocket()` may ask the opener's callback about are refused by
`FDCB_CHECK` only when it gets one. -/
def ObtainRefusesNone (ipv6 : Bool) (env : Env) (st : State n) (b : Fin n)
    (id domain type protocol : Int) : Prop :=
  (bsdHandoffMatch ipv6 st id domain type protocol).isSome →
    ∀ b', bsdTableEnsure env (st.base b) = some b' → env.RefusesNone b'.slots

/-- **`ObtainSocket()`.** -/
theorem bsdObtainSocket_inv (ipv6 : Bool) (env : Env) {st : State n} (b : Fin n)
    (id domain type protocol : Int) (h : st.Inv) :
    (bsdObtainSocket ipv6 env st b id domain type protocol).2.Inv ∧
      ((bsdObtainSocket ipv6 env st b id domain type protocol).1 < 0 →
        ObtainRefusesNone ipv6 env st b id domain type protocol →
        SameHoldings st (bsdObtainSocket ipv6 env st b id domain type protocol).2) := by
  simp only [bsdObtainSocket, ObtainRefusesNone]
  rcases hm : bsdHandoffMatch ipv6 st id domain type protocol with _ | ⟨e, i⟩
  · exact ⟨(sameAccount_fail ..).inv h, fun _ _ ↦ sameHoldings_fail ..⟩
  · obtain ⟨hi, he⟩ := bsdHandoffMatch_some hm
    have hrefs := refs_bsdFdAlloc env (st.base b) e.socket
    dsimp only
    split_ifs with hneg
    · have hclaims := setClaimed_setClaimed hi he
      have hsame : SameAccount st (((st.setClaimed i true).setBase b
          (bsdFdAlloc env (st.base b) e.socket).2).setClaimed i false) := by
        refine ⟨hclaims, @refs_setBase _ st _ _ fun x ↦ ?_, fun _ ↦ rfl, rfl⟩
        rw [hrefs, if_neg (by omega), Nat.add_zero]
      exact ⟨hsame.inv h, fun _ hchecks ↦
        ⟨hclaims, sameDescriptors_setBase (bsdFdAlloc_fail hneg (hchecks rfl))⟩⟩
    · refine ⟨?_, fun hneg' ↦ absurd hneg' hneg⟩
      refine (sameAccount_setFamily ..).inv ((sameAccount_bsdOwnerSet ..).inv ?_)
      refine ⟨fun x ↦ ?_, ?_, h.idLo, h.idHi⟩
      · have hx := h.refCounts x
        have hrefs' := hrefs x
        have hbase := descriptors_setBase st b (bsdFdAlloc env (st.base b) e.socket).2 x
        have hrem := @entries_removeHandoff _ (st.setClaimed i true) i
          { e with claimed := true } (by simp [State.setClaimed, hi]) x
        rw [entries_setClaimed] at hrem
        change (st.socket x).refCount = (st.setBase b _).descriptors x +
          ((st.setClaimed i true).removeHandoff i).entries x
        simp only [not_lt.mp hneg, true_and] at hrefs'
        dsimp only at hrem
        omega
      · intro e' he'
        have hmem : e' ∈ ((st.setClaimed i true).handoffs).eraseIdx i := he'
        obtain ⟨j, hji, hj⟩ := List.mem_eraseIdx_iff_getElem?.mp hmem
        rw [State.setClaimed, List.getElem?_modify_ne _ _ (Ne.symm hji)] at hj
        exact h.unclaimed e' (List.mem_of_getElem? hj)

/-! ### Sequences of calls -/

/-- The id a call parks under is `UNIQUE_ID` or not negative. -/
def HandoffCall.IdNonneg : HandoffCall n → Prop
  | .release _ _ _ id | .releaseCopy _ _ _ id => 0 ≤ id ∨ id = uniqueId
  | .obtain .. => True

/-- A call of `ObtainSocket()` whose slots are not refused in vain. -/
def HandoffCall.RefusesNone (ipv6 : Bool) (st : State n) : HandoffCall n → Prop
  | .obtain env b id domain type protocol =>
    ObtainRefusesNone ipv6 env st b id domain type protocol
  | _ => True

/-- **One call.** It returns and keeps the accounts; when it reports failure and no slot has been
refused, it leaves the registry and the descriptors as they were. -/
theorem handoffCall_inv (ipv6 : Bool) {st : State n} (h : st.Inv) (c : HandoffCall n)
    (hc : c.IdNonneg) :
    ∃ r, handoffCall ipv6 st c = some r ∧ r.2.Inv ∧
      (r.1 < 0 → c.RefusesNone ipv6 st → SameHoldings st r.2) := by
  rcases c with ⟨env, b, fd, id⟩ | ⟨env, b, fd, id⟩ | ⟨env, b, id, domain, type, protocol⟩
  · obtain ⟨r, hr, hinv, hfail⟩ := bsdReleaseSocket_inv env b fd h hc
    exact ⟨r, hr, hinv, fun hneg _ ↦ hfail hneg⟩
  · obtain ⟨r, hr, hinv, hfail⟩ := bsdReleaseCopyOfSocket_inv env b fd h hc
    exact ⟨r, hr, hinv, fun hneg _ ↦ hfail hneg⟩
  · exact ⟨_, rfl, bsdObtainSocket_inv ipv6 env b id domain type protocol h⟩

/-- A sequence of calls returns and keeps the accounts. -/
theorem handoffRun_inv (ipv6 : Bool) {st : State n} (h : st.Inv) (cs : List (HandoffCall n))
    (hcs : ∀ c ∈ cs, c.IdNonneg) : ∃ st', handoffRun ipv6 st cs = some st' ∧ st'.Inv := by
  induction cs generalizing st with
  | nil => exact ⟨st, rfl, h⟩
  | cons c cs ih =>
    obtain ⟨r, hr, hinv, -⟩ := handoffCall_inv ipv6 h c (hcs c (by simp))
    obtain ⟨st', hst', hinv'⟩ := ih hinv fun d hd ↦ hcs d (by simp [hd])
    exact ⟨st', by simp only [handoffRun, hr, Option.bind_some, hst'], hinv'⟩

/-- **Reference counts of sockets that are handed over.** After any sequence of calls whose ids are
`UNIQUE_ID` or not negative, every reference count is the number of descriptors and registry
entries of the socket, and a further such call that reports failure leaves the registry and every
slot of every descriptor table as they were, if the opener's callback has not refused one in
vain. -/
theorem handoffRun_refCount (ipv6 : Bool) (st : State n) (hst : st.Initial)
    (cs : List (HandoffCall n)) (hcs : ∀ c ∈ cs, c.IdNonneg) :
    ∃ st', handoffRun ipv6 st cs = some st' ∧ st'.RefCountsMatch ∧
      ∀ c : HandoffCall n, c.IdNonneg → c.RefusesNone ipv6 st' →
        ∃ r, handoffCall ipv6 st' c = some r ∧ (r.1 < 0 → SameHoldings st' r.2) := by
  obtain ⟨st', hrun, hinv⟩ := handoffRun_inv ipv6 hst.inv cs hcs
  refine ⟨st', hrun, hinv.refCounts, fun c hc hchecks ↦ ?_⟩
  obtain ⟨r, hr, -, hfail⟩ := handoffCall_inv ipv6 hinv c hc
  exact ⟨r, hr, fun hneg ↦ hfail hneg hchecks⟩

/-- One base that has one socket, open at descriptor 0. -/
def oneSocket : State 1 where
  base _ := ⟨some [.socket 0, .empty], 0, true, false⟩
  socket s := ⟨if s = 0 then 1 else 0, 2, 1, 6, false, false, some 0, none, []⟩
  handoffs := []
  nextHandoffId := firstHandoffId

/-- Memory never runs out and no callback is installed. -/
def quietEnv : Env := ⟨true, true, fun _ ↦ 0, fun _ ↦ 0, fun _ ↦ 0⟩

theorem oneSocket_initial : oneSocket.Initial where
  handoffs := rfl
  nextHandoffId := rfl
  refCounts := by
    intro s
    rcases eq_or_ne s 0 with rfl | hs
    · rfl
    · simp [oneSocket, State.descriptors, SocketBase.refs, SocketBase.slots, hs, hs.symm]

theorem handoffRun_refCount_copyAndObtain :
    ∃ st', handoffRun true oneSocket
        [.releaseCopy quietEnv 0 0 7, .release quietEnv 0 0 uniqueId, .obtain quietEnv 0 7 2 1 0] =
          some st' ∧ st'.RefCountsMatch ∧
      ∀ c : HandoffCall 1, c.IdNonneg → c.RefusesNone true st' →
        ∃ r, handoffCall true st' c = some r ∧ (r.1 < 0 → SameHoldings st' r.2) :=
  handoffRun_refCount true oneSocket oneSocket_initial _ (by
    simp [HandoffCall.IdNonneg])

/-- A negative id other than `UNIQUE_ID` is parked and returned, and then taken for a failure: the
entry stays and its reference is given back.  And a slot that `FDCB_CHECK` refuses stays reserved
when the call then fails. -/
theorem handoffRun_refCount_negativeId :
    oneSocket.Initial ∧
    (∃ st', handoffRun true oneSocket [.releaseCopy quietEnv 0 0 (-5)] =
      some st' ∧ (st'.socket 0).refCount = 1 ∧ st'.descriptors 0 = 1 ∧ st'.entries 0 = 1) ∧
    ∃ st', handoffRun true oneSocket [.releaseCopy quietEnv 0 0 7] = some st' ∧
      ∃ r, handoffCall true st' (.obtain { quietEnv with fdCheck := fun _ ↦ 1 } 0 7 2 1 0) =
        some r ∧ r.1 = -1 ∧ bsdFdPeek (st'.base 0) 1 = .empty ∧
          bsdFdPeek (r.2.base 0) 1 = .reserved :=
  ⟨oneSocket_initial, ⟨_, rfl, rfl, rfl, rfl⟩, _, rfl, _, rfl, rfl, rfl, rfl⟩

end AmiNetXDuo.BsdSocket
