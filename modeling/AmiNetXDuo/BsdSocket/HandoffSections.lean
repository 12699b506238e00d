import AmiNetXDuo.BsdSocket.Handoff
import AmiNetXDuo.Lib.Interleaving

/-!
# The registry sections of a hand-over

The calls of `handoff.c` hold the lock of the master base only while they look at the registry.
Between the two sections of `ReleaseSocket()` the opener's callback frees the descriptor, and
between those of `ObtainSocket()` one is allocated; calls of other tasks may come in between.  The
entry such a call works on is claimed meanwhile.

An entry is told from others by a number of its own, its node.

## Main definitions

* `HandoffTask` : where the call of a task is.
* `HandoffSys`, `HandoffEvent`, `handoffExec` : the registry with any number of tasks, and the
  sections of their calls.
* `RunsAlone` : the sections of one call, without another task in between.

## Main results

* `handoffSections_inv` : what every section preserves.
* `handoffSections_unique` : unique ids, new ids and who obtains a parked socket, in every
  interleaving.
* `refines_release`, `refines_releaseCopy`, `refines_obtain` : the sections of a call, one after
  the other, are the call.
* `handoffSections_refine` : in every state that is reached, the sections of a call are the call.
-/

namespace AmiNetXDuo.BsdSocket

open Interleaving

/-! ### The sections -/

/-- Where the call of a task is, with the base, the socket and the node it works on. -/
inductive HandoffTask (n : Nat) where
  | idle
  /-- In `bsd_handoff_park()`, the entry is added and the descriptor is to be freed. -/
  | releasing (b : Fin n) (s node : Nat) (fd : Int)
  /-- `bsd_fd_free()` has answered. -/
  | released (b : Fin n) (s node : Nat) (freed : Bool)
  /-- In `bsd_ObtainSocket()`, the entry is claimed and a descriptor is to be allocated. -/
  | obtaining (b : Fin n) (s node : Nat) (domain : Int)
  /-- `bsd_fd_alloc()` has answered. -/
  | allocated (b : Fin n) (s node : Nat) (domain fd : Int)
  deriving DecidableEq, Repr

/-- The node that a call works on. -/
def HandoffTask.node? {n : Nat} : HandoffTask n → Option Nat
  | .idle => none
  | .releasing _ _ a _ | .released _ _ a _ | .obtaining _ _ a _ | .allocated _ _ a _ _ => some a

/-- The library with its registry and `m` tasks. -/
structure HandoffSys (n m : Nat) where
  st : State n
  /-- The nodes of the registry entries, in their order. -/
  nodes : List Nat
  /-- The node of the entry that is allocated next. -/
  nextNode : Nat
  task : Fin m → HandoffTask n
  /-- The nodes whose socket a call of `ObtainSocket()` has returned, one for each such call. -/
  obtained : List Nat

variable {n m : Nat}

/-- `bsd_handoff_park()` up to `AddTail()`: the id and the next one, or an error; nothing when the
search for an id does not end. -/
def bsdHandoffReserve (env : Env) (st : State n) (id : Int) : Option (Except Int (Int × State n)) :=
  if ¬ allocHandoff env st then some (.error enomem)
  else if id = uniqueId then
    (bsdHandoffNewId st).map fun r ↦ .ok (r.1, { st with nextHandoffId := r.2 })
  else if bsdHandoffIdIsUnique id ∧ (bsdHandoffFind st.handoffs id).isSome then
    some (.error einval)
  else some (.ok (id, st))

/-- The sections of the calls, and what a call does between them. -/
inductive HandoffEvent (n m : Nat) where
  /-- `ReleaseSocket()` up to the end of its first section. -/
  | release (t : Fin m) (env : Env) (b : Fin n) (fd id : Int)
  /-- `bsd_fd_free()`. -/
  | fdFree (t : Fin m) (env : Env)
  /-- The second section of `bsd_handoff_park()`. -/
  | endRelease (t : Fin m)
  /-- `ReleaseCopyOfSocket()`, which has one section. -/
  | releaseCopy (t : Fin m) (env : Env) (b : Fin n) (fd id : Int)
  /-- The first section of `ObtainSocket()`. -/
  | obtain (t : Fin m) (b : Fin n) (id domain type protocol : Int)
  /-- `bsd_fd_alloc()`. -/
  | fdAlloc (t : Fin m) (env : Env)
  /-- The second section of `ObtainSocket()`. -/
  | endObtain (t : Fin m)
  /-- `bsd_handoff_take()`, when the last opener closes and no call is under way. -/
  | take

/-- The first section of a call that a task makes. -/
def HandoffCall.first (t : Fin m) : HandoffCall n → HandoffEvent n m
  | .release env b fd id => .release t env b fd id
  | .releaseCopy env b fd id => .releaseCopy t env b fd id
  | .obtain _ b id domain type protocol => .obtain t b id domain type protocol

/-- What follows it, unless the call has ended there. -/
def HandoffCall.rest (t : Fin m) : HandoffCall n → List (HandoffEvent n m)
  | .release env _ _ _ => [.fdFree t env, .endRelease t]
  | .releaseCopy .. => []
  | .obtain env .. => [.fdAlloc t env, .endObtain t]

/-- The state with another place of one task. -/
def HandoffSys.setTask (sys : HandoffSys n m) (t : Fin m) (x : HandoffTask n) : HandoffSys n m :=
  { sys with task := Function.update sys.task t x }

/-- A new entry at the end of the registry. -/
def HandoffSys.addNode (sys : HandoffSys n m) (st : State n) (e : Handoff) : HandoffSys n m :=
  { sys with
    st := st.addHandoff e
    nodes := sys.nodes ++ [sys.nextNode]
    nextNode := sys.nextNode + 1 }

/-- The entry at a node removed. -/
def HandoffSys.removeNode (sys : HandoffSys n m) (node : Nat) : HandoffSys n m :=
  { sys with
    st := sys.st.removeHandoff (sys.nodes.idxOf node)
    nodes := sys.nodes.eraseIdx (sys.nodes.idxOf node) }

/-- `bh_Claimed` of the entry at a node. -/
def HandoffSys.setClaimed (sys : HandoffSys n m) (node : Nat) (v : Bool) : HandoffSys n m :=
  { sys with st := sys.st.setClaimed (sys.nodes.idxOf node) v }

/-- The state of the library changed, outside the registry. -/
def HandoffSys.setSt (sys : HandoffSys n m) (st : State n) : HandoffSys n m := { sys with st := st }

/-- One section, or what a call does between two of them. -/
def handoffExec (ipv6 : Bool) (sys : HandoffSys n m) : HandoffEvent n m → Option (HandoffSys n m)
  | .release t env b fd id =>
    if sys.task t ≠ .idle then none
    else
      match bsdLookup (sys.st.base b) fd with
      | none => some (sys.setSt (sys.st.fail b ebadf).2)
      | some s =>
        (bsdHandoffReserve env sys.st id).map fun
          | .error code => sys.setSt (sys.st.fail b code).2
          | .ok (id', st) =>
            (sys.addNode st ⟨id', s, decide (0 ≤ fd)⟩).setTask t (.releasing b s sys.nextNode fd)
  | .fdFree t env =>
    match sys.task t with
    | .releasing b s a fd =>
      let r := bsdFdFree env (sys.st.base b) fd
      some ((sys.setSt (sys.st.setBase b r.2)).setTask t (.released b s a (decide (r.1 = 0))))
    | _ => none
  | .endRelease t =>
    match sys.task t with
    | .released b s a freed =>
      if freed then
        let sys := sys.setClaimed a false
        some ((sys.setSt (bsdOwnerDrop sys.st b s)).setTask t .idle)
      else some ((sys.removeNode a).setTask t .idle)
    | _ => none
  | .releaseCopy t env b fd id =>
    if sys.task t ≠ .idle then none
    else
      match bsdLookup (sys.st.base b) fd with
      | none => some (sys.setSt (sys.st.fail b ebadf).2)
      | some s =>
        (bsdHandoffReserve env (bsdSocketRetain sys.st s) id).map fun
          | .error code =>
            sys.setSt (dropReference ((bsdSocketRetain sys.st s).fail b code).2 s)
          | .ok (id', st) =>
            let sys := sys.addNode st ⟨id', s, false⟩
            if id' < 0 then sys.setSt (dropReference sys.st s) else sys
  | .obtain t b id domain type protocol =>
    if sys.task t ≠ .idle then none
    else
      match bsdHandoffMatch ipv6 sys.st id domain type protocol with
      | none => some (sys.setSt (sys.st.fail b ebadf).2)
      | some (e, i) =>
        let node := sys.nodes.getD i sys.nextNode
        some ((sys.setClaimed node true).setTask t (.obtaining b e.socket node domain))
  | .fdAlloc t env =>
    match sys.task t with
    | .obtaining b s a domain =>
      let r := bsdFdAlloc env (sys.st.base b) s
      some ((sys.setSt (sys.st.setBase b r.2)).setTask t (.allocated b s a domain r.1))
    | _ => none
  | .endObtain t =>
    match sys.task t with
    | .allocated b s a domain fd =>
      if fd < 0 then some ((sys.setClaimed a false).setTask t .idle)
      else
        let taken := sys.removeNode a
        some ({ taken.setSt (setFamily ipv6 (bsdOwnerSet taken.st s (some b)) b s domain) with
          obtained := a :: sys.obtained }.setTask t .idle)
    | _ => none
  | .take =>
    if ∀ t, sys.task t = .idle then
      some { sys with st := { sys.st with handoffs := [] }, nodes := [] }
    else none

/-! ### The sections of one call -/

/-- The sections of a call of task `t`, its first one and those that follow it, run without another
task in between, end the call in `sys'`. -/
def RunsAlone (ipv6 : Bool) (sys : HandoffSys n m) (t : Fin m) (call : HandoffCall n)
    (sys' : HandoffSys n m) : Prop :=
  (run (handoffExec ipv6) sys [call.first t] = some sys' ∨
    run (handoffExec ipv6) sys (call.first t :: call.rest t) = some sys') ∧
  sys'.task t = .idle

@[simp] theorem task_setTask (sys : HandoffSys n m) (t u : Fin m) (x : HandoffTask n) :
    (sys.setTask t x).task u = if u = t then x else sys.task u := by
  simp [HandoffSys.setTask, Function.update_apply]

theorem bsdHandoffPark_eq (env : Env) (st : State n) (b : Fin n) (s : Nat) (id fd : Int) :
    bsdHandoffPark env st b s id fd = (bsdHandoffReserve env st id).map fun
      | .error code => st.fail b code
      | .ok (id', st') => parkEntry env st' b s id' fd := by
  simp only [bsdHandoffPark, bsdHandoffReserve]
  split_ifs
  · rw [Option.map_map]
    rfl
  · rfl
  · rfl
  · rfl

theorem nonneg_of_bsdLookup {b : SocketBase} {fd : Int} {s : Nat} (h : bsdLookup b fd = some s) :
    0 ≤ fd := by
  by_contra hneg
  simp [bsdLookup, bsdFdPeek, hneg, Slot.socket?] at h

/-! ### What every section preserves -/

/-- The ids of the registry. -/
def State.ids (st : State n) : List Int := st.handoffs.map (·.id)

/-- The entry at a node is in the registry, and claimed. -/
def HandoffSys.ClaimedAt (sys : HandoffSys n m) (a : Nat) : Prop :=
  ∃ (i : Nat) (e : Handoff), sys.nodes[i]? = some a ∧ sys.st.handoffs[i]? = some e ∧
    e.claimed = true

/-- What holds between any two sections. -/
structure HandoffSys.Inv (sys : HandoffSys n m) : Prop where
  length : sys.nodes.length = sys.st.handoffs.length
  nodup : sys.nodes.Nodup
  fresh : ∀ a ∈ sys.nodes, a < sys.nextNode
  idLo : firstHandoffId ≤ sys.st.nextHandoffId
  idHi : sys.st.nextHandoffId < 2 ^ 31
  ids : sys.st.ids.Pairwise fun i j ↦ bsdHandoffIdIsUnique i = true → i ≠ j
  /-- A call that is under way has its entry claimed, -/
  claimed : ∀ t a, (sys.task t).node? = some a → sys.ClaimedAt a
  /-- and nobody else works on it. -/
  apart : ∀ t u a, (sys.task t).node? = some a → (sys.task u).node? = some a → t = u
  obtainedNodup : sys.obtained.Nodup
  obtainedGone : ∀ a ∈ sys.obtained, a < sys.nextNode ∧ a ∉ sys.nodes

/-- The library before its first call. -/
structure HandoffSys.Initial (sys : HandoffSys n m) : Prop where
  handoffs : sys.st.handoffs = []
  nextHandoffId : sys.st.nextHandoffId = firstHandoffId
  nodes : sys.nodes = []
  task : ∀ t, sys.task t = .idle
  obtained : sys.obtained = []

theorem HandoffSys.Initial.inv {sys : HandoffSys n m} (h : sys.Initial) : sys.Inv where
  length := by simp [h.nodes, h.handoffs]
  nodup := by simp [h.nodes]
  fresh := by simp [h.nodes]
  idLo := h.nextHandoffId.ge
  idHi := by
    rw [h.nextHandoffId]
    decide
  ids := by simp [State.ids, h.handoffs]
  claimed := by simp [h.task, HandoffTask.node?]
  apart := by simp [h.task, HandoffTask.node?]
  obtainedNodup := by simp [h.obtained]
  obtainedGone := by simp [h.obtained]

section Steps

variable {sys : HandoffSys n m} {t : Fin m} {a : Nat}

theorem HandoffSys.ClaimedAt.mem (h : sys.ClaimedAt a) : a ∈ sys.nodes := by
  obtain ⟨i, e, hi, -, -⟩ := h
  exact List.mem_of_getElem? hi

/-- A change outside the registry. -/
theorem HandoffSys.Inv.setSt (h : sys.Inv) {st : State n} (hs : st.handoffs = sys.st.handoffs)
    (hid : st.nextHandoffId = sys.st.nextHandoffId) : (sys.setSt st).Inv := by
  refine { h with length := ?_, idLo := ?_, idHi := ?_, ids := ?_, claimed := fun u x hx ↦ ?_ }
  · simpa [HandoffSys.setSt, hs] using h.length
  · simpa [HandoffSys.setSt, hid] using h.idLo
  · simpa [HandoffSys.setSt, hid] using h.idHi
  · simpa [HandoffSys.setSt, State.ids, hs] using h.ids
  · obtain ⟨i, e, hi, he, hc⟩ := h.claimed u x hx
    exact ⟨i, e, hi, hs.symm ▸ he, hc⟩

/-- A call that goes on with its entry, or ends without one. -/
theorem HandoffSys.Inv.setTask (h : sys.Inv) {x : HandoffTask n}
    (hx : x.node? = none ∨ x.node? = (sys.task t).node?) : (sys.setTask t x).Inv := by
  have hnode : ∀ u y, ((sys.setTask t x).task u).node? = some y → (sys.task u).node? = some y := by
    intro u y hy
    rw [task_setTask] at hy
    split_ifs at hy with hu
    · rcases hx with hx | hx
      · simp [hx] at hy
      · rwa [hu, ← hx]
    · exact hy
  exact { h with
    claimed := fun u y hy ↦ h.claimed u y (hnode u y hy)
    apart := fun u v y hu hv ↦ h.apart u v y (hnode u y hu) (hnode v y hv) }

/-- A call that takes up an entry nobody works on. -/
theorem HandoffSys.Inv.takeNode (h : sys.Inv) {x : HandoffTask n} (hx : x.node? = some a)
    (hc : sys.ClaimedAt a) (hfree : ∀ u, (sys.task u).node? ≠ some a) :
    (sys.setTask t x).Inv := by
  refine { h with claimed := fun u y hy ↦ ?_, apart := fun u v y hu hv ↦ ?_ }
  · rw [task_setTask] at hy
    split_ifs at hy
    · obtain rfl := Option.some.inj (hx.symm.trans hy)
      exact hc
    · exact h.claimed u y hy
  · rw [task_setTask] at hu hv
    split_ifs at hu hv with htu htv htv
    · rw [htu, htv]
    · obtain rfl := Option.some.inj (hx.symm.trans hu)
      exact absurd hv (hfree v)
    · obtain rfl := Option.some.inj (hx.symm.trans hv)
      exact absurd hu (hfree u)
    · exact h.apart u v y hu hv

/-- A new entry, under an id of its own where that has to be unique. -/
theorem HandoffSys.Inv.addNode (h : sys.Inv) {e : Handoff} {next : Int}
    (hlo : firstHandoffId ≤ next) (hhi : next < 2 ^ 31)
    (hid : bsdHandoffIdIsUnique e.id = true → e.id ∉ sys.st.ids) :
    (sys.addNode { sys.st with nextHandoffId := next } e).Inv where
  length := by simp [HandoffSys.addNode, State.addHandoff, h.length]
  nodup := by
    refine List.nodup_append.mpr ⟨h.nodup, by simp, fun x hx y hy ↦ ?_⟩
    rw [List.mem_singleton.mp hy]
    exact (h.fresh x hx).ne
  fresh x hx := by
    rcases List.mem_append.mp hx with hx | hx
    · exact (h.fresh x hx).trans (Nat.lt_succ_self _)
    · rw [List.mem_singleton.mp hx]
      exact Nat.lt_succ_self _
  idLo := hlo
  idHi := hhi
  ids := by
    have hids : (State.addHandoff { sys.st with nextHandoffId := next } e).ids =
        sys.st.ids ++ [e.id] := by simp [State.ids, State.addHandoff]
    rw [HandoffSys.addNode, hids]
    refine List.pairwise_append.mpr ⟨h.ids, List.pairwise_singleton _ _, fun i hi j hj hu ↦ ?_⟩
    rintro rfl
    obtain rfl := List.mem_singleton.mp hj
    exact hid hu hi
  claimed u x hx := by
    obtain ⟨i, f, hi, hf, hc⟩ := h.claimed u x hx
    refine ⟨i, f, ?_, ?_, hc⟩
    · exact List.getElem?_append_left (List.getElem?_eq_some_iff.mp hi).1 ▸ hi
    · exact List.getElem?_append_left (List.getElem?_eq_some_iff.mp hf).1 ▸ hf
  apart := h.apart
  obtainedNodup := h.obtainedNodup
  obtainedGone x hx := by
    obtain ⟨hlt, hnot⟩ := h.obtainedGone x hx
    refine ⟨hlt.trans (Nat.lt_succ_self _), fun hmem ↦ ?_⟩
    rcases List.mem_append.mp hmem with hmem | hmem
    · exact hnot hmem
    · exact hlt.ne (List.mem_singleton.mp hmem)

/-- The entry that was just added. -/
theorem HandoffSys.Inv.claimedAt_addNode (h : sys.Inv) {e : Handoff} (he : e.claimed = true)
    (st : State n) (hs : st.handoffs = sys.st.handoffs) :
    (sys.addNode st e).ClaimedAt sys.nextNode := by
  refine ⟨sys.nodes.length, e, ?_, ?_, he⟩
  · simp [HandoffSys.addNode]
  · simp [HandoffSys.addNode, State.addHandoff, hs, h.length]

theorem ids_setClaimed (st : State n) (i : Nat) (v : Bool) : (st.setClaimed i v).ids = st.ids := by
  apply List.ext_getElem?
  intro j
  simp only [State.ids, State.setClaimed, List.getElem?_map, List.getElem?_modify]
  rcases st.handoffs[j]? with _ | e
  · rfl
  · by_cases hij : i = j <;> simp [hij]

theorem idxOf_ne {l : List Nat} {i x : Nat} (hi : l[i]? = some x) (hne : x ≠ a) :
    l.idxOf a ≠ i := by
  rintro rfl
  obtain ⟨hlt, hget⟩ := List.getElem?_eq_some_iff.mp hi
  exact hne (hget.symm.trans (List.getElem_idxOf hlt))

/-- The entries at other nodes keep their claim. -/
theorem HandoffSys.ClaimedAt.setClaimed {x : Nat} (h : sys.ClaimedAt x) (hne : x ≠ a) (v : Bool) :
    (sys.setClaimed a v).ClaimedAt x := by
  obtain ⟨i, e, hi, he, hc⟩ := h
  refine ⟨i, e, hi, ?_, hc⟩
  have hidx := idxOf_ne hi hne
  simpa only [HandoffSys.setClaimed, State.setClaimed, List.getElem?_modify_ne _ _ hidx] using he

/-- An entry that is claimed now. -/
theorem HandoffSys.Inv.claimedAt_setClaimed (h : sys.Inv) (ha : a ∈ sys.nodes) :
    (sys.setClaimed a true).ClaimedAt a := by
  have hlt : sys.nodes.idxOf a < sys.nodes.length := List.idxOf_lt_length_iff.mpr ha
  have hlt' : sys.nodes.idxOf a < sys.st.handoffs.length := h.length ▸ hlt
  refine ⟨sys.nodes.idxOf a, { sys.st.handoffs[sys.nodes.idxOf a] with claimed := true }, ?_, ?_,
    rfl⟩
  · exact List.getElem?_eq_some_iff.mpr ⟨hlt, List.getElem_idxOf hlt⟩
  · simp [HandoffSys.setClaimed, State.setClaimed, hlt']

/-- An entry claimed or given up, where nobody works on it. -/
theorem HandoffSys.Inv.setClaimed (h : sys.Inv) (v : Bool)
    (hfree : ∀ u, (sys.task u).node? ≠ some a) : (sys.setClaimed a v).Inv := by
  refine { h with length := ?_, ids := ?_, claimed := fun u x hx ↦ ?_ }
  · simpa [HandoffSys.setClaimed, State.setClaimed] using h.length
  · simpa only [HandoffSys.setClaimed, ids_setClaimed] using h.ids
  · exact (h.claimed u x hx).setClaimed (fun hxa : x = a ↦ hfree u (hxa ▸ hx)) v

/-- The entries at other nodes stay when one is removed. -/
theorem HandoffSys.ClaimedAt.removeNode {x : Nat} (h : sys.ClaimedAt x) (hne : x ≠ a) :
    (sys.removeNode a).ClaimedAt x := by
  obtain ⟨i, e, hi, he, hc⟩ := h
  -- what stands behind the removed entry moves up by one
  rcases Nat.lt_or_gt_of_ne (idxOf_ne hi hne) with hlt | hgt
  · have hmoved {α : Type} (l : List α) : (l.eraseIdx (sys.nodes.idxOf a))[i - 1]? = l[i]? := by
      rw [List.getElem?_eraseIdx, if_neg (by omega), Nat.sub_add_cancel (by omega)]
    exact ⟨i - 1, e, (hmoved _).trans hi, (hmoved _).trans he, hc⟩
  · have hkept {α : Type} (l : List α) : (l.eraseIdx (sys.nodes.idxOf a))[i]? = l[i]? := by
      rw [List.getElem?_eraseIdx, if_pos hgt]
    exact ⟨i, e, (hkept _).trans hi, (hkept _).trans he, hc⟩

/-- An entry removed where nobody works on it any more. -/
theorem HandoffSys.Inv.removeNode (h : sys.Inv) (hfree : ∀ u, (sys.task u).node? ≠ some a) :
    (sys.removeNode a).Inv where
  length := by
    simp only [HandoffSys.removeNode, State.removeHandoff, List.length_eraseIdx, h.length]
  nodup := h.nodup.sublist (List.eraseIdx_sublist _ _)
  fresh x hx := h.fresh x (List.mem_of_mem_eraseIdx hx)
  idLo := h.idLo
  idHi := h.idHi
  ids := h.ids.sublist ((List.eraseIdx_sublist _ _).map _)
  claimed u x hx := (h.claimed u x hx).removeNode fun hxa ↦ hfree u (hxa ▸ hx)
  apart := h.apart
  obtainedNodup := h.obtainedNodup
  obtainedGone x hx := by
    obtain ⟨hlt, hnot⟩ := h.obtainedGone x hx
    exact ⟨hlt, fun hmem ↦ hnot (List.mem_of_mem_eraseIdx hmem)⟩

/-- A removed entry is not in the registry any more. -/
theorem HandoffSys.Inv.not_mem_removeNode (h : sys.Inv) : a ∉ (sys.removeNode a).nodes := by
  intro hmem
  obtain ⟨j, hne, hj⟩ := List.mem_eraseIdx_iff_getElem?.mp hmem
  obtain ⟨hlt, rfl⟩ := List.getElem?_eq_some_iff.mp hj
  exact hne (h.nodup.idxOf_getElem j hlt).symm

/-- Nobody works on the entry of a call that has ended. -/
theorem HandoffSys.Inv.free_of_end (h : sys.Inv) (ht : (sys.task t).node? = some a) (u : Fin m) :
    ((sys.setTask t .idle).task u).node? ≠ some a := by
  rw [task_setTask]
  split_ifs with hu
  · simp [HandoffTask.node?]
  · intro hua
    exact hu (h.apart u t a hua ht)

/-- An entry that is not claimed belongs to no call. -/
theorem HandoffSys.Inv.free_of_unclaimed (h : sys.Inv) {i a : Nat} {e : Handoff}
    (ha : sys.nodes[i]? = some a) (hi : sys.st.handoffs[i]? = some e)
    (hunclaimed : e.claimed = false) (u : Fin m) : (sys.task u).node? ≠ some a := by
  intro hu
  obtain ⟨j, f, hj, hf, hc⟩ := h.claimed u a hu
  obtain ⟨hj', hja⟩ := List.getElem?_eq_some_iff.mp hj
  obtain ⟨hi', hia⟩ := List.getElem?_eq_some_iff.mp ha
  obtain rfl := (h.nodup.getElem_inj_iff).mp (hja.trans hia.symm)
  rw [hi] at hf
  obtain rfl := Option.some.inj hf
  rw [hunclaimed] at hc
  cases hc

end Steps

/-! ### New ids -/

theorem bsdHandoffFind_eq_none {st : State n} {id : Int} :
    bsdHandoffFind st.handoffs id = none ↔ id ∉ st.ids := by
  simp [bsdHandoffFind, State.ids]

/-- The id that ends the search is a new one. -/
theorem newIdFrom_unused {hs : List Handoff} {fuel : Nat} {id : Int} {r : Int × Int}
    (h : newIdFrom hs fuel id = some r) : r.1 ≠ uniqueId ∧ bsdHandoffFind hs r.1 = none := by
  induction fuel generalizing id with
  | zero => simp [newIdFrom] at h
  | succ fuel ih =>
    simp only [newIdFrom] at h
    split_ifs at h with hused
    · exact ih h
    · obtain rfl := Option.some.inj h
      obtain ⟨hne, hfound⟩ := not_or.mp hused
      exact ⟨hne, Option.not_isSome_iff_eq_none.mp hfound⟩

/-- **New ids.** With memory for one more entry the generator ends, on an id above 65535 that the
registry does not have. -/
theorem HandoffSys.Inv.newId {sys : HandoffSys n m} (h : sys.Inv) {env : Env}
    (halloc : allocHandoff env sys.st = true) :
    ∃ r, bsdHandoffNewId sys.st = some r ∧ r.1 ≠ uniqueId ∧ 65535 < r.1 ∧ r.1 ∉ sys.st.ids ∧
      firstHandoffId ≤ r.2 ∧ r.2 < 2 ^ 31 := by
  simp only [allocHandoff, Bool.and_eq_true, decide_eq_true_eq] at halloc
  obtain ⟨r, hr, hid, hlo, hhi⟩ := exists_bsdHandoffNewId h.idLo h.idHi halloc.2
  obtain ⟨hne, hfound⟩ := newIdFrom_unused hr
  have hbig : 65535 < r.1 := by
    simp only [firstHandoffId] at hid
    omega
  exact ⟨r, hr, hne, hbig, bsdHandoffFind_eq_none.mp hfound, hlo, hhi⟩

/-- What the first section of a park leaves: an id to park under, or an error. -/
theorem HandoffSys.Inv.reserve {sys : HandoffSys n m} (h : sys.Inv) {env : Env} {st : State n}
    {id id' : Int} (hres : bsdHandoffReserve env sys.st id = some (.ok (id', st))) :
    ∃ next, st = { sys.st with nextHandoffId := next } ∧ firstHandoffId ≤ next ∧ next < 2 ^ 31 ∧
      (bsdHandoffIdIsUnique id' = true → id' ∉ sys.st.ids) := by
  simp only [bsdHandoffReserve] at hres
  split_ifs at hres with halloc hid hfound
  · obtain ⟨r, hr, heq⟩ := Option.map_eq_some_iff.mp hres
    obtain ⟨r', hr', -, -, hnew, hlo, hhi⟩ := h.newId halloc
    obtain rfl := Option.some.inj (hr.symm.trans hr')
    cases heq
    exact ⟨r.2, rfl, hlo, hhi, fun _ ↦ hnew⟩
  · cases hres
  · cases hres
    refine ⟨sys.st.nextHandoffId, rfl, h.idLo, h.idHi, fun hu ↦ ?_⟩
    rw [not_and, Option.not_isSome_iff_eq_none, bsdHandoffFind_eq_none] at hfound
    exact hfound hu
  · cases hres

/-- With the registry in order, an id is found or the call fails. -/
theorem HandoffSys.Inv.exists_reserve {sys : HandoffSys n m} (h : sys.Inv) (env : Env) (id : Int) :
    ∃ res, bsdHandoffReserve env sys.st id = some res := by
  simp only [bsdHandoffReserve]
  split_ifs with halloc
  · obtain ⟨r, hr, -⟩ := h.newId halloc
    exact ⟨_, by rw [hr, Option.map_some]⟩
  · exact ⟨_, rfl⟩
  · exact ⟨_, rfl⟩
  · exact ⟨_, rfl⟩

/-! ### Every interleaving -/

section Events

variable {ipv6 : Bool} {sys sys' : HandoffSys n m} {t : Fin m}

theorem HandoffSys.Inv.release (h : sys.Inv) {env : Env} {b : Fin n} {fd id : Int}
    (hrun : handoffExec ipv6 sys (.release t env b fd id) = some sys') : sys'.Inv := by
  simp only [handoffExec] at hrun
  split_ifs at hrun with hidle
  cases hl : bsdLookup (sys.st.base b) fd with
  | none =>
    rw [hl] at hrun
    obtain rfl := Option.some.inj hrun
    exact h.setSt rfl rfl
  | some s =>
    rw [hl] at hrun
    obtain ⟨res, hres, rfl⟩ := Option.map_eq_some_iff.mp hrun
    rcases res with code | ⟨id', st'⟩
    · exact h.setSt rfl rfl
    · obtain ⟨next, rfl, hlo, hhi, hid⟩ := h.reserve hres
      have hclaimed := h.claimedAt_addNode (e := ⟨id', s, decide (0 ≤ fd)⟩)
        (by simpa using nonneg_of_bsdLookup hl) { sys.st with nextHandoffId := next } rfl
      -- the node is a new one
      refine (h.addNode hlo hhi hid).takeNode rfl hclaimed fun u hu ↦ ?_
      exact (h.fresh _ (h.claimed u _ hu).mem).ne rfl

theorem HandoffSys.Inv.releaseCopy (h : sys.Inv) {env : Env} {b : Fin n} {fd id : Int}
    (hrun : handoffExec ipv6 sys (.releaseCopy t env b fd id) = some sys') : sys'.Inv := by
  simp only [handoffExec] at hrun
  split_ifs at hrun with hidle
  cases hl : bsdLookup (sys.st.base b) fd with
  | none =>
    rw [hl] at hrun
    obtain rfl := Option.some.inj hrun
    exact h.setSt rfl rfl
  | some s =>
    rw [hl] at hrun
    obtain ⟨res, hres, rfl⟩ := Option.map_eq_some_iff.mp hrun
    rcases res with code | ⟨id', st'⟩
    · exact h.setSt rfl rfl
    · have hretain : (sys.setSt (bsdSocketRetain sys.st s)).Inv := h.setSt rfl rfl
      obtain ⟨next, rfl, hlo, hhi, hid⟩ := hretain.reserve hres
      have hadd := hretain.addNode (e := ⟨id', s, false⟩) hlo hhi hid
      dsimp only
      split_ifs
      · exact hadd.setSt rfl rfl
      · exact hadd

theorem HandoffSys.Inv.obtain (h : sys.Inv) {b : Fin n} {id domain type protocol : Int}
    (hrun : handoffExec ipv6 sys (.obtain t b id domain type protocol) = some sys') :
    sys'.Inv := by
  simp only [handoffExec] at hrun
  split_ifs at hrun with hidle
  cases hm : bsdHandoffMatch ipv6 sys.st id domain type protocol with
  | none =>
    rw [hm] at hrun
    obtain rfl := Option.some.inj hrun
    exact h.setSt rfl rfl
  | some ei =>
    obtain ⟨e, i⟩ := ei
    rw [hm] at hrun
    obtain rfl := Option.some.inj hrun
    obtain ⟨hi, hunclaimed⟩ := bsdHandoffMatch_some hm
    have hlt : i < sys.nodes.length := h.length ▸ (List.getElem?_eq_some_iff.mp hi).1
    obtain ⟨a, ha⟩ : ∃ a, sys.nodes[i]? = some a := ⟨_, List.getElem?_eq_getElem hlt⟩
    have hnode : sys.nodes.getD i sys.nextNode = a := by
      rw [List.getD_eq_getElem?_getD, ha, Option.getD_some]
    have hfree := h.free_of_unclaimed ha hi hunclaimed
    rw [hnode]
    exact (h.setClaimed true hfree).takeNode rfl
      (h.claimedAt_setClaimed (List.mem_of_getElem? ha)) hfree

/-- The second section of a release gives the entry up, or takes it back. -/
theorem HandoffSys.Inv.endRelease (h : sys.Inv)
    (hrun : handoffExec ipv6 sys (.endRelease t) = some sys') : sys'.Inv := by
  simp only [handoffExec] at hrun
  split at hrun
  · next b s a freed htask =>
    have hnode : (sys.task t).node? = some a := by simp [htask, HandoffTask.node?]
    have hidle : (sys.setTask t .idle).Inv := h.setTask (.inl rfl)
    have hfree := h.free_of_end hnode
    split_ifs at hrun <;> obtain rfl := Option.some.inj hrun
    · have hgiven := hidle.setClaimed false hfree
      exact hgiven.setSt (sameAccount_bsdOwnerDrop _ _ _).handoffs
        (sameAccount_bsdOwnerDrop _ _ _).nextHandoffId
    · exact hidle.removeNode hfree
  · cases hrun

/-- The second section of an obtain gives the entry up, or removes it for good. -/
theorem HandoffSys.Inv.endObtain (h : sys.Inv)
    (hrun : handoffExec ipv6 sys (.endObtain t) = some sys') : sys'.Inv := by
  simp only [handoffExec] at hrun
  split at hrun
  · next b s a domain fd htask =>
    have hnode : (sys.task t).node? = some a := by simp [htask, HandoffTask.node?]
    have hidle : (sys.setTask t .idle).Inv := h.setTask (.inl rfl)
    have hfree := h.free_of_end hnode
    split_ifs at hrun <;> obtain rfl := Option.some.inj hrun
    · exact hidle.setClaimed false hfree
    · have hgone := hidle.removeNode hfree
      have hset : (((sys.setTask t .idle).removeNode a).setSt (setFamily ipv6
          (bsdOwnerSet (sys.removeNode a).st s (some b)) b s domain)).Inv :=
        hgone.setSt (sameAccount_setFamily ..).handoffs (sameAccount_setFamily ..).nextHandoffId
      have hmem := (h.claimed t a hnode).mem
      refine { hset with obtainedNodup := ?_, obtainedGone := ?_ }
      · exact List.nodup_cons.mpr ⟨fun ha ↦ (h.obtainedGone a ha).2 hmem, h.obtainedNodup⟩
      · intro x hx
        rcases List.mem_cons.mp hx with rfl | hx
        · exact ⟨h.fresh x hmem, h.not_mem_removeNode⟩
        · exact hgone.obtainedGone x hx
  · cases hrun

theorem HandoffSys.Inv.take (h : sys.Inv) (hrun : handoffExec ipv6 sys .take = some sys') :
    sys'.Inv := by
  simp only [handoffExec] at hrun
  split_ifs at hrun with hidle
  obtain rfl := Option.some.inj hrun
  refine ⟨rfl, List.nodup_nil, by simp, h.idLo, h.idHi, List.Pairwise.nil, ?_, ?_,
    h.obtainedNodup, fun x hx ↦ ⟨(h.obtainedGone x hx).1, by simp⟩⟩
  · simp [hidle, HandoffTask.node?]
  · simp [hidle, HandoffTask.node?]

/-- **What every section preserves.** -/
theorem handoffSections_inv {e : HandoffEvent n m} (h : sys.Inv)
    (hrun : handoffExec ipv6 sys e = some sys') : sys'.Inv := by
  cases e with
  | release t env b fd id => exact h.release hrun
  | endRelease t => exact h.endRelease hrun
  | releaseCopy t env b fd id => exact h.releaseCopy hrun
  | obtain t b id domain type protocol => exact h.obtain hrun
  | endObtain t => exact h.endObtain hrun
  | take => exact h.take hrun
  | fdFree t env | fdAlloc t env =>
    -- the call goes on with its entry
    simp only [handoffExec] at hrun
    split at hrun
    · next htask =>
      obtain rfl := Option.some.inj hrun
      refine (h.setSt ?_ ?_).setTask (.inr ?_)
      · rfl
      · rfl
      · simp [HandoffSys.setSt, htask, HandoffTask.node?]
    · cases hrun

end Events

/-- **Ids and owners of parked sockets.** In every interleaving of the sections: no two registry
entries have the same unique id; with memory for one more entry the generator of ids ends, on an id
above 65535 that is not `UNIQUE_ID` and not in the registry; no parked socket has been obtained
twice, and no two calls that are under way work on the same entry. -/
theorem handoffSections_unique {ipv6 : Bool} {sys : HandoffSys n m}
    (h : Reachable (handoffExec ipv6) HandoffSys.Initial sys) :
    (sys.st.ids.Pairwise fun i j ↦ 65535 < i → i ≠ j) ∧
      (∀ env, allocHandoff env sys.st = true → ∃ r, bsdHandoffNewId sys.st = some r ∧
        r.1 ≠ uniqueId ∧ 65535 < r.1 ∧ r.1 ∉ sys.st.ids) ∧
      sys.obtained.Nodup ∧
      ∀ t u a, (sys.task t).node? = some a → (sys.task u).node? = some a → t = u := by
  have hinv : sys.Inv :=
    h.invariant (fun _ ↦ HandoffSys.Initial.inv) fun _ _ _ ↦ handoffSections_inv
  refine ⟨hinv.ids.imp ?_, fun env halloc ↦ ?_, hinv.obtainedNodup, hinv.apart⟩
  · intro i j hne hbig
    exact hne (by simp [bsdHandoffIdIsUnique, hbig])
  · obtain ⟨r, hr, hne, hbig, hnew, -, -⟩ := hinv.newId halloc
    exact ⟨r, hr, hne, hbig, hnew⟩

/-- One base and two tasks, before their first call. -/
def twoTasks : HandoffSys 1 2 where
  st := oneSocket
  nodes := []
  nextNode := 0
  task _ := .idle
  obtained := []

/-- A copy and the socket itself are parked, and both tasks obtain one: the second claims while the
first one's descriptor is being allocated. -/
theorem handoffSections_unique_twoObtain :
    ∃ sys : HandoffSys 1 2, Reachable (handoffExec true) HandoffSys.Initial sys ∧
      sys.obtained.length = 2 ∧ sys.obtained.Nodup := by
  have hrun : ((run (handoffExec true) twoTasks
      [.releaseCopy 0 quietEnv 0 0 7, .release 1 quietEnv 0 0 7, .obtain 0 0 7 2 1 0,
        .fdFree 1 quietEnv, .endRelease 1, .obtain 1 0 7 2 1 0, .fdAlloc 1 quietEnv,
        .fdAlloc 0 quietEnv, .endObtain 0, .endObtain 1]).any fun sys ↦
          decide (sys.obtained.length = 2)) = true := by decide +kernel
  obtain ⟨sys, hsys, hlen⟩ := (Option.any_eq_true _ _).mp hrun
  have hreach : Reachable (handoffExec true) HandoffSys.Initial sys :=
    ⟨twoTasks, _, ⟨rfl, rfl, rfl, fun _ ↦ rfl, rfl⟩, hsys⟩
  exact ⟨sys, hreach, of_decide_eq_true hlen, (handoffSections_unique hreach).2.2.1⟩

/-! ### Every call -/

section Sequential

variable {ipv6 : Bool} {sys : HandoffSys n m} {t : Fin m} {b : Fin n} {fd id : Int} {env : Env}

/-- A call returns, and its sections leave the library as it does. -/
def Refines (ipv6 : Bool) (sys : HandoffSys n m) (t : Fin m) (call : HandoffCall n) : Prop :=
  ∃ r sys', handoffCall ipv6 sys.st call = some r ∧ RunsAlone ipv6 sys t call sys' ∧ sys'.st = r.2

/-- **The sections of `ReleaseSocket()`.** One after the other they are the call. -/
theorem HandoffSys.Inv.refines_release (h : sys.Inv) (hidle : sys.task t = .idle) :
    Refines ipv6 sys t (.release env b fd id) := by
  simp only [Refines, handoffCall, bsdReleaseSocket]
  cases hl : bsdLookup (sys.st.base b) fd with
  | none =>
    refine ⟨_, sys.setSt (sys.st.fail b ebadf).2, rfl, ⟨.inl ?_, hidle⟩, rfl⟩
    simp [run, HandoffCall.first, handoffExec, hidle, hl]
  | some s =>
    obtain ⟨res, hres⟩ := h.exists_reserve env id
    simp only [bsdHandoffPark_eq, hres, Option.map_some]
    rcases res with code | ⟨id', st'⟩
    · refine ⟨_, sys.setSt (sys.st.fail b code).2, rfl, ⟨.inl ?_, hidle⟩, rfl⟩
      simp [run, HandoffCall.first, handoffExec, hidle, hl, hres]
    · obtain ⟨next, rfl, -⟩ := h.reserve hres
      have hfd := nonneg_of_bsdLookup hl
      have hidx : (sys.nodes ++ [sys.nextNode]).idxOf sys.nextNode = sys.st.handoffs.length := by
        rw [List.idxOf_append_of_notMem fun hmem ↦ (h.fresh _ hmem).ne rfl]
        simp [h.length]
      suffices hall : ∃ sys', run (handoffExec ipv6) sys
          [.release t env b fd id, .fdFree t env, .endRelease t] = some sys' ∧
          sys'.task t = .idle ∧
          sys'.st = (parkEntry env { sys.st with nextHandoffId := next } b s id' fd).2 by
        obtain ⟨sys', hrun, hend, hst⟩ := hall
        exact ⟨_, sys', rfl, ⟨.inr hrun, hend⟩, hst⟩
      by_cases hfree : (bsdFdFree env (sys.st.base b) fd).1 = 0
      · simp [run, handoffExec, hidle, hl, hres, HandoffSys.addNode, HandoffSys.setSt,
          HandoffSys.setClaimed, HandoffSys.setTask, State.addHandoff, parkEntry, hfd, hfree, hidx]
      · simp [run, handoffExec, hidle, hl, hres, HandoffSys.addNode, HandoffSys.setSt,
          HandoffSys.removeNode, HandoffSys.setTask, State.addHandoff, parkEntry, hfd, hfree, hidx]

/-- **The section of `ReleaseCopyOfSocket()`.** -/
theorem HandoffSys.Inv.refines_releaseCopy (h : sys.Inv) (hidle : sys.task t = .idle) :
    Refines ipv6 sys t (.releaseCopy env b fd id) := by
  simp only [Refines, RunsAlone, HandoffCall.first, HandoffCall.rest, or_self, run, handoffCall,
    bsdReleaseCopyOfSocket]
  cases hl : bsdLookup (sys.st.base b) fd with
  | none =>
    refine ⟨_, sys.setSt (sys.st.fail b ebadf).2, rfl, ⟨?_, hidle⟩, rfl⟩
    simp [handoffExec, hidle, hl]
  | some s =>
    have hretain : (sys.setSt (bsdSocketRetain sys.st s)).Inv := h.setSt rfl rfl
    obtain ⟨res, hres⟩ := hretain.exists_reserve env id
    rw [HandoffSys.setSt] at hres
    simp only [bsdHandoffPark_eq, hres, Option.map_some]
    rcases res with code | ⟨id', st'⟩
    · refine ⟨_, sys.setSt (dropReference ((bsdSocketRetain sys.st s).fail b code).2 s), rfl,
        ⟨?_, hidle⟩, rfl⟩
      simp [handoffExec, hidle, hl, hres]
    · -- without a descriptor to free, the entry is simply added
      have hpark : parkEntry env st' b s id' (-1) = (id', st'.addHandoff ⟨id', s, false⟩) := rfl
      simp only [handoffExec, hidle, hl, hres, ne_eq, not_true_eq_false, if_false,
        Option.map_some, Option.bind_some, Option.some.injEq, hpark]
      refine ⟨_, _, rfl, ⟨rfl, ?_⟩, ?_⟩ <;> split_ifs
      · exact hidle
      · exact hidle
      · rfl
      · rfl

/-- **The sections of `ObtainSocket()`.** One after the other they are the call. -/
theorem HandoffSys.Inv.refines_obtain {domain type protocol : Int} (h : sys.Inv)
    (hidle : sys.task t = .idle) : Refines ipv6 sys t (.obtain env b id domain type protocol) := by
  simp only [Refines, handoffCall, bsdObtainSocket]
  cases hm : bsdHandoffMatch ipv6 sys.st id domain type protocol with
  | none =>
    refine ⟨_, sys.setSt (sys.st.fail b ebadf).2, rfl, ⟨.inl ?_, hidle⟩, rfl⟩
    simp [run, HandoffCall.first, handoffExec, hidle, hm]
  | some ei =>
    obtain ⟨e, i⟩ := ei
    obtain ⟨hi, -⟩ := bsdHandoffMatch_some hm
    have hlt : i < sys.nodes.length := h.length ▸ (List.getElem?_eq_some_iff.mp hi).1
    have hnode : sys.nodes[i]? = some sys.nodes[i] := List.getElem?_eq_getElem hlt
    have hidx : sys.nodes.idxOf sys.nodes[i] = i := h.nodup.idxOf_getElem i hlt
    suffices hall : ∃ sys', run (handoffExec ipv6) sys
        [.obtain t b id domain type protocol, .fdAlloc t env, .endObtain t] = some sys' ∧
        sys'.task t = .idle ∧
        sys'.st = (bsdObtainSocket ipv6 env sys.st b id domain type protocol).2 by
      obtain ⟨sys', hrun, hend, hst⟩ := hall
      rw [bsdObtainSocket, hm] at hst
      exact ⟨_, sys', rfl, ⟨.inr hrun, hend⟩, hst⟩
    rw [bsdObtainSocket, hm]
    by_cases hneg : (bsdFdAlloc env (sys.st.base b) e.socket).1 < 0
    · simp [run, handoffExec, hidle, hm, HandoffSys.setSt, HandoffSys.setClaimed,
        HandoffSys.setTask, State.setClaimed, State.setBase, hneg, hnode, hidx]
    · simp [run, handoffExec, hidle, hm, HandoffSys.setSt, HandoffSys.setClaimed,
        HandoffSys.removeNode, HandoffSys.setTask, State.setClaimed, State.setBase, hneg, hnode,
        hidx]

end Sequential

/-- **The sections are the calls.** In every state that an interleaving reaches, every call of a
task that is in none returns, and its sections, run without another task in between, leave the
library as the call does. -/
theorem handoffSections_refine {ipv6 : Bool} {sys : HandoffSys n m}
    (h : Reachable (handoffExec ipv6) HandoffSys.Initial sys) {t : Fin m}
    (hidle : sys.task t = .idle) (call : HandoffCall n) :
    ∃ r sys', handoffCall ipv6 sys.st call = some r ∧ RunsAlone ipv6 sys t call sys' ∧
      sys'.st = r.2 := by
  have hinv : sys.Inv :=
    h.invariant (fun _ ↦ HandoffSys.Initial.inv) fun _ _ _ ↦ handoffSections_inv
  cases call with
  | release => exact hinv.refines_release hidle
  | releaseCopy => exact hinv.refines_releaseCopy hidle
  | obtain => exact hinv.refines_obtain hidle

/-- Task 1 is between its two sections when task 0 obtains the copy it has parked. -/
theorem handoffSections_refine_obtain :
    ∃ sys : HandoffSys 1 2, Reachable (handoffExec true) HandoffSys.Initial sys ∧
      sys.task 1 ≠ .idle ∧ ∃ r sys',
        handoffCall true sys.st (.obtain quietEnv 0 7 2 1 0) = some r ∧
          RunsAlone true sys 0 (.obtain quietEnv 0 7 2 1 0) sys' ∧ sys'.st = r.2 := by
  have hrun : ((run (handoffExec true) twoTasks
      [.releaseCopy 0 quietEnv 0 0 7, .release 1 quietEnv 0 0 7]).any fun sys ↦
        decide (sys.task 0 = .idle ∧ sys.task 1 ≠ .idle)) = true := by decide +kernel
  obtain ⟨sys, hsys, htasks⟩ := (Option.any_eq_true _ _).mp hrun
  obtain ⟨hidle, hbusy⟩ := of_decide_eq_true htasks
  have hreach : Reachable (handoffExec true) HandoffSys.Initial sys :=
    ⟨twoTasks, _, ⟨rfl, rfl, rfl, fun _ ↦ rfl, rfl⟩, hsys⟩
  exact ⟨sys, hreach, hbusy, handoffSections_refine hreach hidle _⟩

end AmiNetXDuo.BsdSocket
