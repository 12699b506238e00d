import AmiNetXDuo.Mbuf.Pool
import Mathlib.Data.Fintype.Basic

/-!
# When an allocation from the mbuf pool gives up

An allocation that finds its free list empty asks for memory with the lock down.  When the answer
comes, other tasks may have filled the list.  `ami_mbuf_cluster_get` looks at the list again where
the ceiling has been reached meanwhile; where the memory was refused, and in `ami_mbuf_raw_get` in
both cases, the allocation gives up without looking.

It gives up with an empty list in every run in which no object of a kind is put on the free list
while another task's allocation of that kind waits for memory.  In such a run the second look finds
nothing; where it is made it needs no condition.

## Main definitions

* `Phase.Waits` : the lock is down for an object of a kind.
* `Event.supplies` : the section puts an object of a kind on its free list.
* `Moves` : what a section does to the free lists and to its task.
* `Quiet` : no section supplies a kind that another task waits for.

## Main results

* `clusterAlloc_gaveUp_freeList` : the second look.
* `gaveUp_freeList_empty` : under that condition the list is empty when an allocation gives up.
* `rawGet_gives_up_beside_free_mbufs` : and not without it.
-/

namespace AmiNetXDuo.Mbuf

variable {Task : Type} [DecidableEq Task]

/-- The lock is down for an object of a kind. -/
def Phase.Waits (kind : Kind) : Phase → Prop
  | .growing _ | .releasing => kind = .mbuf
  | .clusterAlloc _ => kind = .cluster
  | _ => False

instance (kind : Kind) : ∀ phase : Phase, Decidable (phase.Waits kind)
  | .growing _ | .releasing => inferInstanceAs (Decidable (kind = .mbuf))
  | .clusterAlloc _ => inferInstanceAs (Decidable (kind = .cluster))
  | .idle | .entered _ | .clusterHeld _ _ | .sharing _ _ | .unreferencing _ _ | .freeing _
  | .gaveUp _ => isFalse id

/-- The task whose section puts objects of a kind on the free list, and the kind. -/
def Event.supplies (w : World Task) : Event Task → Option (Task × Kind)
  | .push t => some (t, .mbuf)
  | .memory t block =>
      match w.phase t with
      | .growing want =>
          match (growLocked w.pool want block).2 with
          | .got _ => some (t, .mbuf)
          | _ => none
      | _ => none
  | .put t =>
      match w.phase t with
      | .unreferencing _ cl => if w.pool.refcnt cl ≤ 1 then some (t, .cluster) else none
      | _ => none
  | _ => none

/-- **No section supplies a kind that another task waits for.** -/
def Quiet (w : World Task) (e : Event Task) : Prop :=
  ∀ supply ∈ e.supplies w, ∀ t, t ≠ supply.1 → ¬(w.phase t).Waits supply.2

instance [Fintype Task] (w : World Task) (e : Event Task) : Decidable (Quiet w e) :=
  match h : e.supplies w with
  | none => isTrue (by simp [Quiet, h])
  | some supply =>
      decidable_of_iff (∀ t, t ≠ supply.1 → ¬(w.phase t).Waits supply.2) (by simp [Quiet, h])

/-! ### The sections -/

/-- The first section fills no list, and it asks for memory or gives up with an empty one only. -/
theorem rawGetLocked_spec (p : Pool) :
    (∀ kind, p.freeList kind = [] → (rawGetLocked p).1.freeList kind = []) ∧
      ((∀ m, (rawGetLocked p).2 ≠ .got m) → p.freeMbufs = []) := by
  unfold rawGetLocked takeMbuf
  cases hfree : p.freeMbufs with
  | nil =>
      simp only
      split_ifs
      all_goals exact ⟨fun kind h ↦ by cases kind <;> exact h, fun _ ↦ trivial⟩
  | cons m rest =>
      refine ⟨fun kind h ↦ ?_, fun h ↦ absurd rfl (h m)⟩
      cases kind with
      | mbuf => cases hfree.symm.trans h
      | cluster => exact h

/-- A second section fills no list of clusters, and one that ends without an mbuf has put none on
the list. -/
theorem growLocked_spec {p : Pool} {want : Nat} {block : Option Addr} {kind : Kind}
    (hfree : p.freeList kind = [])
    (h : kind = .mbuf → ∀ m, (growLocked p want block).2 ≠ .got m) :
    (growLocked p want block).1.freeList kind = [] := by
  have htake {q : Pool} (hclusters : q.clustersFree = p.clustersFree)
      (hq : kind = .mbuf → ∀ m, (takeMbuf q).2 ≠ .got m) : (takeMbuf q).1.freeList kind = [] := by
    unfold takeMbuf at hq ⊢
    cases kind with
    | mbuf =>
        cases hlist : q.freeMbufs with
        | nil => exact hlist
        | cons m rest => simp [hlist] at hq
    | cluster => split <;> exact hclusters.trans hfree
  cases block with
  | none => exact hfree
  | some raw =>
      simp only [growLocked] at h ⊢
      split_ifs at h ⊢
      · exact hfree
      · exact htake rfl h
      · exact htake rfl h

/-- A section that asks for a cluster or gives up has found no free one. -/
theorem clusterGetLocked_spec (p : Pool) :
    (∀ kind, p.freeList kind = [] → (clusterGetLocked p).1.freeList kind = []) ∧
      ((∀ cl, (clusterGetLocked p).2 ≠ .got cl) → p.clustersFree = []) := by
  unfold clusterGetLocked takeCluster
  cases hfree : p.clustersFree with
  | nil =>
      simp only
      split_ifs
      all_goals exact ⟨fun kind h ↦ by cases kind <;> exact h, fun _ ↦ trivial⟩
  | cons cl rest =>
      refine ⟨fun kind h ↦ ?_, fun h ↦ absurd rfl (h cl)⟩
      cases kind with
      | mbuf => exact h
      | cluster => cases hfree.symm.trans h

/-- Behind the request nothing joins the free list, and with memory granted the section gives up
with an empty list only. -/
theorem clusterAllocLocked_spec (p : Pool) (block : Option Addr) :
    (∀ kind, p.freeList kind = [] → (clusterAllocLocked p block).1.freeList kind = []) ∧
      (block ≠ none → (clusterAllocLocked p block).2 = .gaveUp →
        (clusterAllocLocked p block).1.clustersFree = []) := by
  cases block with
  | none => exact ⟨fun kind h ↦ by cases kind <;> exact h, fun h ↦ absurd rfl h⟩
  | some cl =>
      unfold clusterAllocLocked takeCluster
      split_ifs
      · cases hfree : p.clustersFree with
        | nil => exact ⟨fun kind h ↦ by cases kind <;> exact h, fun _ _ ↦ hfree⟩
        | cons pooled rest =>
            refine ⟨fun kind h ↦ ?_, fun _ h ↦ by cases h⟩
            cases kind with
            | mbuf => exact h
            | cluster => cases hfree.symm.trans h
      · exact ⟨fun kind h ↦ by cases kind <;> exact h, fun _ h ↦ by cases h⟩

theorem clusterPutLocked_freeList {p : Pool} {cl : Addr} {kind : Kind}
    (hfree : p.freeList kind = []) (hmore : kind = .cluster → ¬p.refcnt cl ≤ 1) :
    (clusterPutLocked p cl).freeList kind = [] := by
  unfold clusterPutLocked
  simp only [Function.update_self]
  cases kind with
  | mbuf => split_ifs <;> exact hfree
  | cluster =>
      have hlast := hmore rfl
      rw [if_neg (by omega)]
      exact hfree

/-! ### One section -/

variable {w w' : World Task} {e : Event Task}

theorem extRefLocked_freeList (p : Pool) (cl : Addr) (kind : Kind) :
    (extRefLocked p cl).freeList kind = p.freeList kind := by
  unfold extRefLocked
  split_ifs <;> cases kind <;> rfl

theorem amiMbufInit_freeList (p : Pool) (maxMbufs maxClusters : Nat) (kind : Kind) :
    (amiMbufInit p maxMbufs maxClusters).1.freeList kind = p.freeList kind := by
  unfold amiMbufInit
  simp only
  split_ifs <;> cases kind <;> rfl

theorem amiMbufEnsureInit_freeList (p : Pool) (kind : Kind) :
    (amiMbufEnsureInit p).freeList kind = p.freeList kind := by
  unfold amiMbufEnsureInit
  split_ifs
  · rfl
  · exact amiMbufInit_freeList p 0 0 kind

theorem settleRaw_pool (w : World Task) (t : Task) (result : Pool × RawGet) :
    (w.settleRaw t result).pool = result.1 := by
  unfold World.settleRaw
  split <;> rfl

theorem settleCluster_pool (w : World Task) (t : Task) (m : Addr) (result : Pool × ClusterGet) :
    (w.settleCluster t m result).pool = result.1 := by
  unfold World.settleCluster
  split <;> rfl

theorem goTo_phase_of_ne (w : World Task) {t t' : Task} (phase : Phase) (h : t' ≠ t) :
    (w.goTo t phase).phase t' = w.phase t' :=
  Function.update_of_ne h _ _

@[simp] theorem goTo_phase_self (w : World Task) (t : Task) (phase : Phase) :
    (w.goTo t phase).phase t = phase :=
  Function.update_self _ _ _

theorem settleRaw_phase_of_ne (w : World Task) {t t' : Task} (result : Pool × RawGet)
    (h : t' ≠ t) : (w.settleRaw t result).phase t' = w.phase t' := by
  unfold World.settleRaw
  split <;> exact Function.update_of_ne h _ _

theorem settleCluster_phase_of_ne (w : World Task) {t t' : Task} (m : Addr)
    (result : Pool × ClusterGet) (h : t' ≠ t) :
    (w.settleCluster t m result).phase t' = w.phase t' := by
  unfold World.settleCluster
  split <;> exact Function.update_of_ne h _ _

/-- The task whose section it is. -/
def Event.actor : Event Task → Option Task
  | .init _ _ => none
  | .enter t _ | .lock t | .memory t _ | .relock t | .giveUp t | .attach t | .share t _ _ | .count t
  | .free t _ | .put t | .push t | .handOver t _ _ => some t

/-- The task waits for an object of a kind, or has given up. -/
def Phase.Lacks (kind : Kind) (phase : Phase) : Prop := phase.Waits kind ∨ phase = .gaveUp kind

/-- **What a section does.**  Most leave the free lists alone, and behind them their task lacks
nothing. -/
inductive Moves (w : World Task) : Event Task → World Task → Prop
  | plain {e : Event Task} {w' : World Task}
      (hlists : ∀ kind, w'.pool.freeList kind = w.pool.freeList kind)
      (hothers : ∀ t, e.actor ≠ some t → w'.phase t = w.phase t)
      (hown : ∀ t kind, e.actor = some t → ¬(w'.phase t).Lacks kind) : Moves w e w'
  | rawGet {t : Task} (hphase : w.phase t = .entered .mbuf) :
      Moves w (.lock t) (w.settleRaw t (rawGetLocked w.pool))
  | clusterGet {t : Task} {m : Addr} (hphase : w.phase t = .entered (.cluster m)) :
      Moves w (.lock t) (w.settleCluster t m (clusterGetLocked w.pool))
  | grow {t : Task} {want : Nat} {block : Option Addr} (hphase : w.phase t = .growing want) :
      Moves w (.memory t block) (w.settleRaw t (growLocked w.pool want block))
  | clusterAlloc {t : Task} {m : Addr} {block : Option Addr}
      (hphase : w.phase t = .clusterAlloc m) :
      Moves w (.memory t block) (w.settleCluster t m (clusterAllocLocked w.pool block))
  | relock {t : Task} (hphase : w.phase t = .releasing) :
      Moves w (.relock t) ({ w with pool := w.pool.drop }.goTo t (.gaveUp .mbuf))
  | put {t : Task} {m cl : Addr} (hphase : w.phase t = .unreferencing m cl) :
      Moves w (.put t) ({ w with pool := clusterPutLocked w.pool cl }.goTo t (.freeing m))
  | push {t : Task} {m : Addr} (hphase : w.phase t = .freeing m) :
      Moves w (.push t) ({ w with
        pool := mbufPutLocked w.pool m
        holder := Function.update w.holder m none }.goTo t .idle)

/-- A section that ends with a step to a phase in which nothing is lacking. -/
theorem Moves.goTo {t : Task} {v : World Task} {phase : Phase} (hactor : e.actor = some t)
    (hlists : ∀ kind, v.pool.freeList kind = w.pool.freeList kind) (hphase : v.phase = w.phase)
    (hown : ∀ kind, ¬phase.Lacks kind) : Moves w e (v.goTo t phase) := by
  refine .plain hlists (fun t' ht ↦ ?_) fun t' kind ht ↦ ?_
  · have hne : t' ≠ t := by
      rintro rfl
      exact ht hactor
    rw [goTo_phase_of_ne _ _ hne, hphase]
  · obtain rfl : t' = t := Option.some.inj (ht.symm.trans hactor)
    rw [goTo_phase_self]
    exact hown kind

theorem not_lacks_idle (kind : Kind) : ¬Phase.idle.Lacks kind := by
  rintro (h | h) <;> cases h

theorem exec_moves (h : exec w e = some w') : Moves w e w' := by
  cases e with
  | init maxMbufs maxClusters =>
      obtain rfl := Option.some.inj h
      exact .plain (amiMbufInit_freeList _ _ _) (fun _ _ ↦ rfl) fun _ _ ht ↦ by cases ht
  | enter t req =>
      simp only [exec] at h
      split_ifs at h
      obtain rfl := Option.some.inj h
      exact .goTo rfl (amiMbufEnsureInit_freeList _) rfl (by rintro _ (h | h) <;> cases h)
  | lock t =>
      simp only [exec] at h
      split at h
      · next hphase =>
        obtain rfl := Option.some.inj h
        exact .rawGet hphase
      · next hphase =>
        obtain rfl := Option.some.inj h
        exact .clusterGet hphase
      · cases h
  | memory t block =>
      simp only [exec] at h
      split at h
      · next hphase =>
        split_ifs at h
        obtain rfl := Option.some.inj h
        exact .grow hphase
      · next hphase =>
        split_ifs at h
        obtain rfl := Option.some.inj h
        exact .clusterAlloc hphase
      · cases h
  | relock t =>
      simp only [exec] at h
      split_ifs at h with hphase
      obtain rfl := Option.some.inj h
      exact .relock hphase
  | giveUp t | attach t =>
      simp only [exec] at h
      split at h
      · obtain rfl := Option.some.inj h
        exact .goTo rfl (fun _ ↦ rfl) rfl not_lacks_idle
      · cases h
  | share t n m =>
      simp only [exec] at h
      split at h
      · split_ifs at h
        obtain rfl := Option.some.inj h
        exact .goTo rfl (fun _ ↦ rfl) rfl (by rintro _ (h | h) <;> cases h)
      · cases h
  | count t =>
      simp only [exec] at h
      split at h
      · obtain rfl := Option.some.inj h
        exact .goTo rfl (extRefLocked_freeList _ _) rfl not_lacks_idle
      · cases h
  | free t m =>
      simp only [exec] at h
      split_ifs at h
      split at h
      all_goals
        obtain rfl := Option.some.inj h
        exact .goTo rfl (fun _ ↦ rfl) rfl (by rintro _ (h | h) <;> cases h)
  | put t =>
      simp only [exec] at h
      split at h
      · next hphase =>
        obtain rfl := Option.some.inj h
        exact .put hphase
      · cases h
  | push t =>
      simp only [exec] at h
      split at h
      · next hphase =>
        obtain rfl := Option.some.inj h
        exact .push hphase
      · cases h
  | handOver t t' m =>
      simp only [exec] at h
      split_ifs at h with hmay
      obtain rfl := Option.some.inj h
      refine .plain (fun _ ↦ rfl) (fun _ _ ↦ rfl) fun t'' kind ht ↦ ?_
      obtain rfl := Option.some.inj ht
      rw [hmay.1]
      exact not_lacks_idle kind

/-- **A free list fills through a supply only.** -/
theorem Moves.freeList {kind : Kind} (h : Moves w e w') (hempty : w.pool.freeList kind = [])
    (hsupply : ∀ t, e.supplies w ≠ some (t, kind)) : w'.pool.freeList kind = [] := by
  cases h with
  | plain hlists => exact (hlists kind).trans hempty
  | rawGet =>
      rw [settleRaw_pool]
      exact (rawGetLocked_spec w.pool).1 kind hempty
  | clusterGet =>
      rw [settleCluster_pool]
      exact (clusterGetLocked_spec w.pool).1 kind hempty
  | @grow t want block hphase =>
      rw [settleRaw_pool]
      refine growLocked_spec hempty fun hkind m hgot ↦ hsupply t ?_
      simp only [Event.supplies, hphase, hgot, hkind]
  | @clusterAlloc t m block =>
      rw [settleCluster_pool]
      exact (clusterAllocLocked_spec w.pool block).1 kind hempty
  | relock => cases kind <;> exact hempty
  | @put t m cl hphase =>
      refine clusterPutLocked_freeList hempty fun hkind hlast ↦ hsupply t ?_
      simp only [Event.supplies, hphase, hkind]
      exact if_pos hlast
  | push =>
      cases kind with
      | mbuf => exact absurd rfl (hsupply _)
      | cluster => exact hempty

omit [DecidableEq Task] in
theorem actor_of_supplies {supply : Task × Kind} (h : e.supplies w = some supply) :
    e.actor = some supply.1 := by
  cases e with
  | push t =>
      obtain rfl := Option.some.inj h
      rfl
  | memory t block =>
      simp only [Event.supplies] at h
      split at h
      · split at h
        · obtain rfl := Option.some.inj h
          rfl
        · cases h
      · cases h
  | put t =>
      simp only [Event.supplies] at h
      split at h
      · split_ifs at h
        obtain rfl := Option.some.inj h
        rfl
      · cases h
  | _ => cases h

/-- A section moves its own task only. -/
theorem Moves.phase_of_ne (h : Moves w e w') {t : Task} (ht : e.actor ≠ some t) :
    w'.phase t = w.phase t := by
  have hne {t' : Task} (h : some t' ≠ some t) : t ≠ t' := fun heq ↦ h (heq ▸ rfl)
  cases h with
  | plain _ hothers => exact hothers t ht
  | rawGet | grow => exact settleRaw_phase_of_ne w _ (hne ht)
  | clusterGet | clusterAlloc => exact settleCluster_phase_of_ne w _ _ (hne ht)
  | relock | put | push => exact goTo_phase_of_ne _ _ (hne ht)

theorem settleRaw_lacks {t : Task} {result : Pool × RawGet} {kind : Kind}
    (h : ((w.settleRaw t result).phase t).Lacks kind) :
    kind = .mbuf ∧ ∀ m, result.2 ≠ .got m := by
  unfold World.settleRaw at h
  split at h
  · rcases h with h | h <;> simp [Phase.Waits] at h
  · next want hgrow =>
    rcases h with h | h
    · exact ⟨by simpa [Phase.Waits] using h, fun m hm ↦ by simp [hgrow] at hm⟩
    · simp at h
  · next hrelease =>
    rcases h with h | h
    · exact ⟨by simpa [Phase.Waits] using h, fun m hm ↦ by simp [hrelease] at hm⟩
    · simp at h
  · next hgave =>
    rcases h with h | h
    · simp [Phase.Waits] at h
    · exact ⟨by simpa using h.symm, fun m hm ↦ by simp [hgave] at hm⟩

theorem settleCluster_lacks {t : Task} {m : Addr} {result : Pool × ClusterGet} {kind : Kind}
    (h : ((w.settleCluster t m result).phase t).Lacks kind) :
    kind = .cluster ∧ ∀ cl, result.2 ≠ .got cl := by
  unfold World.settleCluster at h
  split at h
  · rcases h with h | h <;> simp [Phase.Waits] at h
  · next halloc =>
    rcases h with h | h
    · exact ⟨by simpa [Phase.Waits] using h, fun cl hcl ↦ by simp [halloc] at hcl⟩
    · simp at h
  · next hgave =>
    rcases h with h | h
    · simp [Phase.Waits] at h
    · exact ⟨by simpa using h.symm, fun cl hcl ↦ by simp [hgave] at hcl⟩

/-- **Where a task lacks an object behind its own section.**  The list is empty, or the task has
waited already and not supplied the kind itself. -/
theorem Moves.lacks {t : Task} {kind : Kind} (h : Moves w e w') (ht : e.actor = some t)
    (hlacks : (w'.phase t).Lacks kind) :
    w'.pool.freeList kind = [] ∨ (w.phase t).Waits kind ∧ e.supplies w ≠ some (t, kind) := by
  cases h with
  | plain _ _ hown => exact absurd hlacks (hown t kind ht)
  | rawGet =>
      obtain rfl := Option.some.inj ht
      obtain ⟨rfl, hnone⟩ := settleRaw_lacks hlacks
      obtain ⟨hempty, hfound⟩ := rawGetLocked_spec w.pool
      rw [settleRaw_pool]
      exact .inl (hempty .mbuf (hfound hnone))
  | clusterGet =>
      obtain rfl := Option.some.inj ht
      obtain ⟨rfl, hnone⟩ := settleCluster_lacks hlacks
      obtain ⟨hempty, hfound⟩ := clusterGetLocked_spec w.pool
      rw [settleCluster_pool]
      exact .inl (hempty .cluster (hfound hnone))
  | grow hphase =>
      obtain rfl := Option.some.inj ht
      obtain ⟨rfl, hnone⟩ := settleRaw_lacks hlacks
      refine .inr ⟨by rw [hphase]; rfl, fun hsupply ↦ ?_⟩
      simp [Event.supplies, hphase] at hsupply
  | clusterAlloc hphase =>
      obtain rfl := Option.some.inj ht
      obtain ⟨rfl, -⟩ := settleCluster_lacks hlacks
      exact .inr ⟨by rw [hphase]; rfl, by simp [Event.supplies, hphase]⟩
  | relock hphase =>
      obtain rfl := Option.some.inj ht
      rw [goTo_phase_self] at hlacks
      obtain rfl : Kind.mbuf = kind := by
        rcases hlacks with hwaits | hgave
        · exact hwaits.elim
        · simpa using hgave
      exact .inr ⟨by rw [hphase]; rfl, by simp [Event.supplies]⟩
  | put | push =>
      obtain rfl := Option.some.inj ht
      rw [goTo_phase_self] at hlacks
      rcases hlacks with hwaits | hgave
      · exact hwaits.elim
      · cases hgave

/-- **The second look.**  An allocation of a cluster whose memory is granted gives up with an empty
list only, whatever the other tasks have done meanwhile. -/
theorem clusterAlloc_gaveUp_freeList {t : Task} {cl : Addr}
    (h : exec w (.memory t (some cl)) = some w') (hgave : w'.phase t = .gaveUp .cluster) :
    w'.pool.freeList .cluster = [] := by
  cases exec_moves h with
  | plain _ _ hown => exact absurd (.inr hgave) (hown t .cluster rfl)
  | grow => cases (settleRaw_lacks (.inr hgave)).1
  | clusterAlloc =>
      rw [settleCluster_pool]
      refine (clusterAllocLocked_spec w.pool (some cl)).2 (Option.some_ne_none cl) ?_
      unfold World.settleCluster at hgave
      split at hgave
      · simp at hgave
      · simp at hgave
      · assumption

/-! ### Runs -/

/-- Whoever waits for an object of a kind waits with an empty free list. -/
def WaitsEmpty (w : World Task) : Prop :=
  ∀ t kind, (w.phase t).Waits kind → w.pool.freeList kind = []

/-- A section under the condition ends with an empty list wherever its task lacks an object. -/
theorem WaitsEmpty.lacks (hinv : WaitsEmpty w) {t : Task} {kind : Kind}
    (h : exec w e = some w') (ht : e.actor = some t) (hlacks : (w'.phase t).Lacks kind) :
    w'.pool.freeList kind = [] := by
  rcases (exec_moves h).lacks ht hlacks with hempty | ⟨hwaits, hsupply⟩
  · exact hempty
  · refine (exec_moves h).freeList (hinv t kind hwaits) fun t' hsupplies ↦ ?_
    obtain rfl : t = t' := Option.some.inj (ht.symm.trans (actor_of_supplies hsupplies))
    exact hsupply hsupplies

theorem WaitsEmpty.step (hinv : WaitsEmpty w) (hquiet : Quiet w e) (h : exec w e = some w') :
    WaitsEmpty w' := by
  intro t kind hwaits
  by_cases hactor : e.actor = some t
  · exact hinv.lacks h hactor (.inl hwaits)
  · rw [(exec_moves h).phase_of_ne hactor] at hwaits
    refine (exec_moves h).freeList (hinv t kind hwaits) fun t' hsupplies ↦ ?_
    have hne : t ≠ t' := by
      rintro rfl
      exact hactor (actor_of_supplies hsupplies)
    exact hquiet _ hsupplies t hne hwaits

/-- **An allocation gives up with an empty free list.**  In every run in which no section supplies
a kind that another task waits for, the free list of a kind is empty behind the section in which an
allocation of that kind gives up. -/
theorem gaveUp_freeList_empty
    (hreach : Interleaving.ReachableBy exec Quiet (· = World.start) w) {t : Task} {kind : Kind}
    (h : exec w e = some w') (hactor : e.actor = some t) (hgave : w'.phase t = .gaveUp kind) :
    w'.pool.freeList kind = [] := by
  have hinit : ∀ v : World Task, v = World.start → WaitsEmpty v := by
    rintro v rfl t kind hwaits
    exact hwaits.elim
  have hinv := hreach.invariant hinit fun v e v' hv hquiet he ↦ hv.step hquiet he
  exact hinv.lacks h hactor (.inr hgave)

/-- Two tasks ask for their first mbufs one after the other, in a pool of two; the second finds the
pool exhausted. -/
def exhaustingRun : List (Event Bool) :=
  [.init 2 1, .enter false .mbuf, .lock false, .memory false (some 4096), .enter false .mbuf,
    .lock false, .enter true .mbuf]

theorem gaveUp_freeList_empty_exhausted :
    ∃ w w' : World Bool, Interleaving.run exec World.start exhaustingRun = some w ∧
      exec w (.lock true) = some w' ∧ w'.phase true = .gaveUp .mbuf ∧
      w'.pool.freeList .mbuf = [] := by
  have hrun : ((Interleaving.run exec World.start exhaustingRun).bind fun w ↦
      exec w (.lock true)).any (fun w' ↦ decide (w'.phase true = .gaveUp .mbuf)) = true := by
    decide +kernel
  obtain ⟨w', hw', hgave⟩ := (Option.any_eq_true _ _).mp hrun
  obtain ⟨w, hw, hexec⟩ := Option.bind_eq_some_iff.mp hw'
  have hmeets : Interleaving.Meets exec Quiet (World.start : World Bool) exhaustingRun := by
    decide +kernel
  have hgave := of_decide_eq_true hgave
  exact ⟨w, w', hw, hexec, hgave,
    gaveUp_freeList_empty ⟨_, _, rfl, hmeets, hw⟩ hexec rfl hgave⟩

/-- Both tasks find the list empty and ask for a slab.  One is served and takes one of the mbufs of
its slab; the memory of the other is refused. -/
def racingRun : List (Event Bool) :=
  [.init 64 1, .enter false .mbuf, .enter true .mbuf, .lock false, .lock true,
    .memory false (some 4096)]

/-- **Thirty-one free mbufs, and the allocation gives up.** -/
theorem rawGet_gives_up_beside_free_mbufs :
    ∃ w w' : World Bool, Interleaving.run exec World.start racingRun = some w ∧
      exec w (.memory true none) = some w' ∧ w'.phase true = .gaveUp .mbuf ∧
      (w'.pool.freeList .mbuf).length = 31 := by
  have hrun : ((Interleaving.run exec World.start racingRun).bind fun w ↦
      exec w (.memory true none)).any (fun w' ↦ decide (w'.phase true = .gaveUp .mbuf ∧
        (w'.pool.freeList .mbuf).length = 31)) = true := by
    decide +kernel
  obtain ⟨w', hw', hgave⟩ := (Option.any_eq_true _ _).mp hrun
  obtain ⟨w, hw, hexec⟩ := Option.bind_eq_some_iff.mp hw'
  exact ⟨w, w', hw, hexec, of_decide_eq_true hgave⟩

end AmiNetXDuo.Mbuf
