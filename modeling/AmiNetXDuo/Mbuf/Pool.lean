import AmiNetXDuo.Lib.Interleaving
import Mathlib.Data.List.Basic
import Mathlib.Logic.Function.Basic

/-!
# The mbuf pool of `mbuf_alloc.c`

Mbufs are carved out of slabs and kept on a free list, clusters are allocated one by one, counted
by their references and kept on a list of their own.  The lists and the counters are changed under
a lock, which is down while memory is asked for: the functions below are the sections between
taking the lock and dropping it, and the tasks of `World` interleave them.

A task that has an mbuf may free it, hang a cluster on it or share the cluster of another of its
mbufs, and may hand it to another task.

## Main definitions

* `Pool` : the lists and the counters.
* `rawGetLocked`, `growLocked`, `clusterGetLocked`, `clusterAllocLocked`, `clusterPutLocked`,
  `mbufPutLocked`, `extRefLocked` : the sections.
* `World`, `Event`, `exec` : tasks that run them.
-/

namespace AmiNetXDuo.Mbuf

/-- An address; objects are named by theirs. -/
abbrev Addr := Nat

/-- `MSIZE`. -/
def msize : Nat := 128

/-- `AMI_MBUF_SLAB_COUNT`. -/
def slabCount : Nat := 32

/-- `AMI_MBUF_DEFAULT_MBUFS`. -/
def defaultMbufs : Nat := 256

/-- `AMI_MBUF_DEFAULT_CLUSTERS`. -/
def defaultClusters : Nat := 16

/-- `AMI_MBUF_CLUSTER_CACHE`. -/
def clusterCache : Nat := 4

/-- The size of `AmiMbufSlab`. -/
def slabHeader : Nat := 8

/-- A block that mbufs are carved out of. -/
structure Slab where
  raw : Addr
  count : Nat
  deriving DecidableEq, Repr

/-- The first mbuf of a slab, behind its header and rounded up to `MSIZE`. -/
def Slab.base (slab : Slab) : Addr :=
  let base := slab.raw + slabHeader
  if base % msize ≠ 0 then base + (msize - base % msize) else base

/-- The mbufs of a slab. -/
def Slab.mbufs (slab : Slab) : List Addr :=
  (List.range slab.count).map fun i ↦ slab.base + i * msize

/-- `AmiMbufPool`, with the reference counts that the clusters keep. -/
structure Pool where
  inited : Bool
  slabs : List Slab
  freeMbufs : List Addr
  mbufsTotal : Nat
  mbufsFree : Nat
  maxMbufs : Nat
  clustersAll : List Addr
  clustersFree : List Addr
  refcnt : Addr → Nat
  clustersTotal : Nat
  clustersFreeCount : Nat
  clustersCached : Nat
  maxClusters : Nat
  drops : Nat

/-- The pool before `ami_mbuf_init`. -/
def Pool.blank : Pool where
  inited := false
  slabs := []
  freeMbufs := []
  mbufsTotal := 0
  mbufsFree := 0
  maxMbufs := 0
  clustersAll := []
  clustersFree := []
  refcnt := fun _ ↦ 0
  clustersTotal := 0
  clustersFreeCount := 0
  clustersCached := 0
  maxClusters := 0
  drops := 0

/-- The mbufs of all slabs. -/
def Pool.mbufs (p : Pool) : List Addr := p.slabs.flatMap Slab.mbufs

/-- One more drop. -/
def Pool.drop (p : Pool) : Pool := { p with drops := p.drops + 1 }

/-! ### Initialisation -/

/-- `ami_mbuf_init`, and whether it answers `0`. -/
def amiMbufInit (p : Pool) (maxMbufs maxClusters : Nat) : Pool × Bool :=
  let maxMbufs := if maxMbufs = 0 then defaultMbufs else maxMbufs
  let maxClusters := if maxClusters = 0 then defaultClusters else maxClusters
  if p.inited then (p, p.maxMbufs = maxMbufs ∧ p.maxClusters = maxClusters)
  else ({ p with maxMbufs, maxClusters, inited := true }, true)

/-- `ami_mbuf_ensure_init`. -/
def amiMbufEnsureInit (p : Pool) : Pool := if p.inited then p else (amiMbufInit p 0 0).1

/-! ### Mbufs -/

/-- How a section of `ami_mbuf_raw_get` ends: with an mbuf, with the lock down to ask for a slab of
so many, with the lock down to give a slab back, or without an mbuf. -/
inductive RawGet
  | got (m : Addr)
  | grow (want : Nat)
  | release
  | gaveUp
  deriving DecidableEq, Repr

/-- The slab joins the pool, its mbufs the free list. -/
def Pool.carve (p : Pool) (slab : Slab) : Pool :=
  { p with
    slabs := slab :: p.slabs
    freeMbufs := slab.mbufs.reverse ++ p.freeMbufs
    mbufsTotal := p.mbufsTotal + slab.count
    mbufsFree := p.mbufsFree + slab.count }

/-- The end of `ami_mbuf_raw_get`: one mbuf off the list. -/
def takeMbuf (p : Pool) : Pool × RawGet :=
  match p.freeMbufs with
  | [] => (p.drop, .gaveUp)
  | m :: rest => ({ p with freeMbufs := rest, mbufsFree := p.mbufsFree - 1 }, .got m)

/-- `ami_mbuf_raw_get` and the start of `ami_mbuf_grow`, up to where the lock goes down. -/
def rawGetLocked (p : Pool) : Pool × RawGet :=
  match p.freeMbufs with
  | [] =>
      let want := p.maxMbufs - p.mbufsTotal
      if want = 0 then (p.drop, .gaveUp)
      else if want > slabCount then (p, .grow slabCount)
      else (p, .grow want)
  | _ :: _ => takeMbuf p

/-- The rest of `ami_mbuf_grow` and of `ami_mbuf_raw_get`, with the answer to the request. -/
def growLocked (p : Pool) (want : Nat) : Option Addr → Pool × RawGet
  | none => (p.drop, .gaveUp)
  | some raw =>
      -- another task can have grown the pool while the lock was down
      if p.mbufsTotal + want > p.maxMbufs then
        if p.maxMbufs - p.mbufsTotal = 0 then (p, .release)
        else takeMbuf (p.carve ⟨raw, p.maxMbufs - p.mbufsTotal⟩)
      else takeMbuf (p.carve ⟨raw, want⟩)

/-- The end of `ami_mbuf_free`. -/
def mbufPutLocked (p : Pool) (m : Addr) : Pool :=
  { p with freeMbufs := m :: p.freeMbufs, mbufsFree := p.mbufsFree + 1 }

/-! ### Clusters -/

/-- How a section of `ami_mbuf_cluster_get` ends: with a cluster, with the lock down to ask for
one, or without. -/
inductive ClusterGet
  | got (cl : Addr)
  | alloc
  | gaveUp
  deriving DecidableEq, Repr

/-- One cluster off the free list, with its first reference. -/
def takeCluster (p : Pool) : Option (Pool × Addr) :=
  match p.clustersFree with
  | [] => none
  | cl :: rest =>
      some ({ p with
        clustersFree := rest
        clustersFreeCount := p.clustersFreeCount - 1
        clustersCached := p.clustersCached - 1
        refcnt := Function.update p.refcnt cl 1 }, cl)

/-- `ami_mbuf_cluster_get` up to where the lock goes down. -/
def clusterGetLocked (p : Pool) : Pool × ClusterGet :=
  match takeCluster p with
  | some (p', cl) => (p', .got cl)
  | none =>
      if p.clustersTotal ≥ p.maxClusters then (p.drop, .gaveUp)
      else (p, .alloc)

/-- The rest of `ami_mbuf_cluster_get`, with the answer to the request. -/
def clusterAllocLocked (p : Pool) : Option Addr → Pool × ClusterGet
  | none => (p.drop, .gaveUp)
  | some cl =>
      if p.clustersTotal ≥ p.maxClusters then
        match takeCluster p with
        | some (p', pooled) => (p', .got pooled)
        | none => (p.drop, .gaveUp)
      else
        ({ p with
          refcnt := Function.update p.refcnt cl 1
          clustersAll := cl :: p.clustersAll
          clustersTotal := p.clustersTotal + 1 }, .got cl)

/-- `ami_mbuf_cluster_put`. -/
def clusterPutLocked (p : Pool) (cl : Addr) : Pool :=
  let p := { p with refcnt := Function.update p.refcnt cl (p.refcnt cl - 1) }
  if p.refcnt cl = 0 then
    { p with
      clustersFree := cl :: p.clustersFree
      clustersFreeCount := p.clustersFreeCount + 1
      clustersCached :=
        if p.clustersCached < clusterCache then p.clustersCached + 1 else p.clustersCached }
  else p

/-- `ami_mbuf_ext_ref`, for a cluster of the pool. -/
def extRefLocked (p : Pool) (cl : Addr) : Pool :=
  if cl ∈ p.clustersAll then { p with refcnt := Function.update p.refcnt cl (p.refcnt cl + 1) }
  else p

/-! ### Tasks -/

/-- What can be asked of the pool, and run out. -/
inductive Kind
  | mbuf | cluster
  deriving DecidableEq, Repr

/-- The free list of a kind. -/
def Pool.freeList (p : Pool) : Kind → List Addr
  | .mbuf => p.freeMbufs
  | .cluster => p.clustersFree

/-- `ami_mbuf_get` or `ami_mbuf_gethdr`, or `ami_mbuf_clget` of an mbuf. -/
inductive Request
  | mbuf
  | cluster (m : Addr)
  deriving DecidableEq, Repr

/-- Where a task stands between two sections. -/
inductive Phase
  | idle
  /-- Behind `ami_mbuf_ensure_init`, in front of the lock. -/
  | entered (req : Request)
  /-- The lock is down for a slab of so many mbufs. -/
  | growing (want : Nat)
  /-- The lock is down to give a slab back. -/
  | releasing
  /-- The lock is down for a cluster. -/
  | clusterAlloc (m : Addr)
  /-- The cluster is there, and `m_ext` not filled in. -/
  | clusterHeld (m cl : Addr)
  /-- In `ami_mbuf_copym`, between `m_ext` of the copy and `ami_mbuf_ext_ref`. -/
  | sharing (n cl : Addr)
  /-- In `ami_mbuf_ext_unref`, with `m_ext` cleared. -/
  | unreferencing (m cl : Addr)
  /-- In `ami_mbuf_free`, in front of the free list. -/
  | freeing (m : Addr)
  /-- An allocation has given up and returns `NULL`. -/
  | gaveUp (kind : Kind)
  deriving DecidableEq, Repr

/-- The pool, the clusters that the mbufs point at, the tasks that have them and where the tasks
stand. -/
structure World (Task : Type) where
  pool : Pool
  /-- `m_ext.ext_buf`, of an mbuf with `M_EXT` set. -/
  ext : Addr → Option Addr
  holder : Addr → Option Task
  phase : Task → Phase

/-- Nothing has been asked of the pool. -/
def World.start {Task : Type} : World Task where
  pool := .blank
  ext := fun _ ↦ none
  holder := fun _ ↦ none
  phase := fun _ ↦ .idle

/-- A section of a task, or what the system answers it. -/
inductive Event (Task : Type)
  | init (maxMbufs maxClusters : Nat)
  | enter (t : Task) (req : Request)
  | lock (t : Task)
  /-- The answer of `ami_alloc`, and the section behind it. -/
  | memory (t : Task) (block : Option Addr)
  | relock (t : Task)
  | giveUp (t : Task)
  | attach (t : Task)
  | share (t : Task) (n m : Addr)
  | count (t : Task)
  | free (t : Task) (m : Addr)
  | put (t : Task)
  | push (t : Task)
  | handOver (t t' : Task) (m : Addr)
  deriving DecidableEq, Repr

section Exec

variable {Task : Type} [DecidableEq Task]

/-- The task goes on to another phase. -/
def World.goTo (w : World Task) (t : Task) (phase : Phase) : World Task :=
  { w with phase := Function.update w.phase t phase }

/-- Behind a section of `ami_mbuf_raw_get`. -/
def World.settleRaw (w : World Task) (t : Task) (result : Pool × RawGet) : World Task :=
  match result.2 with
  | .got m =>
      { pool := result.1
        ext := Function.update w.ext m none
        holder := Function.update w.holder m (some t)
        phase := Function.update w.phase t .idle }
  | .grow want => { w with pool := result.1 }.goTo t (.growing want)
  | .release => { w with pool := result.1 }.goTo t .releasing
  | .gaveUp => { w with pool := result.1 }.goTo t (.gaveUp .mbuf)

/-- Behind a section of `ami_mbuf_cluster_get`. -/
def World.settleCluster (w : World Task) (t : Task) (m : Addr) (result : Pool × ClusterGet) :
    World Task :=
  match result.2 with
  | .got cl => { w with pool := result.1 }.goTo t (.clusterHeld m cl)
  | .alloc => { w with pool := result.1 }.goTo t (.clusterAlloc m)
  | .gaveUp => { w with pool := result.1 }.goTo t (.gaveUp .cluster)

/-- A request that a task can make: a cluster is hung on an mbuf of its own that has none. -/
def World.Admits (w : World Task) (t : Task) : Request → Prop
  | .mbuf => True
  | .cluster m => w.holder m = some t ∧ w.ext m = none

instance (w : World Task) (t : Task) : ∀ req, Decidable (w.Admits t req)
  | .mbuf => isTrue trivial
  | .cluster _ => inferInstanceAs (Decidable (_ ∧ _))

/-- Memory that is handed out overlaps no mbuf of the pool. -/
def Pool.FreshSlab (p : Pool) (want : Nat) (block : Option Addr) : Prop :=
  ∀ raw ∈ block, ∀ m ∈ (Slab.mk raw want).mbufs, m ∉ p.mbufs

instance (p : Pool) (want : Nat) : ∀ block, Decidable (p.FreshSlab want block)
  | none => isTrue (by simp [Pool.FreshSlab])
  | some raw =>
      decidable_of_iff (∀ m ∈ (Slab.mk raw want).mbufs, m ∉ p.mbufs) (by simp [Pool.FreshSlab])

/-- One section. -/
def exec (w : World Task) : Event Task → Option (World Task)
  | .init maxMbufs maxClusters =>
      some { w with pool := (amiMbufInit w.pool maxMbufs maxClusters).1 }
  | .enter t req =>
      if w.phase t = .idle ∧ w.Admits t req then
        some ({ w with pool := amiMbufEnsureInit w.pool }.goTo t (.entered req))
      else none
  | .lock t =>
      match w.phase t with
      | .entered .mbuf => some (w.settleRaw t (rawGetLocked w.pool))
      | .entered (.cluster m) => some (w.settleCluster t m (clusterGetLocked w.pool))
      | _ => none
  | .memory t block =>
      match w.phase t with
      | .growing want =>
          if w.pool.FreshSlab want block then
            some (w.settleRaw t (growLocked w.pool want block))
          else none
      | .clusterAlloc m =>
          if ∀ cl ∈ block, cl ∉ w.pool.clustersAll then
            some (w.settleCluster t m (clusterAllocLocked w.pool block))
          else none
      | _ => none
  | .relock t =>
      if w.phase t = .releasing then
        some ({ w with pool := w.pool.drop }.goTo t (.gaveUp .mbuf))
      else none
  | .giveUp t =>
      match w.phase t with
      | .gaveUp _ => some (w.goTo t .idle)
      | _ => none
  | .attach t =>
      match w.phase t with
      | .clusterHeld m cl => some ({ w with ext := Function.update w.ext m (some cl) }.goTo t .idle)
      | _ => none
  | .share t n m =>
      match w.ext m with
      | some cl =>
          if w.phase t = .idle ∧ w.holder n = some t ∧ w.holder m = some t ∧ w.ext n = none then
            some ({ w with ext := Function.update w.ext n (some cl) }.goTo t (.sharing n cl))
          else none
      | none => none
  | .count t =>
      match w.phase t with
      | .sharing _ cl => some ({ w with pool := extRefLocked w.pool cl }.goTo t .idle)
      | _ => none
  | .free t m =>
      if w.phase t = .idle ∧ w.holder m = some t then
        match w.ext m with
        | some cl =>
            some ({ w with ext := Function.update w.ext m none }.goTo t (.unreferencing m cl))
        | none => some (w.goTo t (.freeing m))
      else none
  | .put t =>
      match w.phase t with
      | .unreferencing m cl =>
          some ({ w with pool := clusterPutLocked w.pool cl }.goTo t (.freeing m))
      | _ => none
  | .push t =>
      match w.phase t with
      | .freeing m =>
          some ({ w with
            pool := mbufPutLocked w.pool m
            holder := Function.update w.holder m none }.goTo t .idle)
      | _ => none
  | .handOver t t' m =>
      if w.phase t = .idle ∧ w.holder m = some t then
        some { w with holder := Function.update w.holder m (some t') }
      else none

end Exec

end AmiNetXDuo.Mbuf
