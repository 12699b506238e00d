import AmiNetXDuo.Basic
import Mathlib.Data.List.Count
import Mathlib.Tactic.SplitIfs

/-!
# Descriptor tables

Every opener of `bsdsocket.library` has its own base with a table of descriptors.  A slot of the
table is empty, reserved for a descriptor of somebody else, busy while a callback runs, or names a
socket.  The opener may veto every allocation and every release through `SBTC_FDCALLBACK`.

## Main definitions

* `Slot`, `SocketBase` : a slot, and what a base keeps.
* `bsdLookup` : the socket of a descriptor.
* `bsdFdAlloc`, `bsdFdFree` : taking a descriptor and giving it back.
* `SocketBase.refs` : how many descriptors of a base name a socket.
* `Env.RefusesNone` : when an allocation that fails leaves no slot reserved.

## Main results

* `refs_bsdFdAlloc`, `bsdFdAlloc_fail` : what an allocation does to the descriptors.
* `bsdFdFree_ok`, `bsdFdFree_fail` : what a release does to them.
-/

namespace AmiNetXDuo.BsdSocket

/-- A slot of `sb_Table`: `NULL`, `BSD_FD_RESERVED`, `BSD_FD_BUSY` or a socket. -/
inductive Slot where
  | empty
  | reserved
  | busy
  | socket (s : Nat)
  deriving DecidableEq, Repr

/-- The socket a slot names, if it names one. -/
def Slot.socket? : Slot → Option Nat
  | .socket s => some s
  | _ => none

@[simp] theorem Slot.socket?_eq_some {a : Slot} {s : Nat} :
    a.socket? = some s ↔ a = .socket s := by
  rcases a with _ | _ | _ | t <;> simp [Slot.socket?]

/-- `struct AmiSocketBase`, as far as descriptors go. -/
structure SocketBase where
  /-- `sb_Table`, as long as `sb_TableSize`. -/
  table : Option (List Slot)
  /-- `sb_Errno`. -/
  errno : Int
  /-- `sb_Task != NULL`. -/
  hasTask : Bool
  /-- `sb_Fam23`. -/
  fam23 : Bool
  deriving DecidableEq, Repr

/-- What memory and the opener's callback answer during one call: whether an allocation succeeds,
and the result of `FDCB_CHECK`, `FDCB_ALLOC` and `FDCB_FREE` for a descriptor, all zero when no
callback is installed. -/
structure Env where
  allocEntry : Bool
  allocTable : Bool
  fdCheck : Nat → Int
  fdAlloc : Nat → Int
  fdFree : Nat → Int

/-- `BSD_DEFAULT_DTABLESIZE`. -/
def defaultDtablesize : Nat := 64

/-- `AMI_EBADF`. -/
def ebadf : Int := 9

/-- `AMI_ENOMEM`. -/
def enomem : Int := 12

/-- `AMI_EBUSY`. -/
def ebusy : Int := 16

/-- `AMI_EINVAL`. -/
def einval : Int := 22

/-- `AMI_EMFILE`. -/
def emfile : Int := 24

/-- `bsd_fail()`. -/
def bsdFail (b : SocketBase) (code : Int) : Int × SocketBase :=
  (-1, { b with errno := code })

/-- The slots of a base, none when it has no table. -/
def SocketBase.slots (b : SocketBase) : List Slot := b.table.getD []

/-- `bsd_fd_peek()`. -/
def bsdFdPeek (b : SocketBase) (fd : Int) : Slot :=
  if 0 ≤ fd then b.slots.getD fd.toNat .empty else .empty

/-- `bsd_lookup()`. -/
def bsdLookup (b : SocketBase) (fd : Int) : Option Nat := (bsdFdPeek b fd).socket?

/-- `bsd_table_ensure()`: the base with a table, or nothing when there is no memory for one. -/
def bsdTableEnsure (env : Env) (b : SocketBase) : Option SocketBase :=
  match b.table with
  | some _ => some b
  | none =>
    if env.allocTable then
      some { b with table := some (List.replicate defaultDtablesize .empty) }
    else none

/-- The loop of `bsd_fd_alloc()` from descriptor `fd` on: the table it leaves, and the descriptor
or the error. -/
def fdAllocFrom (env : Env) (s : Nat) : Nat → List Slot → List Slot × Except Int Nat
  | _, [] => ([], .error emfile)
  | fd, .empty :: t =>
    if env.fdCheck fd ≠ 0 then
      (.reserved :: (fdAllocFrom env s (fd + 1) t).1, (fdAllocFrom env s (fd + 1) t).2)
    else if env.fdAlloc fd ≠ 0 then (.empty :: t, .error (env.fdAlloc fd))
    else (.socket s :: t, .ok fd)
  | fd, a :: t => (a :: (fdAllocFrom env s (fd + 1) t).1, (fdAllocFrom env s (fd + 1) t).2)

/-- `bsd_fd_alloc()`. -/
def bsdFdAlloc (env : Env) (b : SocketBase) (s : Nat) : Int × SocketBase :=
  match bsdTableEnsure env b with
  | none => bsdFail b emfile
  | some b' =>
    match fdAllocFrom env s 0 b'.slots with
    | (t, .error e) => bsdFail { b' with table := some t } e
    | (t, .ok fd) => (fd, { b' with table := some t })

/-- `bsd_fd_free()`.  The slot is busy while the callback runs, and what was there is put back
when the callback refuses. -/
def bsdFdFree (env : Env) (b : SocketBase) (fd : Int) : Int × SocketBase :=
  match bsdFdPeek b fd with
  | .empty => (0, b)
  | .busy => bsdFail b ebusy
  | _ =>
    if env.fdFree fd.toNat ≠ 0 then bsdFail b (env.fdFree fd.toNat)
    else (0, { b with table := b.table.map fun t ↦ t.set fd.toNat .empty })

/-- The number of descriptors of a base that name socket `s`. -/
def SocketBase.refs (b : SocketBase) (s : Nat) : Nat := b.slots.count (.socket s)

/-! ### What one descriptor operation does -/

@[simp] theorem bsdFail_fst (b : SocketBase) (code : Int) : (bsdFail b code).1 = -1 := rfl

@[simp] theorem slots_bsdFail (b : SocketBase) (code : Int) :
    (bsdFail b code).2.slots = b.slots := rfl

/-- The tables of two bases are the same, slot by slot; no table is one of empty slots. -/
def SameDescriptors (b b' : SocketBase) : Prop :=
  (∀ fd, bsdFdPeek b' fd = bsdFdPeek b fd) ∧ ∀ s, b'.refs s = b.refs s

theorem SameDescriptors.refl (b : SocketBase) : SameDescriptors b b :=
  ⟨fun _ ↦ rfl, fun _ ↦ rfl⟩

theorem SameDescriptors.trans {a b c : SocketBase} (h : SameDescriptors a b)
    (h' : SameDescriptors b c) : SameDescriptors a c :=
  ⟨fun fd ↦ (h'.1 fd).trans (h.1 fd), fun s ↦ (h'.2 s).trans (h.2 s)⟩

theorem sameDescriptors_of_slots {b b' : SocketBase} (h : b'.slots = b.slots) :
    SameDescriptors b b' := by
  constructor
  · intro fd
    simp only [bsdFdPeek, h]
  · intro s
    simp only [SocketBase.refs, h]

theorem sameDescriptors_bsdFail (b : SocketBase) (code : Int) :
    SameDescriptors b (bsdFail b code).2 :=
  sameDescriptors_of_slots rfl

/-- A new table is one of empty slots. -/
theorem sameDescriptors_bsdTableEnsure {env : Env} {b b' : SocketBase}
    (h : bsdTableEnsure env b = some b') : SameDescriptors b b' := by
  rcases ht : b.table with _ | t <;> simp only [bsdTableEnsure, ht] at h
  · split_ifs at h
    obtain rfl := Option.some.inj h
    constructor
    · intro fd
      simp only [bsdFdPeek, SocketBase.slots, ht, Option.getD_some, Option.getD_none]
      split_ifs
      · rcases Nat.lt_or_ge fd.toNat defaultDtablesize with hlt | hge
        · simp [List.getD_eq_getElem?_getD, hlt]
        · simp [List.getD_eq_getElem?_getD, hge]
      · rfl
    · intro s
      simp [SocketBase.refs, SocketBase.slots, ht, List.count_replicate]
  · obtain rfl := Option.some.inj h
    exact .refl b

/-- A descriptor that is given out is one more slot that names the socket; an error leaves the
number of slots that name one as it was. -/
theorem fdAllocFrom_count {env : Env} {s : Nat} {t t' : List Slot} {fd : Nat} {r : Except Int Nat}
    (h : fdAllocFrom env s fd t = (t', r)) (x : Nat) :
    t'.count (.socket x) = t.count (.socket x) + if r.isOk ∧ x = s then 1 else 0 := by
  induction t generalizing fd t' with
  | nil =>
    obtain ⟨rfl, rfl⟩ := Prod.mk.inj h
    rfl
  | cons a t ih =>
    rcases hr : fdAllocFrom env s (fd + 1) t with ⟨u, r'⟩
    rcases a with _ | _ | _ | y <;> simp only [fdAllocFrom, hr] at h
    · split_ifs at h <;> obtain ⟨rfl, rfl⟩ := Prod.mk.inj h
      · simpa using ih hr
      · simp [Except.isOk, Except.toBool]
      · rcases eq_or_ne x s with rfl | hx
        · simp [Except.isOk, Except.toBool]
        · simp [hx, hx.symm]
    all_goals
      obtain ⟨rfl, rfl⟩ := Prod.mk.inj h
      have := ih hr
      simp only [List.count_cons, this]
      omega

/-- The empty slots of a table, from descriptor `fd` on. -/
def freeFrom : Nat → List Slot → List Nat
  | _, [] => []
  | fd, .empty :: t => fd :: freeFrom (fd + 1) t
  | fd, _ :: t => freeFrom (fd + 1) t

/-- Where the first empty slot passes `FDCB_CHECK`, an error leaves the table as it was. -/
theorem fdAllocFrom_error {env : Env} {s : Nat} {t t' : List Slot} {fd : Nat} {e : Int}
    (h : fdAllocFrom env s fd t = (t', .error e))
    (hfirst : ∀ g, (freeFrom fd t).head? = some g → env.fdCheck g = 0) : t' = t := by
  induction t generalizing fd t' with
  | nil => exact (Prod.mk.inj h).1.symm
  | cons a t ih =>
    rcases hr : fdAllocFrom env s (fd + 1) t with ⟨u, r⟩
    rcases a with _ | _ | _ | x <;> simp only [fdAllocFrom, hr] at h
    · rw [if_neg (not_not.mpr (hfirst fd rfl))] at h
      split_ifs at h
      · exact (Prod.mk.inj h).1.symm
      · simp at h
    all_goals
      obtain ⟨rfl, rfl⟩ := Prod.mk.inj h
      rw [ih hr hfirst]

/-- Where the first slot to pass `FDCB_CHECK` is given out, there is no error. -/
theorem fdAllocFrom_isOk {env : Env} {s : Nat} {t t' : List Slot} {fd g : Nat} {r : Except Int Nat}
    (h : fdAllocFrom env s fd t = (t', r))
    (hpass : (freeFrom fd t).find? (fun g ↦ env.fdCheck g = 0) = some g)
    (halloc : env.fdAlloc g = 0) : r.isOk = true := by
  induction t generalizing fd t' with
  | nil => cases hpass
  | cons a t ih =>
    rcases hr : fdAllocFrom env s (fd + 1) t with ⟨u, r'⟩
    rcases a with _ | _ | _ | x <;> simp only [fdAllocFrom, hr] at h
    · by_cases hcheck : env.fdCheck fd = 0
      · obtain rfl : fd = g := by simpa [freeFrom, hcheck] using hpass
        rw [if_neg (not_not.mpr hcheck), if_neg (not_not.mpr halloc)] at h
        obtain ⟨-, rfl⟩ := Prod.mk.inj h
        rfl
      · rw [if_pos hcheck] at h
        obtain ⟨-, rfl⟩ := Prod.mk.inj h
        exact ih hr (by simpa [freeFrom, hcheck] using hpass)
    all_goals
      obtain ⟨-, rfl⟩ := Prod.mk.inj h
      exact ih hr hpass

/-- `FDCB_CHECK` refuses no slot for a call that fails: the first empty slot passes it, or the first
to pass is given out. -/
def Env.RefusesNone (env : Env) (t : List Slot) : Prop :=
  ∀ fd, (freeFrom 0 t).head? = some fd → env.fdCheck fd ≠ 0 →
    ∃ g, (freeFrom 0 t).find? (fun g ↦ env.fdCheck g = 0) = some g ∧ env.fdAlloc g = 0

/-- What an allocation does to the number of descriptors that name a socket. -/
theorem refs_bsdFdAlloc (env : Env) (b : SocketBase) (s x : Nat) :
    (bsdFdAlloc env b s).2.refs x =
      b.refs x + if 0 ≤ (bsdFdAlloc env b s).1 ∧ x = s then 1 else 0 := by
  rcases hb : bsdTableEnsure env b with _ | b'
  · simp only [bsdFdAlloc, hb]
    rfl
  · have hens := sameDescriptors_bsdTableEnsure hb
    rcases hr : fdAllocFrom env s 0 b'.slots with ⟨t, r⟩
    have hcount := fdAllocFrom_count hr x
    rcases r with e | fd <;> simp only [bsdFdAlloc, hb, hr] <;> rw [← hens.2 x]
    · exact hcount
    · simpa [Except.isOk, Except.toBool, SocketBase.refs, SocketBase.slots] using hcount

/-- **A failed allocation.** It leaves the table as it was, unless slots have been refused. -/
theorem bsdFdAlloc_fail {env : Env} {b : SocketBase} {s : Nat} (h : (bsdFdAlloc env b s).1 < 0)
    (hchecks : ∀ b', bsdTableEnsure env b = some b' → env.RefusesNone b'.slots) :
    SameDescriptors b (bsdFdAlloc env b s).2 := by
  rcases hb : bsdTableEnsure env b with _ | b'
  · simp only [bsdFdAlloc, hb]
    exact sameDescriptors_bsdFail b emfile
  · rcases hr : fdAllocFrom env s 0 b'.slots with ⟨t, e | fd⟩ <;>
      simp only [bsdFdAlloc, hb, hr] at h ⊢
    · have ht : t = b'.slots := by
        refine fdAllocFrom_error hr fun g hg ↦ ?_
        by_contra hcheck
        obtain ⟨g', hpass, halloc⟩ := hchecks b' hb g hg hcheck
        cases fdAllocFrom_isOk hr hpass halloc
      exact (sameDescriptors_bsdTableEnsure hb).trans (sameDescriptors_of_slots ht)
    · exact absurd h (by omega)

/-- **A refused release.** It leaves every descriptor as it was. -/
theorem bsdFdFree_fail {env : Env} {b : SocketBase} {fd : Int}
    (h : (bsdFdFree env b fd).1 ≠ 0) : SameDescriptors b (bsdFdFree env b fd).2 := by
  rcases hp : bsdFdPeek b fd with _ | _ | _ | s <;> simp only [bsdFdFree, hp] at h ⊢
  · exact .refl b
  · split_ifs at h ⊢ with hc
    · exact sameDescriptors_bsdFail _ _
    · simp at h
  · exact sameDescriptors_bsdFail _ _
  · split_ifs at h ⊢ with hc
    · exact sameDescriptors_bsdFail _ _
    · simp at h

theorem count_set_empty {t : List Slot} {i s : Nat} (h : t.getD i .empty = .socket s) (x : Nat) :
    (t.set i .empty).count (.socket x) + (if x = s then 1 else 0) = t.count (.socket x) := by
  induction t generalizing i with
  | nil => simp at h
  | cons a t ih =>
    rcases i with _ | i
    · obtain rfl : a = .socket s := by simpa using h
      rcases eq_or_ne x s with rfl | hx
      · simp
      · simp [hx, hx.symm]
    · have := ih (i := i) (by simpa using h)
      simp only [List.set_cons_succ, List.count_cons]
      omega

/-- **A descriptor given back.** It is one fewer that names its socket. -/
theorem bsdFdFree_ok {env : Env} {b : SocketBase} {fd : Int} {s : Nat}
    (hl : bsdLookup b fd = some s) (h : (bsdFdFree env b fd).1 = 0) (x : Nat) :
    (bsdFdFree env b fd).2.refs x + (if x = s then 1 else 0) = b.refs x := by
  have hp : bsdFdPeek b fd = .socket s := Slot.socket?_eq_some.mp hl
  by_cases hc : env.fdFree fd.toNat = 0
  swap
  · simp [bsdFdFree, hp, hc] at h
  simp only [bsdFdFree, hp, hc, ne_eq, not_true, if_false]
  simp only [bsdFdPeek] at hp
  split_ifs at hp with h0
  rcases ht : b.table with _ | t
  · simp [SocketBase.slots, ht] at hp
  · simp only [SocketBase.slots, ht, Option.getD_some] at hp
    simp only [SocketBase.refs, SocketBase.slots, ht, Option.map_some, Option.getD_some]
    exact count_set_empty hp x

end AmiNetXDuo.BsdSocket
