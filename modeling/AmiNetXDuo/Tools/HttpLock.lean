import AmiNetXDuo.Lib.Interleaving
import AmiNetXDuo.Tools.HttpPath

/-!
# The WebDAV lock table

The table of `httplock.c` and the two methods of `httpd.c` that change it. A lock covers the path it
was taken on and, if it is deep, everything below. A lock that has expired is swept out when
somebody asks next.

`httplock_on()` gives one lock that covers a path, the first in the table. A LOCK asks it whether
its path is covered already, but it does not ask whether a lock lies below a path that is locked
deep; so one path can be covered by the locks of two clients.

## Main definitions

* `HttpLock`, `LockTable` : a lock, and the table.
* `httplockOn`, `httplockExact`, `httplockByToken`, `httplockAllows`, `httplockAllowsTree`.
* `httpdDoLock`, `httpdDoUnlock` : the methods.
* `LockSys`, `lockExec` : the server with its clock, under any requests.
* `lockApart` : a LOCK that is let pass meets no lock but the path's own.

## Main results

* `comparable_of_within` : of two paths above one path, one is above the other.
* `lockInv_step` : what every step preserves where each LOCK is apart.
* `locks_exclusive_of_apart` : what then holds in every run, and the step that ends it.
* `locks_shared` : in general a path can be covered twice.
-/

namespace AmiNetXDuo.Tools

open Interleaving

/-! ### The table -/

/-- `HTTPD_LOCK_MAX`. -/
def httpdLockMax : Nat := 8

/-- `HTTPD_LOCK_DEF`. -/
def httpdLockDef : Nat := 180

/-- `HTTPD_LOCK_CAP`. -/
def httpdLockCap : Nat := 3600

/-- `HttpLock`. -/
structure HttpLock where
  path : List UInt8
  token : List UInt8
  expires : Nat
  timeout : Nat
  depth : Bool
  used : Bool
  deriving DecidableEq, Repr

/-- `httplock_table`. -/
abbrev LockTable := Fin httpdLockMax → HttpLock

instance : NeZero httpdLockMax := ⟨by decide⟩

/-- `hl_path_equal()`. -/
def hlPathEqual (a b : List UInt8) : Bool := httpPathWithin a b && httpPathWithin b a

/-- `httplock_expire()`. -/
def httplockExpire (t : LockTable) (now : Nat) : LockTable := fun i ↦
  if (t i).used ∧ (t i).expires ≤ now then { t i with used := false } else t i

/-- `httplock_covers()`. -/
def httplockCovers (l : HttpLock) (path : List UInt8) : Bool :=
  hlPathEqual l.path path || (l.depth && httpPathWithin l.path path)

/-- `httplock_on()`, after the sweep. -/
def httplockOn (t : LockTable) (path : List UInt8) : Option (Fin httpdLockMax) :=
  (List.finRange httpdLockMax).find? fun i ↦ (t i).used && httplockCovers (t i) path

/-- `httplock_exact()`. -/
def httplockExact (t : LockTable) (path : List UInt8) : Option (Fin httpdLockMax) :=
  (List.finRange httpdLockMax).find? fun i ↦ (t i).used && hlPathEqual (t i).path path

/-- `httplock_by_token()`, after the sweep. -/
def httplockByToken (t : LockTable) (token : List UInt8) : Option (Fin httpdLockMax) :=
  if token = [] then none
  else (List.finRange httpdLockMax).find? fun i ↦ (t i).used && (t i).token == token

/-- `httplock_free_slot()`. -/
def httplockFreeSlot (t : LockTable) : Option (Fin httpdLockMax) :=
  (List.finRange httpdLockMax).find? fun i ↦ !(t i).used

/-- `httplock_drop()`. -/
def httplockDrop (t : LockTable) (path : List UInt8) : LockTable := fun i ↦
  if (t i).used ∧ httpPathWithin path (t i).path then { t i with used := false } else t i

/-- The tokens of the `If:` header of a request. -/
structure IfTokens where
  tok0 : List UInt8
  tok1 : List UInt8
  deriving DecidableEq, Repr

/-- `httplock_held()`, for a lock that is there. -/
def httplockHeld (tokens : IfTokens) (l : HttpLock) : Bool :=
  tokens.tok0 == l.token || tokens.tok1 == l.token

/-- `httplock_allows()`. -/
def httplockAllows (t : LockTable) (tokens : IfTokens) (path : List UInt8) (now : Nat) : Bool :=
  let t := httplockExpire t now
  (httplockOn t path).all fun i ↦ httplockHeld tokens (t i)

/-- `httplock_allows_tree()`. -/
def httplockAllowsTree (t : LockTable) (tokens : IfTokens) (path : List UInt8) (now : Nat) : Bool :=
  if httplockAllows t tokens path now = false then false
  else
    let t := httplockExpire t now
    (List.finRange httpdLockMax).all fun i ↦
      !((t i).used && httpPathWithin path (t i).path) || httplockHeld tokens (t i)

/-! ### The methods -/

/-- What a LOCK request says, with the token that `httpd_make_token()` would make for it. -/
structure LockRequest where
  path : List UInt8
  isVolumesRoot : Bool
  /-- `httpd_name_cut()`. -/
  nameCut : Bool
  hadBody : Bool
  tokens : IfTokens
  /-- Whether `Depth:` is not `0`. -/
  depth : Bool
  lockSecs : Nat
  newToken : List UInt8
  deriving DecidableEq, Repr

/-- The answer to a LOCK. -/
inductive LockReply
  /-- 403 and 400, before the table is looked at. -/
  | refused
  /-- 412. -/
  | preconditionFailed
  /-- 423. -/
  | locked
  /-- 503. -/
  | tableFull
  /-- 200 or 201, with the token of the lock in this slot. -/
  | granted (slot : Fin httpdLockMax)
  deriving DecidableEq, Repr

/-- The seconds that a LOCK gets. -/
def lockSeconds (asked : Nat) : Nat := min (if 0 < asked then asked else httpdLockDef) httpdLockCap

/-- A lock that holds from now on. -/
def HttpLock.renew (l : HttpLock) (secs now : Nat) : HttpLock :=
  { l with timeout := secs, expires := (now + secs) % 2 ^ 32 }

/-- `httpd_do_lock()` without a body: a refresh. -/
def httpdLockRefresh (t : LockTable) (req : LockRequest) (now : Nat) : LockReply × LockTable :=
  let found := match httplockByToken t req.tokens.tok0 with
    | some i => some i
    | none => httplockByToken t req.tokens.tok1
  match found with
  | none => (.preconditionFailed, t)
  | some i =>
    if httplockCovers (t i) req.path = false then (.preconditionFailed, t)
    else (.granted i, Function.update t i ((t i).renew (lockSeconds req.lockSecs) now))

/-- A lock as a request asks for it, under a token. -/
def LockRequest.lock (req : LockRequest) (token : List UInt8) (now : Nat) : HttpLock :=
  HttpLock.renew ⟨req.path, token, 0, 0, req.depth, true⟩ (lockSeconds req.lockSecs) now

/-- `httpd_do_lock()` with a body. -/
def httpdLockTake (t : LockTable) (req : LockRequest) (now : Nat) : LockReply × LockTable :=
  if (httplockOn t req.path).any fun i ↦ !httplockHeld req.tokens (t i) then (.locked, t)
  else
    match httplockExact t req.path with
    | some i => (.granted i, Function.update t i (req.lock (t i).token now))
    | none =>
      match httplockFreeSlot t with
      | none => (.tableFull, t)
      | some i => (.granted i, Function.update t i (req.lock req.newToken now))

/-- `httpd_do_lock()`. Every path that looks at the table sweeps it first. -/
def httpdDoLock (t : LockTable) (req : LockRequest) (now : Nat) : LockReply × LockTable :=
  if req.isVolumesRoot || req.nameCut then (.refused, t)
  else if req.hadBody then httpdLockTake (httplockExpire t now) req now
  else if req.tokens.tok0 = [] ∧ req.tokens.tok1 = [] then (.preconditionFailed, t)
  else httpdLockRefresh (httplockExpire t now) req now

/-- `httpd_do_unlock()`. -/
def httpdDoUnlock (t : LockTable) (path token : List UInt8) (now : Nat) : LockTable :=
  if token = [] then t
  else
    let t := httplockExpire t now
    match httplockByToken t token with
    | none => t
    | some i =>
      if httplockCovers (t i) path = false then t
      else Function.update t i { t i with used := false }

/-! ### The system -/

/-- The server and its clock, whose seconds are a longword. -/
structure LockSys where
  table : LockTable
  now : Nat

/-- What can happen to the table. -/
inductive LockEvent
  | lock (req : LockRequest)
  | unlock (path token : List UInt8)
  /-- A drawer or a file is gone. -/
  | drop (path : List UInt8)
  /-- A write asks whether it is allowed. -/
  | ask
  /-- The clock goes on, or is set. -/
  | clock (secs : Nat)

/-- One step. -/
def lockExec (s : LockSys) : LockEvent → Option LockSys
  | .lock req => some { s with table := (httpdDoLock s.table req s.now).2 }
  | .unlock path token => some { s with table := httpdDoUnlock s.table path token s.now }
  | .drop path => some { s with table := httplockDrop s.table path }
  | .ask => some { s with table := httplockExpire s.table s.now }
  | .clock secs => some { s with now := secs % 2 ^ 32 }

/-- The server at its start. -/
def LockSys.Initial (s : LockSys) : Prop := (∀ i, (s.table i).used = false) ∧ s.now < 2 ^ 32

/-- A lock that is in use and has not expired. -/
def LockSys.live (s : LockSys) (i : Fin httpdLockMax) : Bool :=
  (s.table i).used && decide (s.now < (s.table i).expires)

/-- The table has a slot for a lock on a path: that of the lock on it, or a free one. -/
def hasSlot (t : LockTable) (path : List UInt8) : Bool :=
  (httplockExact t path).isSome || (httplockFreeSlot t).isSome

/-- A LOCK with a body passes the checks of `httpd_do_lock()`: the lock that `httplock_on()` finds,
if any, is one whose token it has. -/
def lockPasses (s : LockSys) (req : LockRequest) : Bool :=
  !(req.isVolumesRoot || req.nameCut) && req.hadBody &&
    httplockAllows s.table req.tokens req.path s.now &&
    hasSlot (httplockExpire s.table s.now) req.path

/-- A lock that covers the path of a LOCK or, if that is deep, lies below. -/
def meets (req : LockRequest) (l : HttpLock) : Bool :=
  httplockCovers l req.path || (req.depth && httpPathWithin req.path l.path)

/-- A LOCK that passes meets no live lock but the one on its own path. -/
def lockApart (s : LockSys) : LockEvent → Bool
  | .lock req => !lockPasses s req || decide (∀ i, s.live i = true →
      meets req (s.table i) = true → hlPathEqual (s.table i).path req.path = true)
  | _ => true

/-- The steps whose LOCK is apart. -/
def apartExec (s : LockSys) (e : LockEvent) : Option LockSys :=
  if lockApart s e then lockExec s e else none

/-! ### Paths above and below -/

/-- A path below another: equal, or further after a separator. -/
def BelowPath (x y : List UInt8) : Prop :=
  ∃ rest, y = x ++ rest ∧ (rest = [] ∨ rest.head? = some slash ∨ hpNeedsSlash x = false)

theorem hpLower_eq_iff {c d : UInt8} (hd : d = slash ∨ d = colon) : hpLower c = d ↔ c = d := by
  simp only [hpLower]
  split_ifs with hc
  · simp only [UInt8.le_iff_toNat_le, ← UInt8.toNat_inj, UInt8.toNat_add] at hc ⊢
    rcases hd with rfl | rfl <;> simp [slash, colon] at hc ⊢ <;> omega
  · rfl

theorem hpNeedsSlash_map (path : List UInt8) :
    hpNeedsSlash (path.map hpLower) = hpNeedsSlash path := by
  rw [hpNeedsSlash, hpNeedsSlash, List.getLast?_map, Option.any_map]
  congr 1
  funext c
  simp [hpLower_eq_iff (.inl rfl : slash = slash ∨ slash = colon),
    hpLower_eq_iff (.inr rfl : colon = slash ∨ colon = colon)]

/-- `http_path_within()` tells no capital letters from small ones. -/
theorem httpPathWithin_iff {a b : List UInt8} :
    httpPathWithin a b = true ↔ a ≠ [] ∧ BelowPath (a.map hpLower) (b.map hpLower) := by
  rw [httpPathWithin]
  by_cases ha : a = []
  · simp [ha]
  rw [if_neg ha]
  by_cases hpre : (b.take a.length).map hpLower = a.map hpLower
  · rw [if_neg (by simpa using hpre)]
    have hsplit : b.map hpLower = a.map hpLower ++ (b.drop a.length).map hpLower := by
      rw [← hpre, ← List.map_append, List.take_append_drop]
    have hlen : a.length ≤ b.length := by
      have hlen := congrArg List.length hpre
      simp only [List.length_map, List.length_take] at hlen
      omega
    have hends : (a.getLast?.any fun c ↦ c == colon || c == slash) = !hpNeedsSlash a := by
      rw [hpNeedsSlash, List.getLast?_eq_some_getLast ha, Bool.eq_iff_iff]
      simp only [Option.any_some, Bool.or_eq_true, beq_iff_eq, Bool.not_eq_true',
        Bool.and_eq_false_iff, decide_eq_false_iff_not, not_not, ne_eq]
    rw [BelowPath, hpNeedsSlash_map, hends]
    -- what follows the prefix is the same for both
    have hrest : ∀ rest, b.map hpLower = a.map hpLower ++ rest ↔
        rest = (b.drop a.length).map hpLower := by
      intro rest
      rw [hsplit]
      exact ⟨fun h ↦ (List.append_cancel_left h).symm, fun h ↦ by rw [h]⟩
    simp only [hrest, ha, ne_eq, not_false_eq_true, true_and, exists_eq_left]
    rcases hdrop : b.drop a.length with _ | ⟨c, rest⟩
    · have : b.length ≤ a.length := List.drop_eq_nil_iff.mp hdrop
      simp [Nat.le_antisymm this hlen]
    · have hne : b.length ≠ a.length := by
        intro heq
        rw [List.drop_of_length_le (by omega)] at hdrop
        cases hdrop
      have hget : b.getD a.length 0 = c := by
        rw [List.getD_eq_getElem?_getD, ← List.head?_drop, hdrop]
        rfl
      rw [if_neg hne, hget]
      simp [hpLower_eq_iff (.inl rfl : slash = slash ∨ slash = colon)]
  · rw [if_pos (by simpa using hpre)]
    simp only [Bool.false_eq_true, ne_eq, ha, not_false_eq_true, true_and, false_iff]
    rintro ⟨rest, hb, -⟩
    apply hpre
    have hlength : (a.map hpLower).length = a.length := List.length_map hpLower
    rw [List.map_take, hb, ← hlength, List.take_left]

/-- Of two paths above one path, one is above the other. -/
theorem comparable_of_below {x y z : List UInt8} (hx : BelowPath x z) (hy : BelowPath y z) :
    BelowPath x y ∨ BelowPath y x := by
  have hside : ∀ {x y : List UInt8}, BelowPath x z → BelowPath y z → x <+: y → BelowPath x y := by
    rintro x y ⟨rest, rfl, hrest⟩ ⟨rest', hz, -⟩ ⟨t, rfl⟩
    rw [List.append_assoc] at hz
    obtain rfl := List.append_cancel_left hz
    refine ⟨t, rfl, ?_⟩
    cases t with
    | nil => exact .inl rfl
    | cons c t => simpa using hrest
  have hpx : x <+: z := by
    obtain ⟨rest, rfl, -⟩ := hx
    exact List.prefix_append x rest
  have hpy : y <+: z := by
    obtain ⟨rest, rfl, -⟩ := hy
    exact List.prefix_append y rest
  exact (List.prefix_or_prefix_of_prefix hpx hpy).imp (hside hx hy) (hside hy hx)

theorem hlPathEqual_iff {a b : List UInt8} :
    hlPathEqual a b = true ↔ a ≠ [] ∧ a.map hpLower = b.map hpLower := by
  rw [hlPathEqual, Bool.and_eq_true, httpPathWithin_iff, httpPathWithin_iff]
  constructor
  · rintro ⟨⟨ha, rest, hab, -⟩, -, rest', hba, -⟩
    refine ⟨ha, ?_⟩
    have hlen := congrArg List.length hab
    have hlen' := congrArg List.length hba
    simp only [List.length_append] at hlen hlen'
    obtain rfl : rest = [] := List.length_eq_zero_iff.mp (by omega)
    rw [hab, List.append_nil]
  · rintro ⟨ha, heq⟩
    have hb : b ≠ [] := by
      rintro rfl
      simp [ha] at heq
    exact ⟨⟨ha, [], by simp [heq], .inl rfl⟩, hb, [], by simp [heq], .inl rfl⟩

/-- Two paths that a path is within are one below the other. -/
theorem comparable_of_within {a b path : List UInt8} (ha : httpPathWithin a path = true)
    (hb : httpPathWithin b path = true) :
    httpPathWithin a b = true ∨ httpPathWithin b a = true := by
  rw [httpPathWithin_iff] at ha hb
  rw [httpPathWithin_iff, httpPathWithin_iff]
  exact (comparable_of_below ha.2 hb.2).imp (⟨ha.1, ·⟩) (⟨hb.1, ·⟩)

/-! ### Locks that are apart -/

/-- No path is covered by both. -/
def LocksApart (l l' : HttpLock) : Prop :=
  ∀ path, httplockCovers l path = true → httplockCovers l' path = false

theorem LocksApart.symm {l l' : HttpLock} (h : LocksApart l l') : LocksApart l' l := by
  intro path hpath
  by_contra hl
  have hfalse := h path (by simpa using hl)
  rw [hpath] at hfalse
  cases hfalse

theorem httplockCovers_iff {l : HttpLock} {path : List UInt8} :
    httplockCovers l path = true ↔
      hlPathEqual l.path path = true ∨ l.depth = true ∧ httpPathWithin l.path path = true := by
  rw [httplockCovers, Bool.or_eq_true, Bool.and_eq_true]

/-- The cover of a path is that of any other spelling of it. -/
theorem httplockCovers_congr {l : HttpLock} {p q : List UInt8} (h : p.map hpLower = q.map hpLower) :
    httplockCovers l p = httplockCovers l q := by
  rw [Bool.eq_iff_iff, httplockCovers_iff, httplockCovers_iff, hlPathEqual_iff, hlPathEqual_iff,
    httpPathWithin_iff, httpPathWithin_iff, h]

/-- A lock that neither covers a path nor, if that is locked deep, lies below it. -/
theorem locksApart_of_not_covers {l l' : HttpLock} (hcover : httplockCovers l l'.path = false)
    (hbelow : l'.depth = true → httpPathWithin l'.path l.path = false) : LocksApart l l' := by
  intro path hl
  by_contra hl'
  rw [Bool.not_eq_false, httplockCovers_iff] at hl'
  rcases hl' with heq | ⟨hdeep, hwithin⟩
  · -- the path is that of the second lock
    rw [httplockCovers_congr (hlPathEqual_iff.mp heq).2, hl] at hcover
    cases hcover
  · rcases httplockCovers_iff.mp hl with heq | ⟨hdeep', hwithin'⟩
    · -- the path is that of the first, which then lies below
      have hlower := (hlPathEqual_iff.mp heq).2
      have hbelow := hbelow hdeep
      rw [httpPathWithin_iff, ← hlower, ← httpPathWithin_iff] at hwithin
      rw [hwithin] at hbelow
      cases hbelow
    · -- both are above it, so one of the locks is above the other
      rcases comparable_of_within hwithin' hwithin with habove | hbelow'
      · rw [httplockCovers_iff.mpr (.inr ⟨hdeep', habove⟩)] at hcover
        cases hcover
      · rw [hbelow hdeep] at hbelow'
        cases hbelow'

/-- The locks in use are apart. -/
def LockInv (t : LockTable) : Prop :=
  ∀ i j, i ≠ j → (t i).used = true → (t j).used = true → LocksApart (t i) (t j)

/-- A table with less in it, and nothing moved. -/
theorem LockInv.mono {t t' : LockTable} (h : LockInv t)
    (hle : ∀ i, (t' i).used = true → (t i).used = true ∧ (t' i).path = (t i).path ∧
      (t' i).depth = (t i).depth) : LockInv t' := by
  intro i j hij hi hj path hpath
  obtain ⟨hui, hpi, hdi⟩ := hle i hi
  obtain ⟨huj, hpj, hdj⟩ := hle j hj
  have hapart := h i j hij hui huj path
  simp only [httplockCovers, hpi, hdi, hpj, hdj] at hpath hapart ⊢
  exact hapart hpath

theorem LockInv.update {t : LockTable} (h : LockInv t) (i : Fin httpdLockMax) {l : HttpLock}
    (hl : ∀ j, j ≠ i → (t j).used = true → LocksApart (t j) l) :
    LockInv (Function.update t i l) := by
  intro j k hjk hj hk
  by_cases hji : j = i
  · subst hji
    rw [Function.update_self] at hj ⊢
    rw [Function.update_of_ne hjk.symm] at hk ⊢
    exact (hl k hjk.symm hk).symm
  · rw [Function.update_of_ne hji] at hj ⊢
    by_cases hki : k = i
    · subst hki
      rw [Function.update_self]
      exact hl j hji hj
    · rw [Function.update_of_ne hki] at hk ⊢
      exact h j k hjk hj hk

/-- A lock that is only renewed or given up. -/
theorem LockInv.change {t : LockTable} (h : LockInv t) (i : Fin httpdLockMax) {l : HttpLock}
    (hl : l.used = true → (t i).used = true ∧ l.path = (t i).path ∧ l.depth = (t i).depth) :
    LockInv (Function.update t i l) := by
  refine h.mono fun j hj ↦ ?_
  by_cases hji : j = i
  · subst hji
    rw [Function.update_self] at hj ⊢
    exact hl hj
  · rw [Function.update_of_ne hji] at hj ⊢
    exact ⟨hj, rfl, rfl⟩

theorem httplockExpire_used {t : LockTable} {now : Nat} {i : Fin httpdLockMax}
    (h : (httplockExpire t now i).used = true) :
    httplockExpire t now i = t i ∧ (t i).used = true ∧ now < (t i).expires := by
  simp only [httplockExpire] at h ⊢
  split_ifs at h ⊢ with hexp
  rw [not_and, Nat.not_le] at hexp
  exact ⟨rfl, h, hexp h⟩

theorem LockInv.expire {t : LockTable} (h : LockInv t) (now : Nat) :
    LockInv (httplockExpire t now) := by
  refine h.mono fun i hi ↦ ?_
  obtain ⟨heq, hused, -⟩ := httplockExpire_used hi
  rw [heq]
  exact ⟨hused, rfl, rfl⟩

/-- After the sweep, the locks in use are those that are live. -/
theorem httplockExpire_live {s : LockSys} {i : Fin httpdLockMax} :
    (httplockExpire s.table s.now i).used = true ↔ s.live i = true := by
  refine ⟨fun h ↦ ?_, fun h ↦ ?_⟩
  · obtain ⟨-, hused, hexp⟩ := httplockExpire_used h
    simp [LockSys.live, hused, hexp]
  · simp only [LockSys.live, Bool.and_eq_true, decide_eq_true_eq] at h
    rw [httplockExpire, if_neg (by omega)]
    exact h.1

theorem httplockExpire_eq {s : LockSys} {i : Fin httpdLockMax} (h : s.live i = true) :
    httplockExpire s.table s.now i = s.table i :=
  (httplockExpire_used (httplockExpire_live.mpr h)).1

/-! ### One step -/

section Take

variable {t : LockTable} {req : LockRequest} {now : Nat}

/-- What a request that is apart finds in the swept table. -/
def ApartIn (t : LockTable) (req : LockRequest) : Prop :=
  ∀ i, (t i).used = true → meets req (t i) = true → hlPathEqual (t i).path req.path = true

theorem meets_iff {l : HttpLock} :
    meets req l = true ↔ httplockCovers l req.path = true ∨
      req.depth = true ∧ httpPathWithin req.path l.path = true := by
  rw [meets, Bool.or_eq_true, Bool.and_eq_true]

/-- The lock of the request, in the slot of the one on its path or in a free one. -/
theorem LockInv.take (h : LockInv t) (hapart : ApartIn t req) (i : Fin httpdLockMax)
    (hother : ∀ j, j ≠ i → (t j).used = true → hlPathEqual (t j).path req.path = false)
    (token : List UInt8) : LockInv (Function.update t i (req.lock token now)) := by
  refine h.update i fun j hji hj ↦ locksApart_of_not_covers ?_ fun hdeep ↦ ?_
  · by_contra hcover
    have hequal := hapart j hj (meets_iff.mpr (.inl (eq_true_of_ne_false hcover)))
    rw [hother j hji hj] at hequal
    cases hequal
  · by_contra hbelow
    have hequal := hapart j hj (meets_iff.mpr (.inr ⟨hdeep, eq_true_of_ne_false hbelow⟩))
    rw [hother j hji hj] at hequal
    cases hequal

/-- Two locks in use do not cover one path. -/
theorem LockInv.eq_of_covers (h : LockInv t) {i j : Fin httpdLockMax} {path : List UInt8}
    (hi : (t i).used = true) (hj : (t j).used = true) (hci : httplockCovers (t i) path = true)
    (hcj : httplockCovers (t j) path = true) : i = j := by
  by_contra hij
  have hapart := h i j hij hi hj path hci
  rw [hcj] at hapart
  cases hapart

/-- The lock that is found is the one that covers the path. -/
theorem LockInv.httplockOn_eq (h : LockInv t) {i : Fin httpdLockMax} {path : List UInt8}
    (hi : (t i).used = true) (hci : httplockCovers (t i) path = true) :
    httplockOn t path = some i := by
  cases hon : httplockOn t path with
  | none =>
    have hnone := List.find?_eq_none.mp hon i (List.mem_finRange i)
    rw [hi, hci] at hnone
    exact absurd rfl hnone
  | some j =>
    have hfound := List.find?_some hon
    rw [Bool.and_eq_true] at hfound
    rw [h.eq_of_covers hfound.1 hi hfound.2 hci]

theorem httplockExact_spec {path : List UInt8} {i : Fin httpdLockMax}
    (h : httplockExact t path = some i) :
    (t i).used = true ∧ hlPathEqual (t i).path path = true := by
  simpa using List.find?_some h

theorem httplockExact_none {path : List UInt8} (h : httplockExact t path = none)
    {i : Fin httpdLockMax} (hi : (t i).used = true) : hlPathEqual (t i).path path = false := by
  have hnone := List.find?_eq_none.mp h i (List.mem_finRange i)
  simpa [hi] using hnone

theorem httplockByToken_spec {token : List UInt8} {i : Fin httpdLockMax}
    (h : httplockByToken t token = some i) : (t i).used = true ∧ (t i).token = token := by
  rw [httplockByToken] at h
  split_ifs at h
  simpa using List.find?_some h

theorem not_any_not_held {o : Option (Fin httpdLockMax)} :
    (¬(o.any fun i ↦ !httplockHeld req.tokens (t i)) = true) ↔
      (o.all fun i ↦ httplockHeld req.tokens (t i)) = true := by
  cases o <;> simp

/-- A LOCK with a body: the locks stay apart, and the one it gets is new, or was held already. -/
theorem httpdLockTake_spec (h : LockInv t)
    (hapart : ((httplockOn t req.path).all fun i ↦ httplockHeld req.tokens (t i)) = true →
      hasSlot t req.path = true → ApartIn t req) :
    LockInv (httpdLockTake t req now).2 ∧ ∀ i, (t i).used = true →
      ((httpdLockTake t req now).1 = .granted i ∨ (httpdLockTake t req now).2 i ≠ t i) →
      httplockHeld req.tokens (t i) = true := by
  rw [httpdLockTake]
  split_ifs with hlocked
  · exact ⟨h, fun i _ hi ↦ by simp at hi⟩
  rw [not_any_not_held] at hlocked
  cases hexact : httplockExact t req.path with
  | some i =>
    obtain ⟨hused, hequal⟩ := httplockExact_spec hexact
    have hcover : httplockCovers (t i) req.path = true := httplockCovers_iff.mpr (.inl hequal)
    have hslot : hasSlot t req.path = true := by rw [hasSlot, hexact]; rfl
    refine ⟨h.take (hapart hlocked hslot) i (fun j hji hj ↦ ?_) _, fun j _ hj ↦ ?_⟩
    · -- another lock on the path would share it with this one
      by_contra hother
      exact hji (h.eq_of_covers hj hused
        (httplockCovers_iff.mpr (.inl (by simpa using hother))) hcover)
    · have hji : j = i := by
        by_contra hji
        rcases hj with hj | hj
        · exact hji (LockReply.granted.inj hj).symm
        · exact hj (Function.update_of_ne hji ..)
      -- it is the lock that was found on the path, and its token was submitted
      rw [h.httplockOn_eq hused hcover] at hlocked
      rw [hji]
      exact hlocked
  | none =>
    cases hfree : httplockFreeSlot t with
    | none => exact ⟨h, fun i _ hi ↦ by simp at hi⟩
    | some i =>
      have hunused : (t i).used = false := by simpa using List.find?_some hfree
      have hslot : hasSlot t req.path = true := by rw [hasSlot, hfree, Bool.or_comm]; rfl
      refine ⟨h.take (hapart hlocked hslot) i (fun j _ hj ↦ httplockExact_none hexact hj) _,
        fun j hused hj ↦ ?_⟩
      have hji : j ≠ i := by
        rintro rfl
        rw [hunused] at hused
        cases hused
      rcases hj with hj | hj
      · exact absurd (LockReply.granted.inj hj).symm hji
      · exact absurd (Function.update_of_ne hji ..) hj

/-- A lock that the one of the request meets shares a path with it. -/
theorem exists_covers_of_meets (now : Nat) (token : List UInt8) {l : HttpLock}
    (hmeets : meets req l = true) :
    ∃ path, httplockCovers l path = true ∧ httplockCovers (req.lock token now) path = true := by
  rcases meets_iff.mp hmeets with hcover | ⟨hdeep, hbelow⟩
  · refine ⟨req.path, hcover, httplockCovers_iff.mpr (.inl (hlPathEqual_iff.mpr ⟨?_, rfl⟩))⟩
    change req.path ≠ []
    intro hempty
    rw [hempty, httplockCovers_iff, hlPathEqual_iff, httpPathWithin_iff] at hcover
    rcases hcover with ⟨hne, heq⟩ | ⟨-, hne, rest, heq, -⟩
    · exact hne (List.map_eq_nil_iff.mp heq)
    · exact hne (List.map_eq_nil_iff.mp (List.append_eq_nil_iff.mp heq.symm).1)
  · refine ⟨l.path, httplockCovers_iff.mpr (.inl (hlPathEqual_iff.mpr ⟨?_, rfl⟩)),
      httplockCovers_iff.mpr (.inr ⟨hdeep, hbelow⟩)⟩
    intro hempty
    rw [hempty, httpPathWithin_iff] at hbelow
    obtain ⟨hne, rest, heq, -⟩ := hbelow
    exact hne (List.map_eq_nil_iff.mp (List.append_eq_nil_iff.mp heq.symm).1)

/-- **A LOCK that passes takes a slot**, and no other lock on the table moves. -/
theorem httpdLockTake_update (now : Nat)
    (hheld : ((httplockOn t req.path).all fun i ↦ httplockHeld req.tokens (t i)) = true)
    (hslot : hasSlot t req.path = true) :
    ∃ i token, (httpdLockTake t req now).2 = Function.update t i (req.lock token now) ∧
      ((t i).used = true → hlPathEqual (t i).path req.path = true) := by
  rw [httpdLockTake, if_neg (not_any_not_held.mpr hheld)]
  cases hexact : httplockExact t req.path with
  | some i => exact ⟨i, (t i).token, rfl, fun _ ↦ (httplockExact_spec hexact).2⟩
  | none =>
    rw [hasSlot, hexact, Option.isSome_none, Bool.false_or] at hslot
    obtain ⟨i, hfree⟩ := Option.isSome_iff_exists.mp hslot
    have hunused : (t i).used = false := by simpa using List.find?_some hfree
    rw [hfree]
    refine ⟨i, req.newToken, rfl, fun hused ↦ ?_⟩
    rw [hunused] at hused
    cases hused

/-- A refresh: the lock it renews is one whose token was submitted. -/
theorem httpdLockRefresh_spec (h : LockInv t) :
    LockInv (httpdLockRefresh t req now).2 ∧ ∀ i, (t i).used = true →
      ((httpdLockRefresh t req now).1 = .granted i ∨ (httpdLockRefresh t req now).2 i ≠ t i) →
      httplockHeld req.tokens (t i) = true := by
  rw [httpdLockRefresh]
  obtain ⟨found, hfound⟩ : ∃ found, found = match httplockByToken t req.tokens.tok0 with
    | some i => some i
    | none => httplockByToken t req.tokens.tok1 := ⟨_, rfl⟩
  have hheld : ∀ i, found = some i →
      (t i).used = true ∧ httplockHeld req.tokens (t i) = true := by
    intro i hi
    rw [hfound] at hi
    cases h0 : httplockByToken t req.tokens.tok0 with
    | some j =>
      rw [h0] at hi
      obtain rfl := Option.some.inj hi
      obtain ⟨hused, htoken⟩ := httplockByToken_spec h0
      exact ⟨hused, by simp [httplockHeld, htoken]⟩
    | none =>
      rw [h0] at hi
      obtain ⟨hused, htoken⟩ := httplockByToken_spec hi
      exact ⟨hused, by simp [httplockHeld, htoken]⟩
  rw [← hfound]
  cases hcase : found with
  | none => exact ⟨h, fun i _ hi ↦ by simp at hi⟩
  | some i =>
    obtain ⟨hused, hi⟩ := hheld i hcase
    dsimp only
    split_ifs
    · exact ⟨h, fun i _ hi ↦ by simp at hi⟩
    refine ⟨h.change i fun _ ↦ ⟨hused, rfl, rfl⟩, fun j _ hj ↦ ?_⟩
    have hji : j = i := by
      by_contra hji
      rcases hj with hj | hj
      · exact hji (LockReply.granted.inj hj).symm
      · exact hj (Function.update_of_ne hji ..)
    rw [hji]
    exact hi

end Take

section Step

variable {s : LockSys}

theorem ApartIn.of_lockApart {req : LockRequest} (h : lockApart s (.lock req) = true)
    (hpasses : lockPasses s req = true) : ApartIn (httplockExpire s.table s.now) req := by
  intro i hi hmeets
  have hlive := httplockExpire_live.mp hi
  rw [httplockExpire_eq hlive] at hmeets ⊢
  simp only [lockApart, hpasses, Bool.not_true, Bool.false_or, decide_eq_true_eq] at h
  exact h i hlive hmeets

/-- **What LOCK does.** The locks stay apart; and a live lock that it returns or rewrites is one
whose token the client has submitted. -/
theorem httpdDoLock_spec {req : LockRequest} (h : LockInv s.table)
    (hapart : lockApart s (.lock req) = true) :
    LockInv (httpdDoLock s.table req s.now).2 ∧ ∀ i, s.live i = true →
      ((httpdDoLock s.table req s.now).1 = .granted i ∨
        (httpdDoLock s.table req s.now).2 i ≠ s.table i) →
      httplockHeld req.tokens (s.table i) = true := by
  have hswept : ∀ {r : LockReply × LockTable},
      (LockInv r.2 ∧ ∀ i, (httplockExpire s.table s.now i).used = true →
        (r.1 = .granted i ∨ r.2 i ≠ httplockExpire s.table s.now i) →
        httplockHeld req.tokens (httplockExpire s.table s.now i) = true) →
      LockInv r.2 ∧ ∀ i, s.live i = true → (r.1 = .granted i ∨ r.2 i ≠ s.table i) →
        httplockHeld req.tokens (s.table i) = true := by
    rintro r ⟨hinv, hr⟩
    refine ⟨hinv, fun i hi hgrant ↦ ?_⟩
    have hspec := hr i (httplockExpire_live.mpr hi)
    rw [httplockExpire_eq hi] at hspec
    exact hspec hgrant
  rw [httpdDoLock]
  by_cases hrefused : (req.isVolumesRoot || req.nameCut) = true
  · rw [if_pos hrefused]
    exact ⟨h, fun i _ hi ↦ by simp at hi⟩
  rw [if_neg hrefused]
  by_cases hbody : req.hadBody = true
  · rw [if_pos hbody]
    refine hswept (httpdLockTake_spec (h.expire s.now) fun hheld hslot ↦ .of_lockApart hapart ?_)
    rw [lockPasses, eq_false_of_ne_true hrefused, hbody, hslot, httplockAllows, hheld]
    rfl
  rw [if_neg hbody]
  by_cases hnone : req.tokens.tok0 = [] ∧ req.tokens.tok1 = []
  · rw [if_pos hnone]
    exact ⟨h, fun i _ hi ↦ by simp at hi⟩
  rw [if_neg hnone]
  exact hswept (httpdLockRefresh_spec (h.expire s.now))

/-- **A LOCK that passes and is not apart.** A path is under two live locks after it. -/
theorem httpdDoLock_shared {req : LockRequest} (hmeets : lockApart s (.lock req) = false)
    (hclock : s.now + lockSeconds req.lockSecs < 2 ^ 32) :
    ∃ i j path, i ≠ j ∧ ∃ s', lockExec s (.lock req) = some s' ∧ s'.live i = true ∧
      s'.live j = true ∧ httplockCovers (s'.table i) path = true ∧
      httplockCovers (s'.table j) path = true := by
  simp only [lockApart, Bool.or_eq_false_iff, Bool.not_eq_false', decide_eq_false_iff_not,
    not_forall] at hmeets
  obtain ⟨hpasses, j, hlive, hmeets, hequal⟩ := hmeets
  simp only [lockPasses, Bool.and_eq_true, Bool.not_eq_true'] at hpasses
  obtain ⟨⟨⟨hrefused, hbody⟩, hheld⟩, hslot⟩ := hpasses
  obtain ⟨i, token, htable, hslotPath⟩ := httpdLockTake_update s.now hheld hslot
  obtain ⟨path, hcover, hcover'⟩ := exists_covers_of_meets s.now token hmeets
  have hji : j ≠ i := by
    rintro rfl
    rw [httplockExpire_eq hlive] at hslotPath
    simp only [LockSys.live, Bool.and_eq_true] at hlive
    exact hequal (hslotPath hlive.1)
  refine ⟨i, j, path, hji.symm, _, rfl, ?_⟩
  have hsecs : 0 < lockSeconds req.lockSecs := by
    unfold lockSeconds httpdLockDef httpdLockCap
    split_ifs <;> omega
  simp only [httpdDoLock, hrefused, hbody, Bool.false_eq_true, if_false, if_true, htable,
    LockSys.live, Function.update_self, Function.update_of_ne hji, httplockExpire_eq hlive]
  refine ⟨?_, hlive, hcover', hcover⟩
  rw [LockRequest.lock, HttpLock.renew, Nat.mod_eq_of_lt hclock]
  simp [hsecs]

theorem LockInv.unlock {t : LockTable} (h : LockInv t) (path token : List UInt8) (now : Nat) :
    LockInv (httpdDoUnlock t path token now) := by
  have hswept := h.expire now
  rw [httpdDoUnlock]
  split_ifs
  · exact h
  dsimp only
  split
  · exact hswept
  · split_ifs
    · exact hswept
    · exact hswept.change _ fun hused ↦ by simp at hused

theorem LockInv.drop {t : LockTable} (h : LockInv t) (path : List UInt8) :
    LockInv (httplockDrop t path) := by
  refine h.mono fun i hi ↦ ?_
  simp only [httplockDrop] at hi ⊢
  split_ifs at hi ⊢
  exact ⟨hi, rfl, rfl⟩

/-- **What every step preserves, where each LOCK is apart.** -/
theorem lockInv_step {s' : LockSys} {e : LockEvent} (h : LockInv s.table)
    (hrun : apartExec s e = some s') : LockInv s'.table := by
  rw [apartExec] at hrun
  split_ifs at hrun with hapart
  cases e with
  | lock req =>
    obtain rfl := Option.some.inj hrun
    exact (httpdDoLock_spec h hapart).1
  | unlock path token =>
    obtain rfl := Option.some.inj hrun
    exact h.unlock path token s.now
  | drop path =>
    obtain rfl := Option.some.inj hrun
    exact h.drop path
  | ask =>
    obtain rfl := Option.some.inj hrun
    exact h.expire s.now
  | clock secs =>
    obtain rfl := Option.some.inj hrun
    exact h

end Step

/-! ### Every run -/

section Run

variable {s : LockSys}

theorem LockInv.live_eq (h : LockInv s.table) {i j : Fin httpdLockMax} {path : List UInt8}
    (hi : s.live i = true) (hj : s.live j = true) (hci : httplockCovers (s.table i) path = true)
    (hcj : httplockCovers (s.table j) path = true) : i = j := by
  simp only [LockSys.live, Bool.and_eq_true] at hi hj
  exact h.eq_of_covers hi.1 hj.1 hci hcj

/-- **What allows asks.** Where the locks are apart, the one that is looked at is the only one. -/
theorem httplockAllows_iff (h : LockInv s.table) (tokens : IfTokens) (path : List UInt8) :
    httplockAllows s.table tokens path s.now = true ↔ ∀ i, s.live i = true →
      httplockCovers (s.table i) path = true → httplockHeld tokens (s.table i) = true := by
  rw [httplockAllows]
  cases hon : httplockOn (httplockExpire s.table s.now) path with
  | none =>
    simp only [Option.all_none, true_iff]
    intro i hi hcover
    have hnone := List.find?_eq_none.mp hon i (List.mem_finRange i)
    rw [httplockExpire_live.mpr hi, httplockExpire_eq hi, hcover] at hnone
    simp at hnone
  | some i =>
    have hfound := List.find?_some hon
    rw [Bool.and_eq_true] at hfound
    have hi := httplockExpire_live.mp hfound.1
    rw [httplockExpire_eq hi] at hfound
    simp only [Option.all_some, httplockExpire_eq hi]
    refine ⟨fun hheld j hj hcover ↦ ?_, fun hall ↦ hall i hi hfound.2⟩
    rw [← h.live_eq hi hj hfound.2 hcover]
    exact hheld

theorem httplockAllowsTree_iff (h : LockInv s.table) (tokens : IfTokens) (path : List UInt8) :
    httplockAllowsTree s.table tokens path s.now = true ↔ ∀ i, s.live i = true →
      httplockCovers (s.table i) path = true ∨ httpPathWithin path (s.table i).path = true →
      httplockHeld tokens (s.table i) = true := by
  have hbelow : ((List.finRange httpdLockMax).all fun i ↦
      !((httplockExpire s.table s.now i).used &&
        httpPathWithin path (httplockExpire s.table s.now i).path) ||
      httplockHeld tokens (httplockExpire s.table s.now i)) = true ↔ ∀ i, s.live i = true →
        httpPathWithin path (s.table i).path = true → httplockHeld tokens (s.table i) = true := by
    simp only [List.all_eq_true, List.mem_finRange, forall_const, Bool.or_eq_true,
      Bool.not_eq_true', Bool.and_eq_false_iff]
    refine forall_congr' fun i ↦ ?_
    cases hi : s.live i with
    | true =>
      rw [httplockExpire_live.mpr hi, httplockExpire_eq hi]
      cases httpPathWithin path (s.table i).path <;> simp
    | false =>
      have hunused : (httplockExpire s.table s.now i).used = false := by
        by_contra hused
        rw [httplockExpire_live.mp (eq_true_of_ne_false hused)] at hi
        cases hi
      simp [hunused]
  rw [httplockAllowsTree]
  by_cases hallows : httplockAllows s.table tokens path s.now = false
  · rw [if_pos hallows]
    refine ⟨fun hfalse ↦ absurd hfalse (by simp), fun hall ↦ ?_⟩
    rw [(httplockAllows_iff h tokens path).mpr fun i hi hcover ↦ hall i hi (.inl hcover)] at hallows
    cases hallows
  · rw [if_neg hallows]
    have hon := (httplockAllows_iff h tokens path).mp (eq_true_of_ne_false hallows)
    refine hbelow.trans
      ⟨fun hall i hi hmeets ↦ ?_, fun hall i hi hwithin ↦ hall i hi (.inr hwithin)⟩
    exact hmeets.elim (hon i hi) (hall i hi)

end Run

/-- **Locks exclude each other, where every LOCK is apart.** In every run in which no LOCK that
passes the checks meets a live lock, above its path or below it if it is deep, except the one on its
own path: no path is covered by two live locks; a live lock that a LOCK returns or rewrites is one
whose token was submitted; and a write is allowed, on a path or on a tree, exactly when the request
has the token of every live lock that covers the path or, for a tree, lies below it. The first LOCK
that is not apart puts a path under two live locks. -/
theorem locks_exclusive_of_apart {s : LockSys} (h : Reachable apartExec LockSys.Initial s) :
    (∀ i j path, s.live i = true → s.live j = true → httplockCovers (s.table i) path = true →
      httplockCovers (s.table j) path = true → i = j) ∧
    (∀ req, lockApart s (.lock req) = true → ∀ i, s.live i = true →
      ((httpdDoLock s.table req s.now).1 = .granted i ∨
        (httpdDoLock s.table req s.now).2 i ≠ s.table i) →
      httplockHeld req.tokens (s.table i) = true) ∧
    (∀ tokens path, httplockAllows s.table tokens path s.now = true ↔ ∀ i, s.live i = true →
      httplockCovers (s.table i) path = true → httplockHeld tokens (s.table i) = true) ∧
    (∀ tokens path, httplockAllowsTree s.table tokens path s.now = true ↔ ∀ i, s.live i = true →
      httplockCovers (s.table i) path = true ∨ httpPathWithin path (s.table i).path = true →
      httplockHeld tokens (s.table i) = true) ∧
    ∀ req, lockApart s (.lock req) = false → s.now + lockSeconds req.lockSecs < 2 ^ 32 →
      ∃ i j path, i ≠ j ∧ ∃ s', lockExec s (.lock req) = some s' ∧ s'.live i = true ∧
        s'.live j = true ∧ httplockCovers (s'.table i) path = true ∧
        httplockCovers (s'.table j) path = true := by
  have hinv : LockInv s.table := by
    have hinit : ∀ s : LockSys, s.Initial → LockInv s.table := by
      intro s hs i j _ hi
      rw [hs.1 i] at hi
      cases hi
    exact h.invariant hinit fun s e s' ↦ lockInv_step
  exact ⟨fun i j path hi hj hci hcj ↦ hinv.live_eq hi hj hci hcj,
    fun req hapart ↦ (httpdDoLock_spec hinv hapart).2, httplockAllows_iff hinv,
    httplockAllowsTree_iff hinv, fun _ ↦ httpdDoLock_shared⟩

/-! ### Two clients -/

/-- The table at the start. -/
def emptyLocks : LockSys := ⟨fun _ ↦ ⟨[], [], 0, 0, false, false⟩, 0⟩

theorem emptyLocks_initial : emptyLocks.Initial := ⟨fun _ ↦ rfl, by decide⟩

/-- A LOCK with a body and without tokens, on a path. -/
def takeLock (path : List UInt8) (depth : Bool) (token : UInt8) : LockEvent :=
  .lock ⟨path, false, false, true, ⟨[], []⟩, depth, 0, [token]⟩

/-- `W:a`. -/
def drawerPath : List UInt8 := [0x57, colon, 0x61]

/-- `W:a/b`. -/
def filePath : List UInt8 := drawerPath ++ [slash, 0x62]

/-- **One path under two locks.** A client locks a file, and another the drawer it is in, with
everything below. A write to the file is then allowed with the first token alone. -/
theorem locks_shared :
    ∃ s, Reachable lockExec LockSys.Initial s ∧ ∃ i j, s.live i = true ∧ s.live j = true ∧
      (s.table i).token ≠ (s.table j).token ∧ httplockCovers (s.table i) filePath = true ∧
      httplockCovers (s.table j) filePath = true ∧
      httplockAllows s.table ⟨(s.table i).token, []⟩ filePath s.now = true := by
  have hrun : (run lockExec emptyLocks [takeLock filePath false 1, takeLock drawerPath true 2]).any
      (fun s ↦ decide (s.live 0 = true ∧ s.live 1 = true ∧ (s.table 0).token ≠ (s.table 1).token ∧
        httplockCovers (s.table 0) filePath = true ∧ httplockCovers (s.table 1) filePath = true ∧
        httplockAllows s.table ⟨(s.table 0).token, []⟩ filePath s.now = true)) = true := by
    decide +kernel
  obtain ⟨s, hs, hstate⟩ := (Option.any_eq_true _ _).mp hrun
  exact ⟨s, ⟨emptyLocks, _, emptyLocks_initial, hs⟩, 0, 1, of_decide_eq_true hstate⟩

/-- A drawer that is locked deep: another client locks no file in it, and a request without its
token writes nothing below. -/
theorem locks_exclusive_drawer :
    ∃ s, Reachable apartExec LockSys.Initial s ∧ s.live 0 = true ∧
      httplockCovers (s.table 0) filePath = true ∧
      httplockAllows s.table ⟨[], []⟩ filePath s.now ≠ true := by
  have hrun : (run apartExec emptyLocks
      [takeLock drawerPath true 2, takeLock filePath false 1, .clock 100]).any
      (fun s ↦ decide (s.live 0 = true ∧ httplockCovers (s.table 0) filePath = true ∧
        httplockHeld ⟨[], []⟩ (s.table 0) = false)) = true := by
    decide +kernel
  obtain ⟨s, hs, hstate⟩ := (Option.any_eq_true _ _).mp hrun
  obtain ⟨hlive, hcover, hheld⟩ := of_decide_eq_true hstate
  have hreach : Reachable apartExec LockSys.Initial s := ⟨emptyLocks, _, emptyLocks_initial, hs⟩
  refine ⟨s, hreach, hlive, hcover, fun hallows ↦ ?_⟩
  rw [((locks_exclusive_of_apart hreach).2.2.1 _ _).mp hallows 0 hlive hcover] at hheld
  cases hheld

end AmiNetXDuo.Tools
