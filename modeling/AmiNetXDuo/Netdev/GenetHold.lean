import AmiNetXDuo.Netdev.GenetRuns

/-!
# How long the head of the receive ring is held

A unicast frame whose reader has no read posted stays at the head of the ring. `genet_tick` counts
the blanks that find frames left behind in `held_blanks`; at `GE_HOLD_BLANKS` the next such frame is
let go. The count belongs to the ring and not to a frame: it goes on when the head of the ring is
taken and the frame behind it is held in turn.

The state is that of the ring with what each blank found at its head.

## Main definitions

* `heldHead` : the frame that is held at the head of the ring.
* `holdStep` : the steps of the ring, with what the blanks find.

## Main results

* `genet_letGo_held` : a frame that the clock was started for is let go only after it was held on
  `GE_HOLD_BLANKS` blanks in a row.
* `genet_letGo_early` : a frame that took the head while the clock was running is let go on the
  first blank that finds it.
-/

namespace AmiNetXDuo.Netdev

open Interleaving

/-- The frame that the last pass left at the head of the ring for its reader. -/
def heldHead (g : GenetRx) : Option ℕ :=
  if g.rxHeld then some (g.buf (rxSlot g)).seq else none

/-- The ring, and what the blanks have found. -/
structure GenetHold where
  rx : GenetRx
  /-- The frame each blank found held at the head, the newest blank first. -/
  blanks : List (Option ℕ)
  /-- What the blank found that counted as the first in `held_blanks`. -/
  clock : Option ℕ

/-- What the clock was started for, after a blank. -/
def GenetHold.clockAfter (h : GenetHold) : Option ℕ :=
  if h.rx.rxBehind ∧ h.rx.heldBlanks = 0 then heldHead h.rx else h.clock

/-- One event, with what a blank finds. -/
def holdStep (h : GenetHold) (e : GenetEvent) : Option GenetHold :=
  (genetStep h.rx e).map fun g ↦
    match e with
    | .blank => ⟨g, heldHead h.rx :: h.blanks, h.clockAfter⟩
    | _ => { h with rx := g }

/-- No blank has come yet. -/
def GenetHold.Initial (h : GenetHold) : Prop :=
  h.rx.Initial ∧ h.blanks = [] ∧ h.clock = none

/-! ### The clock and the frame it was started for -/

/-- The clock was started for the frame that is at the head of the ring now. -/
def GenetHold.Timed (h : GenetHold) : Prop := h.clock = some h.rx.consumed.length

/-- What is known between passes and at the end of one. -/
structure HoldRest (h : GenetHold) : Prop where
  undropped : h.rx.rxHeld = true → h.rx.dropHeld = false
  kept : h.Timed → h.rx.dropHeld = false
  held : h.Timed → h.rx.rxBehind = true → h.rx.rxHeld = true

/-- What is known in a pass. A pass that has consumed a frame has passed the one the clock was
started for. -/
def HoldPass (h : GenetHold) : GenetPass → Prop
  | .idle => HoldRest h
  | .started _ total => total ≠ 0
  | .walking total n => h.rx.rxHeld = false ∧ (h.Timed → n = 0 ∧ total ≠ 0)
  | .ending => HoldRest h

/-- The clock. While the frame it was started for is at the head, every blank that was counted has
found that frame held. -/
structure HoldClock (h : GenetHold) : Prop where
  ring : ∃ k, GenetInv k h.rx
  behind : ∀ s, h.clock = some s → s ≤ h.rx.consumed.length
  waits : h.rx.rxHeld = true → h.rx.consumed.length < h.rx.completed
  short : h.rx.heldBlanks < geHoldBlanks
  counted : h.Timed → h.blanks.take h.rx.heldBlanks =
    List.replicate h.rx.heldBlanks (some h.rx.consumed.length)
  dropped : h.Timed → h.rx.dropHeld = true → h.blanks.take geHoldBlanks =
    List.replicate geHoldBlanks (some h.rx.consumed.length)

/-- The invariant of the clock over a run. -/
structure HoldInv (h : GenetHold) : Prop extends HoldClock h where
  pass : HoldPass h h.rx.pass

section Steps

variable {h : GenetHold}

/-- The buffer at the head is the next to be consumed. -/
theorem GenetInv.heldHead_eq {k : ℕ} {g : GenetRx} (hinv : GenetInv k g) (hheld : g.rxHeld = true)
    (hlt : g.consumed.length < g.completed) : heldHead g = some g.consumed.length := by
  rw [heldHead, if_pos hheld, hinv.rxSlot, hinv.intact _ hinv.back_le hlt]

/-- A step that consumes nothing and leaves the clock alone. -/
theorem HoldClock.frame (hclock : HoldClock h) {g : GenetRx} (hring : ∃ k, GenetInv k g)
    (hconsumed : g.consumed = h.rx.consumed) (hblanks : g.heldBlanks = h.rx.heldBlanks)
    (hdrop : g.dropHeld = h.rx.dropHeld)
    (hwaits : g.rxHeld = true → g.consumed.length < g.completed) :
    HoldClock { h with rx := g } := by
  have htimed : GenetHold.Timed { h with rx := g } ↔ h.Timed := by
    rw [GenetHold.Timed, GenetHold.Timed, hconsumed]
  refine ⟨hring, ?_, hwaits, ?_, fun ht ↦ ?_, fun ht hd ↦ ?_⟩
  · change ∀ s, h.clock = some s → s ≤ g.consumed.length
    rw [hconsumed]
    exact hclock.behind
  · exact hblanks ▸ hclock.short
  · change h.blanks.take g.heldBlanks = List.replicate g.heldBlanks (some g.consumed.length)
    rw [hblanks, hconsumed]
    exact hclock.counted (htimed.mp ht)
  · change h.blanks.take geHoldBlanks = List.replicate geHoldBlanks (some g.consumed.length)
    rw [hconsumed]
    exact hclock.dropped (htimed.mp ht) (hdrop ▸ hd)

/-- A step that consumes a frame leaves the one the clock was started for behind. -/
theorem HoldClock.consume (hclock : HoldClock h) {g : GenetRx} (hring : ∃ k, GenetInv k g)
    (hconsumed : g.consumed.length = h.rx.consumed.length + 1)
    (hblanks : g.heldBlanks = h.rx.heldBlanks) (hheld : g.rxHeld = false) :
    HoldClock { h with rx := g } ∧ ¬GenetHold.Timed { h with rx := g } := by
  have hpassed : ¬GenetHold.Timed { h with rx := g } := by
    intro ht
    have hle := hclock.behind _ ht
    change g.consumed.length ≤ h.rx.consumed.length at hle
    omega
  refine ⟨⟨hring, fun s hs ↦ ?_, fun hheld' ↦ ?_, hblanks ▸ hclock.short, fun ht ↦ ?_,
    fun ht ↦ ?_⟩, hpassed⟩
  · exact Nat.le_trans (hclock.behind s hs) (hconsumed ▸ Nat.le_succ _)
  · exact absurd (hheld.symm.trans hheld') Bool.false_ne_true
  · exact absurd ht hpassed
  · exact absurd ht hpassed

/-- **The start of a pass.** A frame the clock was started for is seen by it. -/
theorem HoldClock.begin (hclock : HoldClock h) (hidle : h.rx.pass = .idle)
    (hwaits : h.Timed → h.rx.rxBehind = true ∨ h.rx.dropHeld = true →
      h.rx.consumed.length < h.rx.completed) :
    HoldInv { h with rx := rxBegin h.rx } := by
  obtain ⟨k, hring⟩ := hclock.ring
  have hring' : ∃ k, GenetInv k (rxBegin h.rx) := ⟨k, hring.begin⟩
  by_cases hzero : h.rx.prodIndex - h.rx.rxCidx = 0
  · have hbegin : rxBegin h.rx = { h.rx with rxHeld := false } := by
      rw [rxBegin]
      exact if_pos hzero
    have hseen {P : Prop} (hlt : h.rx.consumed.length < h.rx.completed) : P :=
      absurd hzero (hring.total_ne_zero hlt)
    rw [hbegin] at hring' ⊢
    refine ⟨hclock.frame hring' rfl rfl rfl fun hheld ↦ absurd hheld Bool.false_ne_true, ?_⟩
    change HoldPass _ h.rx.pass
    rw [hidle]
    refine ⟨fun hheld ↦ absurd hheld Bool.false_ne_true, fun ht ↦ ?_, fun ht hb ↦ ?_⟩
    · by_contra hdrop
      exact hseen (hwaits ht (.inr (by simpa using hdrop)))
    · exact hseen (hwaits ht (.inl hb))
  · have hbegin : rxBegin h.rx = { h.rx with
        pass := .started h.rx.prodIndex (if h.rx.prodIndex - h.rx.rxCidx > 128 then 128
          else h.rx.prodIndex - h.rx.rxCidx) } := by
      rw [rxBegin]
      exact if_neg hzero
    rw [hbegin] at hring' ⊢
    refine ⟨hclock.frame hring' rfl rfl rfl hclock.waits, ?_⟩
    change (if h.rx.prodIndex - h.rx.rxCidx > 128 then (128 : UInt16)
      else h.rx.prodIndex - h.rx.rxCidx) ≠ 0
    split_ifs
    · decide
    · exact hzero

theorem HoldInv.clockAfter_le (hinv : HoldInv h) {s : ℕ} (hs : h.clockAfter = some s) :
    s ≤ h.rx.consumed.length := by
  obtain ⟨k, hring⟩ := hinv.ring
  rw [GenetHold.clockAfter] at hs
  split_ifs at hs
  · by_cases hheld : h.rx.rxHeld = true
    · rw [hring.heldHead_eq hheld (hinv.waits hheld)] at hs
      exact Nat.le_of_eq (Option.some.inj hs).symm
    · rw [heldHead, if_neg hheld] at hs
      cases hs
  · exact hinv.behind s hs

/-- **A blank that counts** finds the frame the clock was started for held. -/
theorem HoldInv.heldHead_of_clockAfter (hinv : HoldInv h) (hrest : HoldRest h)
    (hbehind : h.rx.rxBehind = true) (ht : h.clockAfter = some h.rx.consumed.length) :
    h.rx.rxHeld = true ∧ heldHead h.rx = some h.rx.consumed.length ∧
      (h.rx.heldBlanks ≠ 0 → h.Timed) := by
  obtain ⟨k, hring⟩ := hinv.ring
  rw [GenetHold.clockAfter] at ht
  have hheld : h.rx.rxHeld = true := by
    split_ifs at ht
    · by_contra hnot
      rw [heldHead, if_neg hnot] at ht
      cases ht
    · exact hrest.held ht hbehind
  refine ⟨hheld, hring.heldHead_eq hheld (hinv.waits hheld), fun hne ↦ ?_⟩
  rwa [if_neg fun hzero ↦ hne hzero.2] at ht

/-- The blanks that were counted, with one more. -/
theorem HoldInv.take_blanks (hinv : HoldInv h) (hrest : HoldRest h)
    (hbehind : h.rx.rxBehind = true) (ht : h.clockAfter = some h.rx.consumed.length) :
    (heldHead h.rx :: h.blanks).take (h.rx.heldBlanks + 1) =
      List.replicate (h.rx.heldBlanks + 1) (some h.rx.consumed.length) := by
  obtain ⟨-, hhead, htimed⟩ := hinv.heldHead_of_clockAfter hrest hbehind ht
  have hbefore : h.blanks.take h.rx.heldBlanks =
      List.replicate h.rx.heldBlanks (some h.rx.consumed.length) := by
    by_cases hzero : h.rx.heldBlanks = 0
    · rw [hzero]
      rfl
    · exact hinv.counted (htimed hzero)
  rw [List.take_succ_cons, hhead, hbefore, List.replicate_succ]

/-- **A blank.** -/
theorem HoldInv.blank (hinv : HoldInv h) (hidle : h.rx.pass = .idle) :
    HoldInv ⟨genetTick h.rx, heldHead h.rx :: h.blanks, h.clockAfter⟩ := by
  have hrest : HoldRest h := by
    have hpass := hinv.pass
    rw [hidle] at hpass
    exact hpass
  obtain ⟨k, hring⟩ := hinv.ring
  have hshort := hinv.short
  rw [genetTick]
  by_cases hbehind : h.rx.rxBehind = true
  · rw [if_pos hbehind]
    -- the counter after this blank, before the pass it starts
    have hclock : HoldClock ⟨{ h.rx with
        heldBlanks := if h.rx.heldBlanks + 1 ≥ geHoldBlanks then 0 else h.rx.heldBlanks + 1
        dropHeld := if h.rx.heldBlanks + 1 ≥ geHoldBlanks then true else h.rx.dropHeld
        behindBlanks := h.rx.behindBlanks + 1
        ranOutHeld := if h.rx.heldBlanks + 1 ≥ geHoldBlanks then h.rx.rxHeld else h.rx.ranOutHeld },
        heldHead h.rx :: h.blanks, h.clockAfter⟩ := by
      refine ⟨⟨k, hring.counted h.rx.rxErrors h.rx.rxPackets _ _ _ _⟩, fun s ↦ hinv.clockAfter_le,
        hinv.waits, ?_, fun ht ↦ ?_, fun ht hd ↦ ?_⟩
      · dsimp only
        split_ifs
        · decide
        · omega
      · dsimp only
        split_ifs
        · rfl
        · exact hinv.take_blanks hrest hbehind ht
      · dsimp only at hd ⊢
        split_ifs at hd with hout
        · have hlast : h.rx.heldBlanks + 1 = geHoldBlanks := by omega
          rw [← hlast]
          exact hinv.take_blanks hrest hbehind ht
        · obtain ⟨hheld, -⟩ := hinv.heldHead_of_clockAfter hrest hbehind ht
          exact absurd ((hrest.undropped hheld).symm.trans hd) Bool.false_ne_true
    exact hclock.begin hidle fun ht _ ↦
      hinv.waits (hinv.heldHead_of_clockAfter hrest hbehind ht).1
  · have hsame : h.clockAfter = h.clock := if_neg fun hboth ↦ hbehind hboth.1
    rw [if_neg hbehind, hsame]
    refine ⟨⟨⟨k, hring.counted h.rx.rxErrors h.rx.rxPackets _ _ _ _⟩, hinv.behind, hinv.waits,
      (by decide : 0 < geHoldBlanks), fun _ ↦ rfl, fun ht hd ↦ ?_⟩, ?_⟩
    · exact absurd ((hrest.kept ht).symm.trans hd) Bool.false_ne_true
    · change HoldPass _ h.rx.pass
      rw [hidle]
      exact ⟨hrest.undropped, hrest.kept, hrest.held⟩

/-- **A turn of the loop.** -/
theorem HoldInv.turn (hinv : HoldInv h) {total n : UInt16} {reply : ClaimReply}
    (hpass : h.rx.pass = .walking total n) :
    HoldInv { h with rx := geFrame h.rx total n reply } := by
  obtain ⟨k, hring⟩ := hinv.ring
  have hring' : ∃ k, GenetInv k (geFrame h.rx total n reply) := ⟨k, hring.frame hpass⟩
  obtain ⟨hnotHeld, hfirst⟩ : h.rx.rxHeld = false ∧ (h.Timed → n = 0 ∧ total ≠ 0) := by
    have hp := hinv.pass
    rw [hpass] at hp
    exact hp
  have hsilent : ∀ {P : Prop}, h.rx.rxHeld = true → P := fun hheld ↦
    absurd (hnotHeld.symm.trans hheld) Bool.false_ne_true
  -- the pass ends without a frame held: it has consumed some
  have hends (hpassed : ¬h.Timed) {behind : Bool}
      (hr : ∃ k, GenetInv k { h.rx with rxBehind := behind, pass := .ending }) :
      HoldInv { h with rx := { h.rx with rxBehind := behind, pass := .ending } } :=
    ⟨hinv.toHoldClock.frame hr rfl rfl rfl hsilent,
      ⟨hsilent, fun ht ↦ absurd ht hpassed, fun ht ↦ absurd ht hpassed⟩⟩
  rw [geFrame] at hring' ⊢
  by_cases hdone : n ≥ total
  · rw [if_pos hdone] at hring' ⊢
    refine hends (fun ht ↦ ?_) hring'
    obtain ⟨rfl, hne⟩ := hfirst ht
    exact hne (UInt16.le_zero_iff.mp hdone)
  rw [if_neg hdone] at hring' ⊢
  by_cases hcut : n.toNat ≥ geRxPassMax
  · rw [if_pos hcut] at hring' ⊢
    refine hends (fun ht ↦ ?_) hring'
    obtain ⟨rfl, -⟩ := hfirst ht
    exact absurd hcut (by decide)
  rw [if_neg hcut, geConsider] at hring' ⊢
  -- the frame is consumed, and the clock's frame with it, or is held
  have hconsumed {g : GenetRx} (hr : ∃ k, GenetInv k g) (hpass' : ∃ n', g.pass = .walking total n')
      (hlength : g.consumed.length = h.rx.consumed.length + 1)
      (hblanks : g.heldBlanks = h.rx.heldBlanks) (hheld : g.rxHeld = h.rx.rxHeld) :
      HoldInv { h with rx := g } := by
    obtain ⟨hclock, hpassed⟩ := hinv.toHoldClock.consume hr hlength hblanks (hheld.trans hnotHeld)
    obtain ⟨n', hn'⟩ := hpass'
    refine ⟨hclock, ?_⟩
    change HoldPass _ g.pass
    rw [hn']
    exact ⟨hheld.trans hnotHeld, fun ht ↦ absurd ht hpassed⟩
  by_cases hbad : statusBad (h.rx.buf (rxSlot h.rx)).status = true
  · rw [if_pos hbad] at hring' ⊢
    exact hconsumed hring' ⟨_, rfl⟩ List.length_append rfl rfl
  rw [if_neg hbad] at hring' ⊢
  cases hdeliver : geDeliver (rxLook h.rx).dropHeld (h.rx.buf (rxSlot h.rx)).first reply with
  | some outcome =>
    rw [hdeliver] at hring'
    exact hconsumed hring' ⟨_, rfl⟩ List.length_append rfl rfl
  | none =>
    rw [hdeliver] at hring'
    have hdrop : h.rx.dropHeld = false := geDeliver_eq_none hdeliver
    refine ⟨hinv.toHoldClock.frame hring' rfl rfl rfl fun _ ↦ ?_,
      ⟨fun _ ↦ hdrop, fun _ ↦ hdrop, fun _ _ ↦ rfl⟩⟩
    have hwalk := hring.pass
    rw [hpass] at hwalk
    obtain ⟨-, -, hk⟩ := hwalk
    have hlt := UInt16.lt_iff_toNat_lt.mp (UInt16.not_le.mp hdone)
    have hle := hring.clean_le
    change h.rx.consumed.length < h.rx.completed
    omega

/-- **One event** keeps the clock with its frame. -/
theorem HoldInv.step (hinv : HoldInv h) {e : GenetEvent} {h' : GenetHold}
    (hstep : holdStep h e = some h') : HoldInv h' := by
  obtain ⟨k, hring⟩ := hinv.ring
  obtain ⟨g, hg, rfl⟩ := Option.map_eq_some_iff.mp hstep
  have hring' := hring.step hg
  have hpass := hinv.pass
  cases genetStep_moves hg with
  | complete hcomplete =>
    rw [chipComplete] at hcomplete
    split_ifs at hcomplete
    obtain rfl := Option.some.inj hcomplete
    refine ⟨hinv.toHoldClock.frame hring' rfl rfl rfl fun hheld ↦ ?_, ?_⟩
    · exact Nat.lt_succ_of_lt (hinv.waits hheld)
    · change HoldPass _ h.rx.pass
      cases hp : h.rx.pass with
      | idle | ending =>
        rw [hp] at hpass
        exact ⟨hpass.undropped, hpass.kept, hpass.held⟩
      | started pidx total | walking total n =>
        rw [hp] at hpass
        exact hpass
  | rxintr hidle =>
    rw [hidle] at hpass
    refine hinv.toHoldClock.begin hidle fun ht hor ↦ ?_
    rcases hor with hbehind | hdrop
    · exact hinv.waits (hpass.held ht hbehind)
    · exact absurd ((hpass.kept ht).symm.trans hdrop) Bool.false_ne_true
  | blank hidle => exact hinv.blank hidle
  | prepare hstarted =>
    rw [hstarted] at hpass
    rw [rxPrepare, rxCleanFresh_eq] at hring' ⊢
    exact ⟨hinv.toHoldClock.frame hring' rfl rfl rfl fun hheld ↦
      absurd hheld Bool.false_ne_true, rfl, fun _ ↦ ⟨rfl, hpass⟩⟩
  | frame hwalking => exact hinv.turn hwalking
  | finish hending =>
    rw [hending] at hpass
    exact ⟨hinv.toHoldClock.frame hring' rfl rfl rfl hinv.waits,
      ⟨hpass.undropped, hpass.kept, hpass.held⟩⟩

theorem HoldInv.of_initial (hinit : h.Initial) : HoldInv h := by
  obtain ⟨hrx, -, hclock⟩ := hinit
  have hring := GenetInv.of_initial hrx
  obtain ⟨-, -, -, -, -, hpass, -, -, -, -, hdrop, hblanks, -, hheld, -⟩ := hrx
  have huntimed : ¬h.Timed := by
    intro ht
    rw [GenetHold.Timed, hclock] at ht
    cases ht
  refine ⟨⟨⟨0, hring⟩, fun s hs ↦ ?_, fun hheld' ↦ ?_, ?_, fun ht ↦ absurd ht huntimed,
    fun ht ↦ absurd ht huntimed⟩, ?_⟩
  · rw [hclock] at hs
    cases hs
  · exact absurd (hheld.symm.trans hheld') Bool.false_ne_true
  · rw [hblanks]
    decide
  · rw [hpass]
    exact ⟨fun _ ↦ hdrop, fun _ ↦ hdrop, fun ht ↦ absurd ht huntimed⟩

end Steps

/-- **Frames that are let go were held.** In every run, a frame that is let go for want of a read
and that the clock was started for has been held at the head of the ring on each of the last
`GE_HOLD_BLANKS` blanks. -/
theorem genet_letGo_held {h h' : GenetHold} {e : GenetEvent} {s : ℕ}
    (hreach : Reachable holdStep GenetHold.Initial h) (hstep : holdStep h e = some h')
    (hgo : h'.rx.consumed = h.rx.consumed ++ [⟨s, .letGo⟩]) (hclock : h.clock = some s) :
    h.blanks.take geHoldBlanks = List.replicate geHoldBlanks (some s) := by
  have hinv : HoldInv h :=
    hreach.invariant (fun _ ↦ HoldInv.of_initial) fun _ _ _ hs hstep ↦ hs.step hstep
  obtain ⟨k, hring⟩ := (hinv.step hstep).ring
  obtain ⟨g, hg, hrx⟩ := Option.map_eq_some_iff.mp hstep
  have hnext : h'.rx = g := by
    rw [← hrx]
    cases e <;> rfl
  rw [hring.seq_eq hgo] at hclock ⊢
  exact hinv.dropped hclock (dropHeld_of_letGo hg (hnext ▸ hgo))

/-- The ring as it is set up, before any blank. -/
def GenetHold.setUp : GenetHold := ⟨GenetRx.setUp, [], none⟩

theorem GenetHold.initial_setUp : GenetHold.setUp.Initial :=
  ⟨GenetRx.initial_setUp, rfl, rfl⟩

/-- A state that events lead to, and one more event there. -/
theorem exists_holdStep {P : GenetHold → GenetHold → Prop} [∀ h h', Decidable (P h h')]
    (es : List GenetEvent) {e : GenetEvent}
    (hrun : ((run holdStep GenetHold.setUp es).bind fun h ↦
      (holdStep h e).map fun h' ↦ (h, h')).any (fun p ↦ decide (P p.1 p.2)) = true) :
    ∃ h h', Reachable holdStep GenetHold.Initial h ∧ holdStep h e = some h' ∧ P h h' := by
  obtain ⟨⟨h, h'⟩, hpair, hstate⟩ := (Option.any_eq_true _ _).mp hrun
  obtain ⟨h₁, hh, hmap⟩ := Option.bind_eq_some_iff.mp hpair
  obtain ⟨h₂, hstep, hpair⟩ := Option.map_eq_some_iff.mp hmap
  obtain ⟨rfl, rfl⟩ := Prod.mk.inj hpair
  exact ⟨h₁, h₂, ⟨_, _, GenetHold.initial_setUp, hh⟩, hstep, of_decide_eq_true hstate⟩

/-- On the fifth blank that finds it held, the frame is let go. -/
theorem genet_letGo_held_fifth :
    ∃ h h' e, Reachable holdStep GenetHold.Initial h ∧ holdStep h e = some h' ∧
      h'.rx.consumed = h.rx.consumed ++ [⟨0, .letGo⟩] ∧
      h.blanks.take geHoldBlanks = List.replicate geHoldBlanks (some 0) := by
  obtain ⟨h, h', hreach, hstep, hgo, hclock⟩ :
      ∃ h h', Reachable holdStep GenetHold.Initial h ∧ holdStep h (.frame .behind) = some h' ∧
        h'.rx.consumed = h.rx.consumed ++ [⟨0, .letGo⟩] ∧ h.clock = some 0 :=
    exists_holdStep (fourBlanks 2 ++ [.blank, .prepare]) (by decide +kernel)
  exact ⟨h, h', _, hreach, hstep, hgo, genet_letGo_held hreach hstep hgo hclock⟩

/-- **A frame that is let go on its first blank.** After four blanks a read is posted, and a pass
takes the first frame and holds the second. The fifth blank is the first that finds the second frame
at the head, and lets it go. -/
theorem genet_letGo_early :
    ∃ h h' e, Reachable holdStep GenetHold.Initial h ∧ holdStep h e = some h' ∧
      h'.rx.consumed = h.rx.consumed ++ [⟨1, .letGo⟩] ∧
      h.blanks = [some 1, some 0, some 0, some 0, some 0] ∧
      h.blanks.take geHoldBlanks ≠ List.replicate geHoldBlanks (some 1) := by
  obtain ⟨h, h', hreach, hstep, hgo, hblanks⟩ :
      ∃ h h', Reachable holdStep GenetHold.Initial h ∧ holdStep h (.frame .behind) = some h' ∧
        h'.rx.consumed = h.rx.consumed ++ [⟨1, .letGo⟩] ∧
        h.blanks = [some 1, some 0, some 0, some 0, some 0] :=
    exists_holdStep (fourBlanks 2 ++
      [.rxintr, .prepare, .frame .slot, .frame .behind, .finish, .blank, .prepare])
      (by decide +kernel)
  exact ⟨h, h', _, hreach, hstep, hgo, hblanks, hblanks ▸ by decide⟩

end AmiNetXDuo.Netdev
