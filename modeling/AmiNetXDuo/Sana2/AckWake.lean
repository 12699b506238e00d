import AmiNetXDuo.Sana2.AckPace

/-!
# Waking the reader of held acknowledgments

A sender that has left an acknowledgment in the queue wakes the reader, behind the section in which
it saw that there is one: it reads `ack_task` again to compare it with itself, and once more for the
call of `Signal()`.  Nothing in these lines keeps the reader from stopping in between.  What does is
the scheduler: senders and reader are ThreadX threads, one of them owns the baton of the stack, and
it gives it up only where it blocks, in a service call or between `ami_sana2_block_enter()` and
`ami_sana2_block_leave()`.  There is no such place between the section and the signal.

## Main definitions

* `WakeTail`, `WakeSys`, `wakeExec` : the sections of pacing with the reads behind them apart, every
  step made by the task that has the baton.

## Main results

* `WakeInv.step` : one event.
* `ackWake_reader` : who is signalled.
-/

namespace AmiNetXDuo.Sana2

open Interleaving

variable {τ : Type}

/-- Where a sender is behind its section, with the reader it saw there: before the comparison with
itself, before it reads the reader again, and before the call with what it read. -/
inductive WakeTail (τ : Type) where
  | none
  | testing (seen : Option τ)
  | reading (seen : Option τ)
  | calling (seen target : Option τ)
  deriving DecidableEq, Repr

/-- A call of `Signal()`: the reader seen in the section, the task that is signalled, and the reader
at the time of the call. -/
structure SignalCall (τ : Type) where
  seen : Option τ
  target : Option τ
  reader : Option τ
  deriving DecidableEq, Repr

/-- The interface and its tasks, who has the baton, and the signals so far. -/
structure WakeSys (τ : Type) where
  sys : AckSys τ
  /-- `rd->task`. -/
  readerTask : Option τ
  baton : Option τ
  tail : τ → WakeTail τ
  signals : List (SignalCall τ)

/-- A section of pacing, one of the reads behind that of `ami_sana2_ack_hold()`, or the baton. -/
inductive WakeEvent (τ : Type) where
  | pace (e : AckEvent τ)
  | test (t : τ)
  | read (t : τ)
  | signal (t : τ)
  /-- The scheduler lets a task run. -/
  | dispatch (t : τ)
  /-- The task blocks. -/
  | block (t : τ)

variable [DecidableEq τ]

/-- A sender moves on behind its section. -/
def WakeSys.setTail (s : WakeSys τ) (t : τ) (x : WakeTail τ) : WakeSys τ :=
  { s with tail := Function.update s.tail t x }

/-- The sender is done. -/
def WakeSys.finish (s : WakeSys τ) (t : τ) : WakeSys τ :=
  { s with sys := s.sys.setSender t .idle }.setTail t .none

/-- The task whose step an event of pacing is; the report of the driver is nobody's. -/
def WakeSys.actor (s : WakeSys τ) : AckEvent τ → Option τ
  | .send t .. | .hold t | .wake t | .sendNow t | .readerStart t _ => some t
  | .capacity _ => Option.none
  | _ => s.readerTask

/-- The task has the baton and is not behind a section. -/
def WakeSys.runs (s : WakeSys τ) (t : τ) : Bool := s.baton = some t ∧ s.tail t = .none

/-- A section of pacing.  The end of a sender is not an event of its own here. -/
def wakePace (s : WakeSys τ) (e : AckEvent τ) : Option (WakeSys τ) :=
  match e with
  | .wake _ => Option.none
  | .hold t =>
    (ackExec s.sys (.hold t)).map fun sys ↦
      if sys.sender t = .waking then { s with sys := sys }.setTail t (.testing s.sys.iface.task)
      else { s with sys := sys }
  | .readerStart t opened =>
    (ackExec s.sys (.readerStart t opened)).map fun sys ↦
      { s with sys := sys, readerTask := some t }
  | e => (ackExec s.sys e).map fun sys ↦ { s with sys := sys }

/-- What an event does; nothing when the task is elsewhere, or another has the baton. -/
def wakeExec (s : WakeSys τ) : WakeEvent τ → Option (WakeSys τ)
  | .pace (.capacity hwRxBytes) => wakePace s (.capacity hwRxBytes)
  | .pace e => if (s.actor e).any s.runs then wakePace s e else Option.none
  -- who is behind its section has not blocked since, so it still has the baton
  | .test t =>
    match s.tail t with
    | .testing seen =>
      if s.sys.iface.task = some t then some (s.finish t) else some (s.setTail t (.reading seen))
    | _ => Option.none
  | .read t =>
    match s.tail t with
    | .reading seen => some (s.setTail t (.calling seen s.sys.iface.task))
    | _ => Option.none
  | .signal t =>
    match s.tail t with
    | .calling seen target =>
      let call : SignalCall τ := ⟨seen, target, s.sys.iface.task⟩
      some ({ s with signals := s.signals ++ [call] }.finish t)
    | _ => Option.none
  | .dispatch t => if s.baton = Option.none then some { s with baton := some t } else Option.none
  -- a task may block wherever it is not between its section and its signal
  | .block t => if s.runs t then some { s with baton := Option.none } else Option.none

/-- Pacing as it is set up, with every task elsewhere. -/
def WakeSys.Initial (s : WakeSys τ) : Prop :=
  s.sys.Initial ∧ (∀ t, s.tail t = .none) ∧ s.signals = []

/-- What a sender on its way relies on. -/
def WakeTail.Ok (task : Option τ) : WakeTail τ → Prop
  | .none => True
  | .testing seen | .reading seen => seen.isSome ∧ task = seen
  | .calling seen target => seen.isSome ∧ task = seen ∧ target = seen

/-- A call that reaches the reader the section saw. -/
def SignalCall.Ok (c : SignalCall τ) : Prop :=
  c.target.isSome ∧ c.target = c.seen ∧ c.reader = c.target

/-- What holds in every state. -/
structure WakeInv (s : WakeSys τ) : Prop where
  /-- Who is on its way to the signal has the baton. -/
  baton : ∀ t, s.tail t ≠ .none → s.baton = some t
  tail : ∀ t, (s.tail t).Ok s.sys.iface.task
  signals : ∀ c ∈ s.signals, c.Ok

/-- A sender that has left something in the queue has seen a reader. -/
theorem task_of_waking {s s' : AckSys τ} {t : τ} (he : ackExec s (.hold t) = some s')
    (hwaking : s'.sender t = .waking) : s.iface.task.isSome ∧ s'.iface.task = s.iface.task := by
  simp only [ackExec] at he
  split at he <;> cases he
  unfold ackHold at hwaking ⊢
  split at hwaking
  · next hsec =>
    obtain ⟨-, htask, hsome, -⟩ := amiSana2AckHold_some hsec
    exact ⟨hsome, htask⟩
  · simp [AckSys.setSender] at hwaking

variable {s s' : WakeSys τ}

/-- While a task runs, nobody else is on its way to the signal. -/
theorem WakeInv.tail_none (h : WakeInv s) {t : τ} (hruns : s.runs t = true) (t' : τ) :
    s.tail t' = .none := by
  obtain ⟨hbaton, htail⟩ := of_decide_eq_true hruns
  by_contra hne
  obtain rfl : t = t' := Option.some.inj (hbaton.symm.trans (h.baton t' hne))
  exact hne htail

/-- One sender, which has the baton, moves on. -/
theorem WakeInv.setTail (h : WakeInv s) {t : τ} {x : WakeTail τ} (hbaton : s.baton = some t)
    (hx : x.Ok s.sys.iface.task) : WakeInv (s.setTail t x) := by
  refine ⟨fun t' ht' ↦ ?_, fun t' ↦ ?_, h.signals⟩ <;>
    simp only [WakeSys.setTail, Function.update_apply] at *
  · split_ifs at ht' with heq
    · rw [heq]
      exact hbaton
    · exact h.baton t' ht'
  · split_ifs
    · exact hx
    · exact h.tail t'

theorem WakeInv.finish (h : WakeInv s) {t : τ} (hbaton : s.baton = some t) :
    WakeInv (s.finish t) := by
  have hidle : WakeInv { s with sys := s.sys.setSender t .idle } := ⟨h.baton, h.tail, h.signals⟩
  exact hidle.setTail hbaton (x := .none) trivial

/-- A section of the task that runs: behind it at most this task is on its way. -/
theorem WakeInv.pace (h : WakeInv s) {e : AckEvent τ} {t : τ} (hactor : s.actor e = some t)
    (hruns : s.runs t = true) (he : wakePace s e = some s') : WakeInv s' := by
  have hnone := h.tail_none hruns
  -- the tails do not depend on who the reader is, for there are none
  have hmoved (sys : AckSys τ) (r : Option τ) : WakeInv { s with sys := sys, readerTask := r } :=
    ⟨h.baton, fun t' ↦ by rw [hnone t']; trivial, h.signals⟩
  cases e with
  | wake t' => cases he
  | hold t' =>
    obtain rfl : t' = t := Option.some.inj hactor
    obtain ⟨sys, hsys, rfl⟩ := Option.map_eq_some_iff.mp he
    split_ifs with hwaking
    · exact (hmoved sys s.readerTask).setTail (of_decide_eq_true hruns).1
        (task_of_waking hsys hwaking)
    · exact hmoved sys s.readerTask
  | readerStart t' opened =>
    obtain ⟨sys, -, rfl⟩ := Option.map_eq_some_iff.mp he
    exact hmoved sys _
  | _ =>
    simp only [wakePace, Option.map_eq_some_iff] at he
    obtain ⟨sys, -, rfl⟩ := he
    exact hmoved sys s.readerTask

/-- The call itself. -/
theorem WakeInv.signal (h : WakeInv s) {t : τ} {seen target : Option τ}
    (htail : s.tail t = .calling seen target) :
    WakeInv ({ s with
      signals := s.signals ++ [SignalCall.mk seen target s.sys.iface.task] }.finish t) := by
  have hok := h.tail t
  rw [htail] at hok
  have hbaton := h.baton t (by simp [htail])
  have hcall : WakeInv { s with
      signals := s.signals ++ [SignalCall.mk seen target s.sys.iface.task] } := by
    refine ⟨h.baton, h.tail, fun c hc ↦ ?_⟩
    rcases List.mem_append.mp hc with hc | hc
    · exact h.signals c hc
    · obtain rfl := List.mem_singleton.mp hc
      exact ⟨hok.2.2 ▸ hok.1, hok.2.2, hok.2.1.trans hok.2.2.symm⟩
  exact hcall.finish hbaton

/-- **One event.** -/
theorem WakeInv.step (h : WakeInv s) {e : WakeEvent τ} (he : wakeExec s e = some s') :
    WakeInv s' := by
  cases e with
  | pace e =>
    by_cases hdriver : ∃ hwRxBytes, e = .capacity hwRxBytes
    · obtain ⟨hwRxBytes, rfl⟩ := hdriver
      cases he
      exact ⟨h.baton, h.tail, h.signals⟩
    · rw [wakeExec] at he
      · split at he
        · next hany =>
          obtain ⟨t, hactor, hruns⟩ := (Option.any_eq_true _ _).mp hany
          exact h.pace hactor hruns he
        · cases he
      · exact fun hwRxBytes heq ↦ hdriver ⟨hwRxBytes, heq⟩
  | test t =>
    have htail := h.tail t
    simp only [wakeExec] at he
    split at he
    · next seen hseen =>
      have hbaton := h.baton t (by simp [hseen])
      rw [hseen] at htail
      split_ifs at he <;> cases he
      · exact h.finish hbaton
      · exact h.setTail hbaton htail
    · cases he
  | read t =>
    have htail := h.tail t
    simp only [wakeExec] at he
    split at he <;> cases he
    next seen hseen =>
    rw [hseen] at htail
    exact h.setTail (h.baton t (by simp [hseen])) ⟨htail.1, htail.2, htail.2⟩
  | signal t =>
    simp only [wakeExec] at he
    split at he <;> cases he
    next hseen => exact h.signal hseen
  | dispatch t =>
    simp only [wakeExec] at he
    split_ifs at he with hfree
    cases he
    refine ⟨fun t' ht' ↦ ?_, h.tail, h.signals⟩
    rw [h.baton t' ht'] at hfree
    cases hfree
  | block t =>
    simp only [wakeExec] at he
    split_ifs at he with hruns
    cases he
    exact ⟨fun t' ht' ↦ absurd (h.tail_none hruns t') ht', h.tail, h.signals⟩

/-- **The reader is signalled.** In every interleaving the baton allows, the task that a sender
signals is the reader its section has seen, and still is the reader. -/
theorem ackWake_reader (h : Reachable wakeExec WakeSys.Initial s) :
    ∀ c ∈ s.signals, c.target.isSome ∧ c.target = c.seen ∧ c.reader = c.target := by
  have hinv : WakeInv s := h.invariant
    (fun s hs ↦ ⟨fun t ht ↦ absurd (hs.2.1 t) ht, fun t ↦ by rw [hs.2.1 t]; trivial,
      by simp [hs.2.2]⟩)
    fun s e s' hs he ↦ hs.step he
  exact hinv.signals

/-- The reader starts; then one acknowledgment goes and one waits, whose sender wakes the reader
before it blocks and the reader stops. -/
def oneHeld : List (WakeEvent Bool) :=
  [.dispatch true, .pace (.readerStart true true), .block true, .dispatch false,
    .pace (.send false (pureAck [0, 0, 4, 0] [255, 255]) true 0 0 0), .pace (.hold false),
    .pace (.sendNow false), .pace (.send false (pureAck [0, 0, 8, 0] [255, 255]) true 0 0 0),
    .pace (.hold false), .test false, .read false, .signal false, .block false, .dispatch true,
    .pace .readerStop]

/-- An interface that paces, with nobody on its way. -/
def pacedWake : WakeSys Bool := ⟨pacedIf, none, none, fun _ ↦ .none, []⟩

theorem pacedWake_initial : pacedWake.Initial :=
  ⟨pacedIf_initial, fun _ ↦ rfl, rfl⟩

theorem ackWake_reader_oneHeld :
    ∃ s, run wakeExec pacedWake oneHeld = some s ∧
      s.signals = [⟨some true, some true, some true⟩] ∧
      ∀ c ∈ s.signals, c.target.isSome ∧ c.target = c.seen ∧ c.reader = c.target := by
  have hrun : (run wakeExec pacedWake oneHeld).map (·.signals) =
      some [⟨some true, some true, some true⟩] := by decide
  obtain ⟨s, hs, hsignals⟩ := Option.map_eq_some_iff.mp hrun
  exact ⟨s, hs, hsignals, ackWake_reader ⟨pacedWake, _, pacedWake_initial, hs⟩⟩

end AmiNetXDuo.Sana2
