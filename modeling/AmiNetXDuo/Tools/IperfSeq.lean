import AmiNetXDuo.Basic
import Mathlib.Data.List.Basic
import Mathlib.Data.List.Induction

/-!
# The loss count of the iperf receiver

A UDP receiver of `iperf` counts the datagrams that did not arrive (`iperfwire.c`). A gap ahead is
lost at once; an id that comes late takes its loss back, and a bitmap of the last 32 ids tells it
from a copy of one that has been counted already. The end marker carries the id after the last
datagram, and the gap in front of it is lost, too.

## Main definitions

* `IperfSeq`, `iperfSeqData`, `iperfSeqEnd` : the counter, a datagram, the end marker.
* `IperfRx`, `iperfRecv` : the receiver, which decides what the counter is given, and when the run
  ends.
* `missing`, `highest` : what the count is compared with.
* `Tracks` : the counter describes the ids that have arrived.

## Main results

* `Tracks.data` : one datagram.
* `iperfRecvAll_rx` : what the counter has been given, whatever comes up.
* `iperfSeq_lost_exact` : the count is the number of ids that did not arrive.
-/

namespace AmiNetXDuo.Tools

/-! ### The counter -/

/-- `U32`. -/
def iperfU32 (x : ℕ) : ℕ := x % 2 ^ 32

/-- `IPERF_SEQ_WINDOW`. -/
def iperfSeqWindow : ℕ := 32

/-- `IperfSeq`. -/
structure IperfSeq where
  /-- The id after the highest seen. -/
  next : ℕ
  /-- Bit `k`: the id `next - 1 - k` has arrived. -/
  seen : ULong
  lost : ℕ
  outoforder : ℕ
  deriving DecidableEq, Repr

/-- `iperf_seq_init`. -/
def iperfSeqInit : IperfSeq := ⟨1, 0xffffffff, 0, 0⟩

/-- `iperf_seq_data`. -/
def iperfSeqData (s : IperfSeq) (id : ℕ) : IperfSeq :=
  let id := iperfU32 id
  if s.next ≤ id then
    let step := id - s.next + 1
    { s with
      lost := iperfU32 (s.lost + (id - s.next))
      seen := (if iperfSeqWindow ≤ step then 0 else s.seen <<< step) ||| 1
      next := iperfU32 (id + 1) }
  else
    let k := s.next - 1 - id
    if k < iperfSeqWindow ∧ s.seen &&& (1#32 <<< k) = 0 then
      { s with
        outoforder := iperfU32 (s.outoforder + 1)
        seen := s.seen ||| (1#32 <<< k)
        lost := if s.lost ≠ 0 then s.lost - 1 else s.lost }
    else { s with outoforder := iperfU32 (s.outoforder + 1) }

/-- `iperf_seq_end`. -/
def iperfSeqEnd (s : IperfSeq) (last : ℕ) : IperfSeq :=
  let last := iperfU32 last
  if last < s.next then s
  else { s with lost := iperfU32 (s.lost + (last - s.next)), next := iperfU32 (last + 1) }

/-! ### The receiver -/

/-- `IPERF_DG_LEN`. -/
def iperfDgLen : ℕ := 12

/-- `wire_get32`. -/
def wireGet32 (p : List UInt8) : ULong :=
  (p.getD 0 0).toBitVec.setWidth 32 <<< 24 ||| (p.getD 1 0).toBitVec.setWidth 32 <<< 16 |||
    (p.getD 2 0).toBitVec.setWidth 32 <<< 8 ||| (p.getD 3 0).toBitVec.setWidth 32

/-- `iperf_dg_id`, of the word at the front of the datagram. -/
def iperfDgId (raw : ULong) : ℤ :=
  if raw &&& 0x80000000 ≠ 0 then ((raw &&& 0x7fffffff).toNat : ℤ) - 0x7fffffff - 1 else raw.toNat

/-- `iperf_dg_get`, which gives the word and leaves `iperf_dg_id` to the caller; `none` is `-1`. -/
def iperfDgGet (buf : List UInt8) : Option ULong :=
  if buf.length < iperfDgLen then none else some (wireGet32 buf)

/-- What `iperf_slice_recv` gives the counter for a datagram that belongs to the run. -/
def iperfTake (s : IperfSeq) (raw : ULong) : IperfSeq :=
  if iperfDgId raw < 0 then iperfSeqEnd s (-iperfDgId raw).toNat
  else iperfSeqData s (iperfDgId raw).toNat

/-- The states of a UDP receiver: `ST_RECV`, `ST_REPORT`, `ST_DONE`, `ST_FAILED`. -/
inductive IperfState where
  | recv
  | report
  | done
  | failed
  deriving DecidableEq, Repr

/-- What the user has asked for: `-t` and `-n`, zero when not given. -/
structure IperfPlan where
  seconds : ULong
  kbytes : ULong
  deriving DecidableEq, Repr

/-- The UDP half of `IperfRun`: `have_from` and `from` are the endpoint the run belongs to. -/
structure IperfRx (α : Type) where
  state : IperfState
  sender : Option α
  rx : IperfSeq
  clockOn : Bool
  /-- `t_lastact`. -/
  lastact : ULong
  /-- `t_deadline`. -/
  deadline : ULong
  /-- `bytes_hi` and `bytes_lo`. -/
  bytes : ℕ
  deriving DecidableEq, Repr

/-- `IPERF_IDLE_MS`. -/
def iperfIdleMs : ULong := 2000

variable {α : Type}

/-- `iperf_clock_start`; `now` is the reading it takes. -/
def iperfClockStart (plan : IperfPlan) (run : IperfRx α) (now : ULong) : IperfRx α :=
  if run.clockOn then run
  else
    { run with
      clockOn := true
      lastact := now
      deadline := if plan.seconds ≠ 0 then now + plan.seconds * 1000 else run.deadline }

/-- `iperf_bytes_met`. -/
def iperfBytesMet (plan : IperfPlan) (run : IperfRx α) : Bool :=
  run.clockOn && plan.kbytes != 0 && decide (plan.kbytes.toNat * 1024 ≤ run.bytes)

/-- `iperf_target_met`. -/
def iperfTargetMet (plan : IperfPlan) (run : IperfRx α) (now : ULong) : Bool :=
  run.clockOn &&
    (run.deadline != 0 && decide (0 ≤ (now - run.deadline).toInt) || iperfBytesMet plan run)

/-- `iperf_count`. -/
def iperfCount (run : IperfRx α) (n : ℕ) (now : ULong) : IperfRx α :=
  { run with
    bytes := (run.bytes + n) % 2 ^ 64
    lastact := if 0 < (now - run.lastact).toInt then now else run.lastact }

/-- `iperf_rx_target_met`. -/
def iperfRxTargetMet (run : IperfRx α) : IperfRx α :=
  { run with state := if run.sender.isSome then .report else .done }

/-- What comes up in `iperf_slice_recv`, with the readings of the clock it takes. -/
inductive IperfEvent (α : Type) where
  /-- The start of a slice. -/
  | slice (now : ULong)
  /-- A datagram of a positive length. `now` is the last reading of the slice, `start` the one that
  starts the clock, `check` the one behind the datagram, which is taken every
  `IPERF_CLOCK_EVERY` datagrams. -/
  | datagram (sender : α) (buf : List UInt8) (now start check : ULong) (every : Bool)
  /-- Nothing there, or a datagram without a byte; `now` is read behind the wait. -/
  | nothing (now : ULong)
  /-- An error of the socket, or of the clock; `reset` is `ECONNRESET`. -/
  | error (reset : Bool)

/-- A complete datagram of the run's endpoint, in the loop of `iperf_slice_recv`. -/
def iperfRecvOwn (plan : IperfPlan) (run : IperfRx α) (raw : ULong) (n : ℕ)
    (now start check : ULong) (every : Bool) : IperfRx α :=
  let run := iperfCount (iperfClockStart plan run start) n now
  let run := { run with rx := iperfTake run.rx raw }
  if iperfDgId raw < 0 then { run with state := .report }
  else if ¬ iperfBytesMet plan run ∧ ¬ every then run
  else if iperfTargetMet plan run check then iperfRxTargetMet run
  else run

variable [DecidableEq α]

/-- `iperf_slice_recv`, one event at a time. -/
def iperfSliceRecv (plan : IperfPlan) (run : IperfRx α) : IperfEvent α → IperfRx α
  | .slice now => if run.clockOn ∧ iperfTargetMet plan run now then iperfRxTargetMet run else run
  | .datagram sender buf now start check every =>
    match iperfDgGet buf with
    -- a short datagram has no identity and does not claim the run
    | none => run
    | some raw =>
      if run.sender ≠ none ∧ run.sender ≠ some sender then run
      else iperfRecvOwn plan { run with sender := some sender } raw buf.length now start check every
  | .nothing now =>
    if run.clockOn ∧ iperfIdleMs ≤ now - run.lastact then { run with state := .done } else run
  | .error reset => { run with state := if reset ∧ run.clockOn then .done else .failed }

/-- An event of the run. In every other state it receives nothing more. -/
def iperfRecv (plan : IperfPlan) (run : IperfRx α) (e : IperfEvent α) : IperfRx α :=
  if run.state = .recv then iperfSliceRecv plan run e else run

/-- `iperf_begin`, before the first datagram. -/
def iperfRxInit (α : Type) : IperfRx α := ⟨.recv, none, iperfSeqInit, false, 0, 0, 0⟩

/-! ### What the count is compared with -/

/-- The highest of the ids, zero before the first. -/
def highest (ids : List ℕ) : ℕ := ids.foldl max 0

/-- The number of the ids from 1 up below `top` that are not among `ids`. -/
def missing (ids : List ℕ) (top : ℕ) : ℕ := (List.range top).countP fun i ↦ 0 < i ∧ i ∉ ids

/-- Every id arrives fewer than `iperfSeqWindow` places behind the highest seen so far. -/
def WithinWindow (ids : List ℕ) : Prop :=
  ∀ n, (h : n < ids.length) → highest (ids.take n) < ids[n] + iperfSeqWindow

instance (ids : List ℕ) : Decidable (WithinWindow ids) :=
  inferInstanceAs (Decidable (∀ n, (h : n < ids.length) → _))

@[simp] theorem highest_nil : highest [] = 0 := rfl

theorem highest_concat (ids : List ℕ) (id : ℕ) : highest (ids ++ [id]) = max (highest ids) id := by
  simp [highest, List.foldl_append]

theorem le_highest {ids : List ℕ} {id : ℕ} (h : id ∈ ids) : id ≤ highest ids := by
  induction ids using List.reverseRecOn with
  | nil => simp at h
  | append_singleton ids last ih =>
    rw [highest_concat]
    rcases List.mem_append.mp h with hmem | hlast
    · have := ih hmem
      omega
    · have := List.mem_singleton.mp hlast
      omega

theorem highest_mem {ids : List ℕ} (h : 0 < highest ids) : highest ids ∈ ids := by
  induction ids using List.reverseRecOn with
  | nil => simp at h
  | append_singleton ids last ih =>
    rw [highest_concat] at h ⊢
    by_cases hlast : highest ids ≤ last
    · simp [Nat.max_eq_right hlast]
    · rw [Nat.max_eq_left (by omega)]
      exact List.mem_append_left _ (ih (by omega))

theorem missing_succ (ids : List ℕ) (top : ℕ) :
    missing ids (top + 1) = missing ids top + if 0 < top ∧ top ∉ ids then 1 else 0 := by
  rw [missing, List.range_succ, List.countP_append, List.countP_singleton]
  simp only [missing, decide_eq_true_eq]

theorem missing_le (ids : List ℕ) (top : ℕ) : missing ids top ≤ top := by
  simpa [missing] using
    List.countP_le_length (p := fun i ↦ decide (0 < i ∧ i ∉ ids)) (l := List.range top)

/-- Above all ids everything is missing. -/
theorem missing_add {ids : List ℕ} {top : ℕ} (h : highest ids < top) (n : ℕ) :
    missing ids (top + n) = missing ids top + n := by
  induction n with
  | zero => rfl
  | succ n ih =>
    have habove : 0 < top + n ∧ top + n ∉ ids := by
      refine ⟨by omega, fun hmem ↦ ?_⟩
      have := le_highest hmem
      omega
    rw [← Nat.add_assoc, missing_succ, ih, if_pos habove, Nat.add_assoc]

/-- The highest id is not missing. -/
theorem missing_highest (ids : List ℕ) :
    missing ids (highest ids + 1) = missing ids (highest ids) := by
  rw [missing_succ, if_neg fun h ↦ h.2 (highest_mem h.1), Nat.add_zero]

/-- An id at or above `top` changes nothing below it. -/
theorem missing_concat_of_le {ids : List ℕ} {id top : ℕ} (h : top ≤ id) :
    missing (ids ++ [id]) top = missing ids top := by
  induction top with
  | zero => rfl
  | succ top ih =>
    have hne : top ≠ id := by omega
    rw [missing_succ, missing_succ, ih (by omega)]
    simp [hne]

/-- An id below `top` that comes for the first time is one less missing. -/
theorem missing_concat_of_notMem {ids : List ℕ} {id top : ℕ} (hpos : 0 < id) (h : id < top)
    (hid : id ∉ ids) : missing (ids ++ [id]) top + 1 = missing ids top := by
  induction top with
  | zero => omega
  | succ top ih =>
    rw [missing_succ, missing_succ]
    by_cases heq : top = id
    · subst heq
      rw [missing_concat_of_le (Nat.le_refl _), if_neg (by simp), if_pos ⟨hpos, hid⟩]
    · rw [← ih (by omega)]
      simp [heq]
      omega

/-- A copy of an id changes nothing. -/
theorem missing_concat_of_mem {ids : List ℕ} {id : ℕ} (hid : id ∈ ids) (top : ℕ) :
    missing (ids ++ [id]) top = missing ids top := by
  refine List.countP_congr fun i _ ↦ ?_
  simp only [List.mem_append, List.mem_singleton, decide_eq_true_eq]
  refine and_congr_right fun _ ↦ not_congr ⟨?_, .inl⟩
  rintro (hi | rfl)
  · exact hi
  · exact hid

/-! ### One datagram -/

/-- The counter after the ids `ids`, each within the window when it came. -/
structure Tracks (ids : List ℕ) (s : IperfSeq) : Prop where
  next_eq : s.next = highest ids + 1
  lost_eq : s.lost = missing ids s.next
  /-- Every bit stands for the id that many places behind the highest, or for none. -/
  seen_iff : ∀ k < iperfSeqWindow,
    s.seen.getLsbD k = true ↔ highest ids ≤ k ∨ highest ids - k ∈ ids

theorem Tracks.init : Tracks [] iperfSeqInit where
  next_eq := rfl
  lost_eq := rfl
  seen_iff k hk := by
    have hall : ∀ k < 32, iperfSeqInit.seen.getLsbD k = true := by decide
    simp [hall k hk]

/-- The bitmap behind a step ahead. -/
theorem getLsbD_step (seen : ULong) {step k : ℕ} (hk : k < iperfSeqWindow) :
    ((if iperfSeqWindow ≤ step then 0 else seen <<< step) ||| 1 : ULong).getLsbD k =
      (decide (k = 0) || decide (step ≤ k) && seen.getLsbD (k - step)) := by
  rw [iperfSeqWindow] at hk ⊢
  have hone : (1 : ULong).getLsbD k = decide (k = 0) := by
    rw [show (1 : ULong) = 1#32 from rfl, BitVec.getLsbD_one]
    simp
  rw [BitVec.getLsbD_or, hone, Bool.or_comm]
  split_ifs with hfar
  · have hkstep : ¬step ≤ k := by omega
    simp [hkstep]
  · rw [BitVec.getLsbD_shiftLeft]
    by_cases hkstep : step ≤ k
    · simp [hkstep, hk, Nat.not_lt.mpr hkstep]
    · simp [hkstep, Nat.lt_of_not_le hkstep]

/-- **An id ahead.** -/
theorem Tracks.ahead {ids : List ℕ} {s : IperfSeq} (h : Tracks ids s) {id : ℕ}
    (hid : id < 2 ^ 31) (hahead : highest ids < id) :
    Tracks (ids ++ [id]) (iperfSeqData s id) := by
  have hnext := h.next_eq
  have hlost := missing_le ids s.next
  have hu32 : iperfU32 id = id := Nat.mod_eq_of_lt (by omega)
  have hsucc : iperfU32 (id + 1) = id + 1 := Nat.mod_eq_of_lt (by omega)
  have hsum : iperfU32 (s.lost + (id - s.next)) = s.lost + (id - s.next) :=
    Nat.mod_eq_of_lt (by rw [h.lost_eq]; omega)
  have hhigh : highest (ids ++ [id]) = id := by
    rw [highest_concat]
    omega
  simp only [iperfSeqData, hu32, if_pos (show s.next ≤ id by omega), hsum, hsucc]
  refine ⟨by rw [hhigh], ?_, fun k hk ↦ ?_⟩
  · have hgap := missing_add (show highest ids < s.next by omega) (id - s.next)
    have hnew := missing_highest (ids ++ [id])
    rw [Nat.add_sub_cancel' (by omega)] at hgap
    rw [hhigh, missing_concat_of_le (Nat.le_refl id), hgap] at hnew
    rw [hnew, h.lost_eq]
  · rw [getLsbD_step s.seen hk, hhigh]
    by_cases hstep : id - s.next + 1 ≤ k
    · -- the bit has moved with its id
      have hbit := h.seen_iff (k - (id - s.next + 1)) (by omega)
      have hback : highest ids - (k - (id - s.next + 1)) = id - k := by omega
      have hother : id - k ≠ id := by omega
      have hzero : k ≠ 0 := by omega
      have hlow : highest ids ≤ k - (id - s.next + 1) ↔ id ≤ k := by omega
      simp [hstep, hzero, hbit, hback, hother, hlow]
    · -- the new id, or one of the gap
      by_cases hzero : k = 0
      · simp [hzero]
      · have hgap : id - k ∉ ids := fun hmem ↦ by
          have := le_highest hmem
          omega
        have hother : id - k ≠ id := by omega
        have hlow : ¬id ≤ k := by omega
        simp [hstep, hzero, hgap, hother, hlow]

theorem getLsbD_one_shiftLeft {k : ℕ} (hk : k < iperfSeqWindow) (i : ℕ) :
    (1#32 <<< k).getLsbD i = decide (i = k) := by
  rw [iperfSeqWindow] at hk
  rw [BitVec.getLsbD_shiftLeft, BitVec.getLsbD_one]
  by_cases hik : i = k
  · simp [hik, hk]
  · by_cases hlt : i < k
    · simp [hik, hlt]
    · have hsub : i - k ≠ 0 := by omega
      simp [hik, hsub]

/-- The test of a bit. -/
theorem and_one_shiftLeft_eq_zero_iff (seen : ULong) {k : ℕ} (hk : k < iperfSeqWindow) :
    seen &&& (1#32 <<< k) = 0 ↔ seen.getLsbD k = false := by
  constructor
  · intro h
    have hbit := congrArg (BitVec.getLsbD · k) h
    simpa [BitVec.getLsbD_and, getLsbD_one_shiftLeft hk] using hbit
  · intro h
    apply BitVec.eq_of_getLsbD_eq
    intro i _
    rw [BitVec.getLsbD_and, getLsbD_one_shiftLeft hk]
    by_cases hik : i = k
    · simp [hik, h]
    · simp [hik]

/-- **An id that comes late, or again.** -/
theorem Tracks.late {ids : List ℕ} {s : IperfSeq} (h : Tracks ids s) {id : ℕ} (hpos : 0 < id)
    (hid : id < 2 ^ 31) (hlate : id ≤ highest ids) (hwindow : highest ids < id + iperfSeqWindow) :
    Tracks (ids ++ [id]) (iperfSeqData s id) := by
  have hnext := h.next_eq
  have hu32 : iperfU32 id = id := Nat.mod_eq_of_lt (by omega)
  have hhigh : highest (ids ++ [id]) = highest ids := by
    rw [highest_concat]
    omega
  have hk : s.next - 1 - id = highest ids - id := by omega
  have hin : highest ids - id < iperfSeqWindow := by omega
  have hback : highest ids - (highest ids - id) = id := by omega
  have hbit := h.seen_iff _ hin
  have hnotLow : ¬highest ids ≤ highest ids - id := by omega
  simp only [hback, hnotLow, false_or] at hbit
  simp only [iperfSeqData, hu32, if_neg (show ¬s.next ≤ id by omega), hk, hin, true_and,
    and_one_shiftLeft_eq_zero_iff _ hin]
  by_cases hmem : id ∈ ids
  · have hset : ¬s.seen.getLsbD (highest ids - id) = false := by simp [hbit.mpr hmem]
    rw [if_neg hset]
    refine ⟨by rw [hhigh]; exact hnext, ?_, fun k hk ↦ ?_⟩
    · rw [missing_concat_of_mem hmem]
      exact h.lost_eq
    · rw [hhigh, h.seen_iff k hk]
      refine or_congr_right ⟨fun hj ↦ List.mem_append_left _ hj, fun hj ↦ ?_⟩
      rcases List.mem_append.mp hj with hj | hj
      · exact hj
      · rw [List.mem_singleton.mp hj]
        exact hmem
  · have hclear : s.seen.getLsbD (highest ids - id) = false := by
      simpa using fun hset ↦ hmem (hbit.mp hset)
    have hone := missing_concat_of_notMem hpos (show id < s.next by omega) hmem
    have hlost := h.lost_eq
    rw [if_pos hclear]
    refine ⟨by rw [hhigh]; exact hnext, ?_, fun k hk ↦ ?_⟩
    · simp only
      split_ifs
      · omega
      · omega
    · rw [BitVec.getLsbD_or, getLsbD_one_shiftLeft hin, hhigh, Bool.or_eq_true, h.seen_iff k hk,
        decide_eq_true_eq, List.mem_append, List.mem_singleton]
      have hsame : highest ids ≤ k ∨ (highest ids - k = id ↔ k = highest ids - id) := by omega
      rcases hsame with hlow | hsame
      · simp [hlow]
      · rw [hsame, or_assoc]

/-! ### Whole runs -/

/-- The counter after the datagrams of a run. -/
def iperfRun (raws : List ULong) : IperfSeq := raws.foldl iperfTake iperfSeqInit

/-- The ids of data datagrams. -/
def dgIds (raws : List ULong) : List ℕ := raws.map fun raw ↦ (iperfDgId raw).toNat

theorem dgIds_concat (raws : List ULong) (raw : ULong) :
    dgIds (raws ++ [raw]) = dgIds raws ++ [(iperfDgId raw).toNat] := by
  simp [dgIds]

theorem iperfRun_concat (raws : List ULong) (raw : ULong) :
    iperfRun (raws ++ [raw]) = iperfTake (iperfRun raws) raw := by
  simp [iperfRun, List.foldl_append]

/-- The two's complement by hand is one. -/
theorem iperfDgId_eq_toInt (raw : ULong) : iperfDgId raw = raw.toInt := by
  have hsign : raw &&& 0x80000000 = 0 ↔ raw.msb = false :=
    and_one_shiftLeft_eq_zero_iff raw (show 31 < iperfSeqWindow by decide)
  have hlow : (raw &&& 0x7fffffff).toNat = raw.toNat % 2 ^ 31 := by
    rw [BitVec.toNat_and]
    exact Nat.and_two_pow_sub_one_eq_mod raw.toNat 31
  have hlt := raw.isLt
  simp only [iperfDgId, BitVec.toInt_eq_msb_cond, hlow, ne_eq, hsign]
  by_cases hmsb : raw.msb = true
  · have hge : 2 ^ 31 ≤ raw.toNat := by simpa [BitVec.msb_eq_decide] using hmsb
    simp only [hmsb, Bool.true_eq_false, not_false_eq_true, if_true]
    omega
  · simp [hmsb]

/-- A data datagram carries a number of 31 bits. -/
theorem iperfDgId_lt (raw : ULong) : iperfDgId raw < 2 ^ 31 := by
  rw [iperfDgId_eq_toInt]
  exact BitVec.toInt_lt

theorem neg_iperfDgId_le (raw : ULong) : -iperfDgId raw ≤ 2 ^ 31 := by
  rw [iperfDgId_eq_toInt]
  have := BitVec.le_toInt raw
  omega

/-- The condition on a run holds of its beginning and of the datagram behind it. -/
theorem WithinWindow.concat {ids : List ℕ} {id : ℕ} (h : WithinWindow (ids ++ [id])) :
    WithinWindow ids ∧ highest ids < id + iperfSeqWindow := by
  constructor
  · intro n hn
    have hbefore := h n (by simp; omega)
    rwa [List.take_append_of_le_length (Nat.le_of_lt hn), List.getElem_append_left hn] at hbefore
  · simpa using h ids.length (by simp)

theorem WithinWindow.take {ids : List ℕ} (h : WithinWindow ids) (n : ℕ) :
    WithinWindow (ids.take n) := by
  intro m hm
  have hlength := List.length_take (i := n) (l := ids)
  have hids := h m (by omega)
  rwa [List.take_take, Nat.min_eq_left (by omega), List.getElem_take]

theorem highest_lt {ids : List ℕ} {last : ℕ} (hpos : 0 < last) (h : ∀ id ∈ ids, id < last) :
    highest ids < last := by
  by_cases hzero : highest ids = 0
  · omega
  · exact h _ (highest_mem (Nat.pos_of_ne_zero hzero))

/-- **A run of data datagrams.** -/
theorem tracks_iperfRun {raws : List ULong} (hpos : ∀ raw ∈ raws, 0 < iperfDgId raw)
    (hwindow : WithinWindow (dgIds raws)) : Tracks (dgIds raws) (iperfRun raws) := by
  induction raws using List.reverseRecOn with
  | nil => exact Tracks.init
  | append_singleton raws raw ih =>
    rw [dgIds_concat] at hwindow ⊢
    obtain ⟨hbefore, hnear⟩ := hwindow.concat
    have htracks := ih (fun r hr ↦ hpos r (by simp [hr])) hbefore
    have hraw := hpos raw (by simp)
    have hlt := iperfDgId_lt raw
    rw [iperfRun_concat, iperfTake, if_neg (by omega)]
    by_cases hahead : highest (dgIds raws) < (iperfDgId raw).toNat
    · exact htracks.ahead (by omega) hahead
    · exact htracks.late (by omega) (by omega) (by omega) hnear

/-- **The end marker.** -/
theorem Tracks.lost_end {ids : List ℕ} {s : IperfSeq} (h : Tracks ids s) {last : ℕ}
    (hlast : last ≤ 2 ^ 31) (habove : highest ids < last) :
    (iperfSeqEnd s last).lost = missing ids last := by
  have hnext := h.next_eq
  have hlost := missing_le ids s.next
  have hu32 : iperfU32 last = last := Nat.mod_eq_of_lt (by omega)
  have hsum : iperfU32 (s.lost + (last - s.next)) = s.lost + (last - s.next) :=
    Nat.mod_eq_of_lt (by rw [h.lost_eq]; omega)
  have hgap := missing_add (show highest ids < s.next by omega) (last - s.next)
  rw [Nat.add_sub_cancel' (by omega)] at hgap
  simp only [iperfSeqEnd, hu32, if_neg (show ¬last < s.next by omega), hsum]
  rw [hgap, h.lost_eq]

/-- **The loss count.** For every run of data datagrams with ids from 1 up, each within the window
when it came, the count after every datagram is the number of ids below the highest that did not
arrive, and after an end marker above all of them the number of those below the marker's id. -/
theorem iperfSeq_lost_exact (raws : List ULong) (hpos : ∀ raw ∈ raws, 0 < iperfDgId raw)
    (hwindow : WithinWindow (dgIds raws)) :
    (∀ n, (iperfRun (raws.take n)).lost =
      missing (dgIds (raws.take n)) (highest (dgIds (raws.take n)))) ∧
    ∀ marker, iperfDgId marker < 0 → (∀ raw ∈ raws, iperfDgId raw < -iperfDgId marker) →
      (iperfRun (raws ++ [marker])).lost = missing (dgIds raws) (-iperfDgId marker).toNat := by
  constructor
  · intro n
    have hprefix : WithinWindow (dgIds (raws.take n)) := by
      rw [dgIds, List.map_take]
      exact hwindow.take n
    have h := tracks_iperfRun (fun raw hraw ↦ hpos raw (List.mem_of_mem_take hraw)) hprefix
    rw [h.lost_eq, h.next_eq, missing_highest]
  · intro marker hmarker habove
    have h := tracks_iperfRun hpos hwindow
    have hle := neg_iperfDgId_le marker
    have hhigh : highest (dgIds raws) < (-iperfDgId marker).toNat := by
      refine highest_lt (by omega) fun id hid ↦ ?_
      obtain ⟨raw, hraw, rfl⟩ := List.mem_map.mp hid
      have := habove raw hraw
      omega
    rw [iperfRun_concat, iperfTake, if_pos hmarker]
    exact h.lost_end (by omega) hhigh

/-- Loss, reordering and a copy: 1, 4, 2, 4 arrive, and a marker that names 7. -/
theorem iperfSeq_lost_exact_reordered :
    (∀ raw ∈ ([1, 4, 2, 4] : List ULong), 0 < iperfDgId raw) ∧
      WithinWindow (dgIds [1, 4, 2, 4]) ∧
      (iperfRun ([1, 4, 2, 4] ++ [0xfffffff9])).lost = 3 := by
  have hpos : ∀ raw ∈ ([1, 4, 2, 4] : List ULong), 0 < iperfDgId raw := by
    simp only [List.mem_cons, List.not_mem_nil, or_false, forall_eq_or_imp, forall_eq]
    decide
  have hwindow : WithinWindow (dgIds [1, 4, 2, 4]) := by decide
  have hbelow : ∀ raw ∈ ([1, 4, 2, 4] : List ULong), iperfDgId raw < -iperfDgId 0xfffffff9 := by
    simp only [List.mem_cons, List.not_mem_nil, or_false, forall_eq_or_imp, forall_eq]
    decide
  exact ⟨hpos, hwindow,
    (iperfSeq_lost_exact [1, 4, 2, 4] hpos hwindow).2 0xfffffff9 (by decide) hbelow⟩

/-! ### What the receiver gives the counter -/

/-- The endpoint and the first word of a complete datagram. -/
def IperfEvent.word? : IperfEvent α → Option (α × ULong)
  | .datagram sender buf .. => (iperfDgGet buf).map fun raw ↦ (sender, raw)
  | _ => none

/-- The endpoint of the first complete datagram. -/
def opener (es : List (IperfEvent α)) : Option α := (es.findSome? IperfEvent.word?).map (·.1)

/-- The first words of the complete datagrams of an endpoint, in their order. -/
def heardFrom (sender : Option α) (es : List (IperfEvent α)) : List ULong :=
  es.filterMap fun e ↦ e.word?.bind fun w ↦ if some w.1 = sender then some w.2 else none

/-- The receiver after some events. -/
def iperfRecvAll (plan : IperfPlan) (es : List (IperfEvent α)) : IperfRx α :=
  es.foldl (iperfRecv plan) (iperfRxInit α)

omit [DecidableEq α] in
theorem opener_concat (es : List (IperfEvent α)) (e : IperfEvent α) :
    opener (es ++ [e]) = (opener es).or (e.word?.map (·.1)) := by
  rw [opener, List.findSome?_append, opener]
  cases es.findSome? IperfEvent.word? with
  | none => simp
  | some w => rfl

theorem heardFrom_concat (sender : Option α) (es : List (IperfEvent α)) (e : IperfEvent α) :
    heardFrom sender (es ++ [e]) = heardFrom sender es ++
      (e.word?.bind fun w ↦ if some w.1 = sender then some w.2 else none).toList := by
  rw [heardFrom, List.filterMap_append, List.filterMap_cons, List.filterMap_nil]
  cases (e.word?.bind fun w ↦ if some w.1 = sender then some w.2 else none) with
  | none => rfl
  | some raw => rfl

/-- Before the first complete datagram nothing has been heard from anybody. -/
theorem heardFrom_of_opener_eq_none {es : List (IperfEvent α)} (h : opener es = none)
    (sender : Option α) : heardFrom sender es = [] := by
  rw [opener, Option.map_eq_none_iff, List.findSome?_eq_none_iff] at h
  refine List.filterMap_eq_nil_iff.mpr fun e he ↦ ?_
  rw [h e he, Option.bind_none]

/-- The receiver has given the counter what it has heard from the endpoint that opened the run. -/
structure Heard (es : List (IperfEvent α)) (run : IperfRx α) : Prop where
  sender_eq : run.sender = opener es
  rx_eq : run.rx = iperfRun (heardFrom (opener es) es)
  /-- An end marker ends the run. -/
  nonneg : run.state = .recv → ∀ raw ∈ heardFrom (opener es) es, 0 ≤ iperfDgId raw

/-- An event that neither opens the run nor belongs to it. -/
theorem Heard.skip {es : List (IperfEvent α)} {e : IperfEvent α} {run run' : IperfRx α}
    (h : Heard es run) (hskip : ∀ w ∈ e.word?, run.sender ≠ none ∧ run.sender ≠ some w.1)
    (hsender : run'.sender = run.sender) (hrx : run'.rx = run.rx)
    (hstate : run'.state = .recv → run.state = .recv) : Heard (es ++ [e]) run' := by
  have hopener : opener (es ++ [e]) = opener es := by
    rw [opener_concat, ← h.sender_eq]
    cases hw : e.word? with
    | none => exact Option.or_none
    | some w =>
      obtain ⟨a, ha⟩ := Option.ne_none_iff_exists'.mp (hskip w hw).1
      rw [ha]
      rfl
  have hheard : heardFrom (opener es) (es ++ [e]) = heardFrom (opener es) es := by
    rw [heardFrom_concat, ← h.sender_eq]
    cases hw : e.word? with
    | none => exact List.append_nil _
    | some w => rw [Option.bind_some, if_neg (Ne.symm (hskip w hw).2)]; exact List.append_nil _
  refine ⟨?_, ?_, ?_⟩ <;> rw [hopener]
  · rw [hsender, h.sender_eq]
  · rw [hheard, hrx, h.rx_eq]
  · rw [hheard]
    exact fun hrecv ↦ h.nonneg (hstate hrecv)

omit [DecidableEq α] in
theorem iperfCount_clockStart (plan : IperfPlan) (run : IperfRx α) (n : ℕ) (now start : ULong) :
    let counted := iperfCount (iperfClockStart plan run start) n now
    counted.sender = run.sender ∧ counted.rx = run.rx ∧ counted.state = run.state := by
  simp only [iperfCount, iperfClockStart]
  split <;> exact ⟨rfl, rfl, rfl⟩

omit [DecidableEq α] in
/-- What a datagram of the run does, and when it is the last. -/
theorem iperfRecvOwn_spec (plan : IperfPlan) (run : IperfRx α) (hrecv : run.state = .recv)
    (raw : ULong) (n : ℕ) (now start check : ULong) (every : Bool) :
    let r := iperfRecvOwn plan run raw n now start check every
    let counted := iperfCount (iperfClockStart plan run start) n now
    r.sender = run.sender ∧ r.rx = iperfTake run.rx raw ∧
      (r.state ≠ .recv ↔ iperfDgId raw < 0 ∨
        (iperfBytesMet plan counted ∨ every) ∧ iperfTargetMet plan counted check) := by
  obtain ⟨hsender, hrx, hstate⟩ := iperfCount_clockStart plan run n now start
  simp only [iperfRecvOwn]
  generalize iperfCount (iperfClockStart plan run start) n now = counted at *
  -- neither test looks at the counter
  have hbytes : iperfBytesMet plan { counted with rx := iperfTake counted.rx raw } =
      iperfBytesMet plan counted := rfl
  have htarget : iperfTargetMet plan { counted with rx := iperfTake counted.rx raw } check =
      iperfTargetMet plan counted check := rfl
  rw [hbytes, htarget]
  by_cases hmarker : iperfDgId raw < 0
  · simp [hmarker, hsender, hrx]
  · by_cases hcheck : iperfBytesMet plan counted = true ∨ every = true
    · have hcheck' : ¬ (¬ iperfBytesMet plan counted = true ∧ ¬ every = true) := by tauto
      cases hmet : iperfTargetMet plan counted check with
      | false => simp [hmarker, hsender, hrx, hstate, hrecv]
      | true =>
        rw [if_neg hmarker, if_neg hcheck', if_pos rfl, iperfRxTargetMet]
        refine ⟨hsender, by rw [hrx], ?_⟩
        simp only [hcheck, true_and, or_true, iff_true]
        split <;> decide
    · have hcheck' : ¬ iperfBytesMet plan counted = true ∧ ¬ every = true := not_or.mp hcheck
      simp [hmarker, hcheck', hsender, hrx, hstate, hrecv]

/-- A datagram that opens the run or belongs to it. -/
theorem Heard.own {es : List (IperfEvent α)} {e : IperfEvent α} {run run' : IperfRx α}
    (h : Heard es run) {sender : α} {raw : ULong} (hw : e.word? = some (sender, raw))
    (hown : run.sender = none ∨ run.sender = some sender) (hrecv : run.state = .recv)
    (hsender : run'.sender = some sender) (hrx : run'.rx = iperfTake run.rx raw)
    (hstate : run'.state = .recv → 0 ≤ iperfDgId raw) : Heard (es ++ [e]) run' := by
  have hopener : opener (es ++ [e]) = some sender := by
    rw [opener_concat, ← h.sender_eq, hw]
    rcases hown with hnone | hsame
    · rw [hnone]
      rfl
    · rw [hsame]
      rfl
  have hbefore : heardFrom (some sender) es = heardFrom (opener es) es := by
    rcases hown with hnone | hsame
    · rw [heardFrom_of_opener_eq_none (h.sender_eq ▸ hnone),
        heardFrom_of_opener_eq_none (h.sender_eq ▸ hnone)]
    · rw [← h.sender_eq, hsame]
  have hheard : heardFrom (some sender) (es ++ [e]) = heardFrom (opener es) es ++ [raw] := by
    rw [heardFrom_concat, hw, hbefore]
    simp
  refine ⟨?_, ?_, ?_⟩ <;> rw [hopener]
  · exact hsender
  · rw [hheard, iperfRun_concat, ← h.rx_eq, hrx]
  · rw [hheard]
    intro hrecv' r hr
    rcases List.mem_append.mp hr with hr | hr
    · exact h.nonneg hrecv r hr
    · rw [List.mem_singleton.mp hr]
      exact hstate hrecv'

/-- One event. -/
theorem Heard.recv {es : List (IperfEvent α)} {run : IperfRx α} (h : Heard es run)
    (hrecv : run.state = .recv) (plan : IperfPlan) (e : IperfEvent α) :
    Heard (es ++ [e]) (iperfRecv plan run e) := by
  rw [iperfRecv, if_pos hrecv]
  cases e with
  | slice now =>
    dsimp only [iperfSliceRecv]
    split_ifs <;> exact h.skip (by simp [IperfEvent.word?]) rfl rfl fun _ ↦ hrecv
  | nothing now =>
    dsimp only [iperfSliceRecv]
    split_ifs <;> exact h.skip (by simp [IperfEvent.word?]) rfl rfl fun _ ↦ hrecv
  | error reset => exact h.skip (by simp [IperfEvent.word?]) rfl rfl fun _ ↦ hrecv
  | datagram sender buf now start check every =>
    simp only [iperfSliceRecv]
    cases hget : iperfDgGet buf with
    | none => exact h.skip (by simp [IperfEvent.word?, hget]) rfl rfl fun _ ↦ hrecv
    | some raw =>
      dsimp only
      split_ifs with hother
      · exact h.skip (by simpa [IperfEvent.word?, hget] using hother) rfl rfl fun _ ↦ hrecv
      · obtain ⟨hsender, hrx, hstate⟩ := iperfRecvOwn_spec plan
          { run with sender := some sender } hrecv raw buf.length now start check every
        have hword : IperfEvent.word? (.datagram sender buf now start check every) =
            some (sender, raw) := by simp [IperfEvent.word?, hget]
        refine h.own hword ?_ hrecv hsender hrx fun hgoes ↦ ?_
        · by_contra hneither
          exact hother (not_or.mp hneither)
        · by_contra hmarker
          exact hstate.mpr (.inl (Int.not_le.mp hmarker)) hgoes

/-- A run that has ended takes no notice of what comes. -/
theorem foldl_iperfRecv_of_ended {plan : IperfPlan} {run : IperfRx α} (h : run.state ≠ .recv)
    (es : List (IperfEvent α)) : es.foldl (iperfRecv plan) run = run := by
  induction es with
  | nil => rfl
  | cons e es ih => rw [List.foldl_cons, iperfRecv, if_neg h, ih]

theorem heard_iperfRecvAll {plan : IperfPlan} {es : List (IperfEvent α)}
    (h : (iperfRecvAll plan es).state = .recv) : Heard es (iperfRecvAll plan es) := by
  induction es using List.reverseRecOn with
  | nil => exact ⟨rfl, rfl, by simp [heardFrom]⟩
  | append_singleton es e ih =>
    rw [iperfRecvAll, List.foldl_append] at h ⊢
    by_cases hrecv : (es.foldl (iperfRecv plan) (iperfRxInit α)).state = .recv
    · exact (ih hrecv).recv hrecv plan e
    · rw [foldl_iperfRecv_of_ended hrecv] at h
      exact absurd h hrecv

/-- What ends a run: an end marker of its endpoint, the bytes or the time that were asked for,
silence, or an error. -/
def EndsRun (plan : IperfPlan) (run : IperfRx α) : IperfEvent α → Prop
  | .slice now => iperfTargetMet plan run now = true
  | .datagram sender buf now start check every =>
    ∃ raw, iperfDgGet buf = some raw ∧ (run.sender = none ∨ run.sender = some sender) ∧
      let run := { run with sender := some sender }
      let counted := iperfCount (iperfClockStart plan run start) buf.length now
      (iperfDgId raw < 0 ∨ (iperfBytesMet plan counted ∨ every) ∧ iperfTargetMet plan counted check)
  | .nothing now => run.clockOn = true ∧ iperfIdleMs ≤ now - run.lastact
  | .error _ => True

/-- The state after one event. -/
theorem iperfRecv_ends {plan : IperfPlan} {run : IperfRx α} (hrecv : run.state = .recv)
    (e : IperfEvent α) : (iperfRecv plan run e).state ≠ .recv ↔ EndsRun plan run e := by
  rw [iperfRecv, if_pos hrecv]
  cases e with
  | slice now =>
    have hclock : iperfTargetMet plan run now = true → run.clockOn = true := fun h ↦
      (Bool.and_eq_true_iff.mp h).1
    by_cases hmet : iperfTargetMet plan run now = true
    · simp only [iperfSliceRecv, EndsRun, hmet, hclock hmet, and_self, if_true, iff_true,
        iperfRxTargetMet]
      split <;> decide
    · simp [iperfSliceRecv, EndsRun, hmet, hrecv]
  | nothing now =>
    dsimp only [iperfSliceRecv, EndsRun]
    split_ifs with hidle
    · simp [hidle]
    · simp [hidle, hrecv]
  | error reset =>
    dsimp only [iperfSliceRecv, EndsRun]
    split_ifs <;> simp
  | datagram sender buf now start check every =>
    simp only [iperfSliceRecv]
    cases hget : iperfDgGet buf with
    | none => simp [EndsRun, hget, hrecv]
    | some raw =>
      dsimp only
      split_ifs with hother
      · have hnot : ¬ (run.sender = none ∨ run.sender = some sender) := not_or.mpr hother
        simp [EndsRun, hget, hrecv, hnot]
      · have hown : run.sender = none ∨ run.sender = some sender := by
          by_contra hneither
          exact hother (not_or.mp hneither)
        have hspec := (iperfRecvOwn_spec plan { run with sender := some sender } hrecv raw
          buf.length now start check every).2.2
        rw [hspec]
        simp only [EndsRun, hget, Option.some.injEq, exists_eq_left', hown, true_and]

/-- **The counter of the receiver.** Whatever comes up while the run is receiving, the counter has
been given the complete datagrams of the endpoint of the first complete one, in their order, the
event that ends the run with them, and nothing else; what comes behind that changes nothing. -/
theorem iperfRecvAll_rx (plan : IperfPlan) (es : List (IperfEvent α)) :
    let run := iperfRecvAll plan es
    (run.state = .recv → run.sender = opener es ∧ run.rx = iperfRun (heardFrom (opener es) es) ∧
      (∀ raw ∈ heardFrom (opener es) es, 0 ≤ iperfDgId raw) ∧
      ∀ e, let next := iperfRecvAll plan (es ++ [e])
        next.rx = iperfRun (heardFrom (opener (es ++ [e])) (es ++ [e])) ∧
          (next.state ≠ .recv ↔ EndsRun plan run e)) ∧
    (run.state ≠ .recv → ∀ later, iperfRecvAll plan (es ++ later) = run) := by
  refine ⟨fun hrecv ↦ ?_, fun hended later ↦ ?_⟩
  · have hheard := heard_iperfRecvAll hrecv
    refine ⟨hheard.sender_eq, hheard.rx_eq, hheard.nonneg hrecv, fun e ↦ ?_⟩
    have hnext : iperfRecvAll plan (es ++ [e]) = iperfRecv plan (iperfRecvAll plan es) e := by
      rw [iperfRecvAll, List.foldl_append]
      rfl
    rw [hnext]
    exact ⟨(hheard.recv hrecv plan e).rx_eq, iperfRecv_ends hrecv e⟩
  · rw [iperfRecvAll, List.foldl_append]
    exact foldl_iperfRecv_of_ended hended later

end AmiNetXDuo.Tools
