import AmiNetXDuo.Lib.Interleaving
import AmiNetXDuo.Lib.Ring
import AmiNetXDuo.Net68k.Checksum
import Mathlib.Tactic.SplitIfs
import Mathlib.Tactic.Tauto

/-!
# Acknowledgment pacing

With `ACKPACE` on, a pure acknowledgment that is early waits in a short queue on the interface
(`sana2_ackpace.c`).  Any task that sends may hold one; the one reader of the interface lets them
go when they are due, and flushes the queue when it stops.  Every section between `Forbid()` and
`Permit()` is one event here, and so is every hand-over to the transmit path; events of different
tasks come in any order.

## Main definitions

* `amiAckParse` : whether a packet is a pure acknowledgment, and what it says.
* `amiSana2AckHold` : the section that decides whether it waits.
* `AckSys`, `AckEvent`, `ackExec` : the interface, its senders and its reader, and what they do.

## Main results

* `AckInv.step` : one event keeps the accounts of the queue.
* `ackPace_order` : what is held is handed on once and in order, nothing stays behind, and when an
  acknowledgment may pass the held ones.
-/

namespace AmiNetXDuo.Sana2

open Net68k Interleaving

/-! ### A pure acknowledgment -/

/-- An `NX_PACKET`: the bytes of its first buffer, and `nx_packet_length`. -/
structure AckPacket where
  ip : List UByte
  length : Nat
  deriving DecidableEq, Repr

/-- The bytes of the first buffer as memory. -/
def AckPacket.mem (p : AckPacket) : Mem := fun i ↦ p.ip.getD i 0

/-- What `ami_ack_parse()` finds: a SYN with the window scale it offers, a pure acknowledgment, or
something else. -/
inductive AckParse where
  | other
  | syn (ports : ULong) (ws : UByte)
  | ack (ack ports win : ULong)
  deriving DecidableEq, Repr

/-- The loop of `ami_ack_learn_scale()` over the options, from option byte `i` of the header at
`tcp` on.  Every round moves on by at least one byte. -/
def learnScaleFrom (m : Mem) (tcp thl : Nat) : Nat → Nat → UByte
  | 0, _ => 0
  | fuel + 1, i =>
    if thl ≤ i then 0
    else if m (tcp + i) = 0 then 0
    else if m (tcp + i) = 1 then learnScaleFrom m tcp thl fuel (i + 1)
    else if thl ≤ i + 1 ∨ (m (tcp + i + 1)).toNat < 2 then 0
    else if m (tcp + i) = 3 ∧ m (tcp + i + 1) = 3 ∧ i + 2 < thl then
      if (m (tcp + i + 2)).toNat > 14 then 14 else m (tcp + i + 2)
    else learnScaleFrom m tcp thl fuel (i + (m (tcp + i + 1)).toNat)

/-- The window scale `ami_ack_learn_scale()` remembers. -/
def amiAckLearnScale (m : Mem) (tcp thl : Nat) : UByte := learnScaleFrom m tcp thl thl 20

/-- `ami_ack_parse()`. -/
def amiAckParse (p : AckPacket) : AckParse :=
  let m := p.mem
  let avail := p.ip.length
  if avail < 40 ∨ m 0 >>> 4 ≠ 4 ∨ m 9 ≠ 6 then .other
  else
    let ihl := (m 0 &&& 0x0f).toNat * 4
    if ihl < 20 ∨ avail < ihl + 20 then .other
    else
      let thl := (m (ihl + 12) >>> 4).toNat * 4
      if thl < 20 ∨ avail < ihl + thl then .other
      else if m (ihl + 13) &&& 0x02 ≠ 0 then .syn (rd32 m ihl) (amiAckLearnScale m ihl thl)
      else if p.length ≠ ihl + thl then .other
      else if m (ihl + 13) &&& 0x17 ≠ 0x10 then .other
      else .ack (rd32 m (ihl + 8)) (rd32 m ihl) (rd16 m (ihl + 14))

/-! ### The queue of an interface -/

/-- `AMI_SANA2_ACKQ`. -/
def ackqSize : Nat := 16

theorem ackqSize_pos : 0 < ackqSize := by decide

/-- `AMI_ACK_GAP_BYTES_MAX`. -/
def ackGapBytesMax : ULong := 16384

/-- `AMI_ACK_GAP_BYTES_DEF`. -/
def ackGapBytesDef : ULong := 2920

/-- `AmiAckHeld`. -/
structure AckHeld where
  packet : AckPacket
  dstMsw : ULong
  dstLsw : ULong
  gap : ULong
  deriving DecidableEq, Repr

/-- `AmiSana2If`, as far as pacing goes; `τ` is the type of tasks. -/
structure AckIf (τ : Type) where
  /-- `ack_tpkb`. -/
  tpkb : ULong
  /-- `ackq`, `ackq_head` and `ackq_count`. -/
  q : Ring AckHeld ackqSize
  /-- `ack_clock`. -/
  clock : Bool
  /-- `ack_next`. -/
  next : ULong
  /-- `ack_prev_ack`. -/
  prevAck : ULong
  /-- `ack_prev_edge`. -/
  prevEdge : ULong
  /-- `ack_prev_ports`. -/
  prevPorts : ULong
  /-- `ack_ws_ports`. -/
  wsPorts : ULong
  /-- `ack_ws`. -/
  ws : UByte
  /-- `ack_gro_ports`. -/
  groPorts : ULong
  /-- `ack_task`. -/
  task : Option τ
  /-- `hw_rx_bytes`. -/
  hwRxBytes : ULong
  /-- `stats.ack_paced`. -/
  paced : ULong
  /-- `stats.ack_unpaced`. -/
  unpaced : ULong

variable {τ : Type}

/-- The window an acknowledgment advertises, in bytes. -/
def AckIf.window (i : AckIf τ) (ports win : ULong) : ULong :=
  if ports = i.wsPorts then win <<< i.ws.toNat else win

/-- A difference of two sequence numbers, `0` when it is negative as a `LONG`. -/
def forward (a b : ULong) : ULong := if (a - b).toInt < 0 then 0 else a - b

/-- What an acknowledgment opens, at most `AMI_ACK_GAP_BYTES_MAX`. -/
def AckIf.opened (i : AckIf τ) (ack ports edge : ULong) : ULong :=
  let step :=
    if ports = i.prevPorts then
      if forward edge i.prevEdge > forward ack i.prevAck then forward edge i.prevEdge
      else forward ack i.prevAck
    else ackGapBytesDef
  if step > ackGapBytesMax then ackGapBytesMax else step

/-- A window the card holds is never paced. -/
def AckIf.CardHolds (i : AckIf τ) (ports win : ULong) : Prop :=
  i.hwRxBytes ≠ 0 ∧ i.window ports win ≤ i.hwRxBytes

instance (i : AckIf τ) (ports win : ULong) : Decidable (i.CardHolds ports win) :=
  inferInstanceAs (Decidable (_ ∧ _))

/-- The line is idle: nothing waits and the next acknowledgment is due. -/
def AckIf.Idle (i : AckIf τ) (now : ULong) : Prop :=
  i.q.count = 0 ∧ (i.clock = false ∨ 0 ≤ (now - i.next).toInt)

instance (i : AckIf τ) (now : ULong) : Decidable (i.Idle now) :=
  inferInstanceAs (Decidable (_ ∧ _))

/-- The section of `ami_sana2_ack_hold()`: the entry of the queue when the acknowledgment waits. -/
def amiSana2AckHold (i : AckIf τ) (p : AckPacket) (dstMsw dstLsw ack ports win now : ULong) :
    Option AckHeld × AckIf τ :=
  let edge := ack + i.window ports win
  let gap := i.opened ack ports edge * i.tpkb / 1000
  let noted := { i with prevAck := ack, prevEdge := edge, prevPorts := ports }
  if i.CardHolds ports win then (none, noted)
  else
    let paced := { noted with groPorts := ports <<< 16 ||| ports >>> 16 }
    if i.Idle now then (none, { paced with clock := true, next := now + gap })
    else if h : i.q.count < ackqSize ∧ i.task.isSome then
      (some ⟨p, dstMsw, dstLsw, gap⟩,
        { paced with q := i.q.push ⟨p, dstMsw, dstLsw, gap⟩ h.1, paced := i.paced + 1 })
    else (none, { paced with unpaced := i.unpaced + 1 })

/-- The section of `ami_sana2_ack_release()`: the held one that is due, if there is one. -/
def ackReleaseSection (i : AckIf τ) (now : ULong) : Option AckHeld × AckIf τ :=
  if i.q.count = 0 then (none, i)
  else if (i.next - now).toInt > 0 then (none, i)
  else
    let h := i.q.front
    let base := if (now - i.next).toInt > h.gap.toInt then now else i.next
    (some h, { i with q := i.q.pop, next := base + h.gap })

/-- The section of `ami_sana2_ack_flush()`. -/
def ackFlushSection (i : AckIf τ) : Option AckHeld × AckIf τ :=
  if i.q.count = 0 then (none, { i with clock := false })
  else (some i.q.front, { i with q := i.q.pop })

/-! ### The tasks -/

/-- Where a sender is in `ami_sana2_tx_send()`. -/
inductive AckSender where
  | idle
  | parsed (p : AckPacket) (dstMsw dstLsw ack ports win now : ULong)
  | waking
  | passing (p : AckPacket)
  deriving DecidableEq, Repr

/-- Where the reader is: not running, between its passes, in `ami_sana2_ack_release()` with the
time it read or with what it took off the queue, in `ami_sana2_ack_flush()` the same way. -/
inductive AckReader where
  | off
  | idle
  | timed (now : ULong)
  | handing (h : AckHeld)
  | flushing
  | flushHanding (h : AckHeld)
  deriving DecidableEq, Repr

/-- A call of `ami_sana2_tx_send_now()`: for what was held, or for what was not. -/
inductive AckSent where
  | paced (h : AckHeld)
  | direct (p : AckPacket)
  deriving DecidableEq, Repr

/-- What was held, if it was. -/
def AckSent.held? : AckSent → Option AckHeld
  | .paced h => some h
  | .direct _ => none

/-- An interface, its senders and its reader, and what they have done so far. -/
structure AckSys (τ : Type) where
  iface : AckIf τ
  sender : τ → AckSender
  reader : AckReader
  /-- `rd->ack_tr_open`. -/
  trOpen : Bool
  /-- What was accepted for holding, in that order. -/
  held : List AckHeld
  /-- The calls of `ami_sana2_tx_send_now()`, in that order. -/
  sent : List AckSent

/-- What was held and has been handed to the transmit path, in that order. -/
def AckSys.handed (s : AckSys τ) : List AckHeld := s.sent.filterMap AckSent.held?

/-- One atomic section of a task. -/
inductive AckEvent (τ : Type) where
  /-- `ami_sana2_tx_send()` up to the section; `ipv4` tells its EtherType. -/
  | send (t : τ) (p : AckPacket) (ipv4 : Bool) (dstMsw dstLsw now : ULong)
  | hold (t : τ)
  | wake (t : τ)
  | sendNow (t : τ)
  /-- `ami_sana2_ack_reader_start()`; `opened` tells whether it got its port and its timer. -/
  | readerStart (t : τ) (opened : Bool)
  /-- `ami_sana2_ack_reader_pass()` up to the first section. -/
  | readerPass (now : ULong)
  | release
  | releaseSend (now : ULong)
  /-- `ami_sana2_ack_reader_stop()` up to its flush. -/
  | readerStop
  | flush
  | flushSend
  /-- The driver reports another card memory. -/
  | capacity (hwRxBytes : ULong)

section Tasks

variable [DecidableEq τ]

/-- A sender of the system, moved on. -/
def AckSys.setSender (s : AckSys τ) (t : τ) (x : AckSender) : AckSys τ :=
  { s with sender := Function.update s.sender t x }

/-- `ami_sana2_tx_send()` up to the section: whether the packet is a pure acknowledgment to
pace. -/
def ackSend (s : AckSys τ) (t : τ) (p : AckPacket) (ipv4 : Bool) (dstMsw dstLsw now : ULong) :
    AckSys τ :=
  if s.iface.tpkb = 0 ∨ ipv4 = false then s.setSender t (.passing p)
  else
    match amiAckParse p with
    | .other => s.setSender t (.passing p)
    | .syn ports ws =>
      { s with iface := { s.iface with wsPorts := ports, ws := ws } }.setSender t (.passing p)
    | .ack ack ports win => s.setSender t (.parsed p dstMsw dstLsw ack ports win now)

/-- The section of `ami_sana2_ack_hold()`, run by a sender. -/
def ackHold (s : AckSys τ) (t : τ) (p : AckPacket) (dstMsw dstLsw ack ports win now : ULong) :
    AckSys τ :=
  match amiSana2AckHold s.iface p dstMsw dstLsw ack ports win now with
  | (some h, i) => { s with iface := i, held := s.held ++ [h] }.setSender t .waking
  | (none, i) => { s with iface := i }.setSender t (.passing p)

/-- What an event does; nothing when the task is elsewhere. -/
def ackExec (s : AckSys τ) : AckEvent τ → Option (AckSys τ)
  | .send t p ipv4 dstMsw dstLsw now =>
    match s.sender t with
    | .idle => some (ackSend s t p ipv4 dstMsw dstLsw now)
    | _ => none
  | .hold t =>
    match s.sender t with
    | .parsed p dstMsw dstLsw ack ports win now =>
      some (ackHold s t p dstMsw dstLsw ack ports win now)
    | _ => none
  | .wake t =>
    match s.sender t with
    | .waking => some (s.setSender t .idle)
    | _ => none
  | .sendNow t =>
    match s.sender t with
    | .passing p => some ({ s with sent := s.sent ++ [AckSent.direct p] }.setSender t .idle)
    | _ => none
  | .readerStart t opened =>
    match s.reader with
    | .off =>
      if s.iface.tpkb = 0 then some { s with reader := .idle, trOpen := false }
      else if opened then
        some { s with
          reader := .idle
          trOpen := true
          iface := { s.iface with task := some t } }
      else
        some { s with reader := .idle, trOpen := false, iface := { s.iface with tpkb := 0 } }
    | _ => none
  | .readerPass now =>
    match s.reader with
    | .idle => if s.trOpen then some { s with reader := .timed now } else some s
    | _ => none
  | .release =>
    match s.reader with
    | .timed now =>
      match ackReleaseSection s.iface now with
      | (none, i) => some { s with iface := i, reader := .idle }
      | (some h, i) => some { s with iface := i, reader := .handing h }
    | _ => none
  | .releaseSend now =>
    match s.reader with
    | .handing h =>
      some { s with reader := .timed now, sent := s.sent ++ [AckSent.paced h] }
    | _ => none
  | .readerStop =>
    match s.reader with
    | .idle =>
      if s.trOpen then
        some { s with
          reader := .flushing
          trOpen := false
          iface := { s.iface with task := none } }
      else some { s with reader := .flushing }
    | _ => none
  | .flush =>
    match s.reader with
    | .flushing =>
      match ackFlushSection s.iface with
      | (none, i) => some { s with iface := i, reader := .off }
      | (some h, i) => some { s with iface := i, reader := .flushHanding h }
    | _ => none
  | .flushSend =>
    match s.reader with
    | .flushHanding h =>
      some { s with reader := .flushing, sent := s.sent ++ [AckSent.paced h] }
    | _ => none
  | .capacity hwRxBytes => some { s with iface := { s.iface with hwRxBytes := hwRxBytes } }

end Tasks

/-- The interface as `ami_sana2_ack_setup()` leaves it, with every task elsewhere. -/
structure AckSys.Initial (s : AckSys τ) : Prop where
  count : s.iface.q.count = 0
  task : s.iface.task = none
  reader : s.reader = .off
  trOpen : s.trOpen = false
  sender : ∀ t, s.sender t = .idle
  held : s.held = []
  sent : s.sent = []

/-! ### The accounts of the queue -/

/-- What the reader has taken off the queue and not yet handed on. -/
def AckReader.inHand : AckReader → List AckHeld
  | .handing h | .flushHanding h => [h]
  | _ => []

/-- The reader is between its start and its stop. -/
def AckReader.Running : AckReader → Prop
  | .idle | .timed _ | .handing _ => True
  | _ => False

/-- What was held and has not been handed on: what the reader has in its hand, and what waits. -/
def AckSys.pending (s : AckSys τ) : List AckHeld := s.reader.inHand ++ s.iface.q.toList

theorem AckSys.pending_eq (s : AckSys τ) (h : s.reader.inHand = []) :
    s.pending = s.iface.q.toList := by
  rw [AckSys.pending, h, List.nil_append]

/-- The ports of a pure acknowledgment. -/
def AckPacket.flow? (p : AckPacket) : Option ULong :=
  match amiAckParse p with
  | .ack _ ports _ => some ports
  | _ => none

/-- What holds in every state. -/
structure AckInv (s : AckSys τ) : Prop where
  /-- What was held has been handed on or is pending, in that order. -/
  account : s.held = s.handed ++ s.pending
  /-- Only a running reader is announced to the senders. -/
  running : s.iface.task.isSome → s.trOpen = true ∧ s.reader.Running
  /-- A reader that is not running has left nothing behind. -/
  off : s.reader = .off → s.iface.q.toList = []
  /-- Without pacing there is nobody to release what is held, and nothing is. -/
  unpaced : s.iface.tpkb = 0 → s.iface.task = none ∧ s.pending = []
  /-- A sender that is about to hold something has parsed it. -/
  parsed : ∀ t p dstMsw dstLsw ack ports win now,
    s.sender t = .parsed p dstMsw dstLsw ack ports win now → amiAckParse p = .ack ack ports win
  /-- Only pure acknowledgments are held. -/
  flows : ∀ e ∈ s.held, e.packet.flow?.isSome

theorem AckSys.Initial.inv {s : AckSys τ} (h : s.Initial) : AckInv s where
  account := by
    simp [h.held, AckSys.handed, h.sent, AckSys.pending, h.reader, AckReader.inHand,
      Ring.toList_eq_nil, h.count]
  running := by simp [h.task]
  off := by simp [Ring.toList_eq_nil, h.count]
  unpaced _ := by simp [h.task, AckSys.pending, h.reader, AckReader.inHand, Ring.toList_eq_nil,
    h.count]
  parsed t := by simp [h.sender t]
  flows := by simp [h.held]

/-! ### What one section does -/

/-- An acknowledgment that does not wait leaves the queue and the reader alone. -/
theorem amiSana2AckHold_none {i i' : AckIf τ} {p : AckPacket}
    {dstMsw dstLsw ack ports win now : ULong}
    (h : amiSana2AckHold i p dstMsw dstLsw ack ports win now = (none, i')) :
    i'.q = i.q ∧ i'.task = i.task ∧
      (i.CardHolds ports win ∨ i.Idle now ∨ i.q.count = ackqSize ∨ i.task = none) := by
  simp only [amiSana2AckHold] at h
  split_ifs at h with hcard hidle hroom
  · obtain rfl := (Prod.mk.inj h).2
    exact ⟨rfl, rfl, .inl hcard⟩
  · obtain rfl := (Prod.mk.inj h).2
    exact ⟨rfl, rfl, .inr (.inl hidle)⟩
  · simp at h
  · obtain rfl := (Prod.mk.inj h).2
    refine ⟨rfl, rfl, .inr (.inr ?_)⟩
    have hle := i.q.count_le
    rcases ht : i.task with _ | t
    · exact .inr rfl
    · rw [ht] at hroom
      simp only [Option.isSome_some, and_true] at hroom
      exact .inl (by omega)

/-- An acknowledgment that waits is the newest of the queue, and there is a reader. -/
theorem amiSana2AckHold_some {i i' : AckIf τ} {p : AckPacket} {e : AckHeld}
    {dstMsw dstLsw ack ports win now : ULong}
    (h : amiSana2AckHold i p dstMsw dstLsw ack ports win now = (some e, i')) :
    i'.q.toList = i.q.toList ++ [e] ∧ i'.task = i.task ∧ i.task.isSome ∧ e.packet = p := by
  simp only [amiSana2AckHold] at h
  split_ifs at h with hcard hidle hroom
  · simp at h
  · simp at h
  · obtain ⟨he, rfl⟩ := Prod.mk.inj h
    obtain rfl := Option.some.inj he
    exact ⟨Ring.toList_push .., rfl, hroom.2, rfl⟩
  · simp at h

/-- Neither the rate nor the window scale changes in the section. -/
theorem amiSana2AckHold_keeps (i : AckIf τ) (p : AckPacket)
    (dstMsw dstLsw ack ports win now : ULong) :
    (amiSana2AckHold i p dstMsw dstLsw ack ports win now).2.tpkb = i.tpkb ∧
      (amiSana2AckHold i p dstMsw dstLsw ack ports win now).2.ws = i.ws := by
  simp only [amiSana2AckHold]
  split_ifs <;> exact ⟨rfl, rfl⟩

theorem ackReleaseSection_none {i i' : AckIf τ} {now : ULong}
    (h : ackReleaseSection i now = (none, i')) : i' = i := by
  simp only [ackReleaseSection] at h
  split_ifs at h <;> simp_all

theorem ackReleaseSection_some {i i' : AckIf τ} {now : ULong} {e : AckHeld}
    (h : ackReleaseSection i now = (some e, i')) :
    i.q.toList = e :: i'.q.toList ∧ i'.task = i.task ∧ i'.tpkb = i.tpkb := by
  simp only [ackReleaseSection] at h
  split_ifs at h with hcount hdue
  · simp at h
  · simp at h
  all_goals
    obtain ⟨he, rfl⟩ := Prod.mk.inj h
    obtain rfl := Option.some.inj he
    exact ⟨Ring.toList_pop _ hcount, rfl, rfl⟩

theorem ackFlushSection_none {i i' : AckIf τ} (h : ackFlushSection i = (none, i')) :
    i'.q = i.q ∧ i'.q.count = 0 ∧ i'.task = i.task ∧ i'.tpkb = i.tpkb := by
  simp only [ackFlushSection] at h
  split_ifs at h with hcount
  · obtain rfl := (Prod.mk.inj h).2
    exact ⟨rfl, hcount, rfl, rfl⟩
  · simp at h

theorem ackFlushSection_some {i i' : AckIf τ} {e : AckHeld}
    (h : ackFlushSection i = (some e, i')) :
    i.q.toList = e :: i'.q.toList ∧ i'.task = i.task ∧ i'.tpkb = i.tpkb := by
  simp only [ackFlushSection] at h
  split_ifs at h with hcount
  · simp at h
  · obtain ⟨he, rfl⟩ := Prod.mk.inj h
    obtain rfl := Option.some.inj he
    exact ⟨Ring.toList_pop _ hcount, rfl, rfl⟩

/-! ### What one event does -/

/-- An event of the driver or of a sender that touches neither the queue nor the reader. -/
theorem AckInv.congr {s s' : AckSys τ} (h : AckInv s) (hq : s'.iface.q = s.iface.q)
    (htask : s'.iface.task = s.iface.task) (htpkb : s'.iface.tpkb = s.iface.tpkb)
    (hreader : s'.reader = s.reader) (htr : s'.trOpen = s.trOpen) (hheld : s'.held = s.held)
    (hhanded : s'.handed = s.handed)
    (hparsed : ∀ t p dstMsw dstLsw ack ports win now,
      s'.sender t = .parsed p dstMsw dstLsw ack ports win now →
        amiAckParse p = .ack ack ports win) : AckInv s' := by
  have hpending : s'.pending = s.pending := by rw [AckSys.pending, hreader, hq, AckSys.pending]
  refine ⟨?_, ?_, ?_, ?_, hparsed, hheld ▸ h.flows⟩
  · rw [hheld, hhanded, hpending, h.account]
  · rw [htask, htr, hreader]
    exact h.running
  · rw [hreader, hq]
    exact h.off
  · rw [htpkb, htask, hpending]
    exact h.unpaced

/-- The reader moves on, and nothing is handed over. -/
theorem AckInv.moveReader {s s' : AckSys τ} (h : AckInv s) (hheld : s'.held = s.held)
    (hsent : s'.sent = s.sent) (hsender : s'.sender = s.sender)
    (hpending : s'.pending = s.pending)
    (hrunning : s'.iface.task.isSome → s'.trOpen = true ∧ s'.reader.Running)
    (hoff : s'.reader = .off → s'.iface.q.toList = [])
    (hunpaced : s'.iface.tpkb = 0 → s'.iface.task = none ∧ s.pending = []) : AckInv s' := by
  refine ⟨?_, hrunning, hoff, hpending ▸ hunpaced, hsender ▸ h.parsed, hheld ▸ h.flows⟩
  rw [hheld, AckSys.handed, hsent, hpending]
  exact h.account

/-- The reader hands on what it has in its hand. -/
theorem AckInv.handOver {s s' : AckSys τ} (h : AckInv s) {e : AckHeld}
    (hinHand : s.reader.inHand = [e]) (hiface : s'.iface = s.iface) (htr : s'.trOpen = s.trOpen)
    (hsender : s'.sender = s.sender) (hheld : s'.held = s.held)
    (hsent : s'.sent = s.sent ++ [.paced e]) (hreader : s'.reader.inHand = [])
    (hrunning : s.reader.Running → s'.reader.Running) (hoff : s'.reader ≠ .off) : AckInv s' := by
  have hhanded : s'.handed = s.handed ++ [e] := by
    simp [AckSys.handed, hsent, AckSent.held?]
  refine ⟨?_, fun ht ↦ ?_, fun h0 ↦ absurd h0 hoff, fun h0 ↦ ?_, hsender ▸ h.parsed,
    hheld ▸ h.flows⟩
  · rw [hheld, h.account, hhanded, AckSys.pending, AckSys.pending, hinHand, hreader, hiface]
    simp
  · rw [hiface] at ht
    obtain ⟨hopen, hrun⟩ := h.running ht
    exact ⟨htr ▸ hopen, hrunning hrun⟩
  · rw [hiface] at h0
    have hnil := (h.unpaced h0).2
    rw [AckSys.pending, hinHand] at hnil
    cases hnil

theorem AckInv.task_none {s : AckSys τ} (h : AckInv s) (hr : ¬ s.reader.Running) :
    s.iface.task = none := by
  rcases ht : s.iface.task with _ | t
  · rfl
  · exact absurd (h.running (by rw [ht]; rfl)).2 hr

section Tasks

variable [DecidableEq τ] {s s' : AckSys τ}

/-- One sender goes on, to where it has parsed nothing or what it says. -/
theorem AckInv.setSender (h : AckInv s) {t : τ} {x : AckSender}
    (hx : ∀ p dstMsw dstLsw ack ports win now, x = .parsed p dstMsw dstLsw ack ports win now →
      amiAckParse p = .ack ack ports win) : AckInv (s.setSender t x) := by
  refine h.congr rfl rfl rfl rfl rfl rfl rfl fun t' p dstMsw dstLsw ack ports win now ht' ↦ ?_
  simp only [AckSys.setSender, Function.update_apply] at ht'
  split_ifs at ht'
  · exact hx _ _ _ _ _ _ _ ht'
  · exact h.parsed _ _ _ _ _ _ _ _ ht'

theorem AckInv.send (h : AckInv s) (t : τ) (p : AckPacket) (ipv4 : Bool)
    (dstMsw dstLsw now : ULong) : AckInv (ackSend s t p ipv4 dstMsw dstLsw now) := by
  simp only [ackSend]
  split_ifs
  · exact h.setSender (by simp)
  · cases hp : amiAckParse p with
    | other => exact h.setSender (by simp)
    | syn ports ws =>
      have hlearnt : AckInv { s with iface := { s.iface with wsPorts := ports, ws := ws } } :=
        h.congr rfl rfl rfl rfl rfl rfl rfl h.parsed
      exact hlearnt.setSender (by simp)
    | ack ack ports win =>
      refine h.setSender fun _ _ _ _ _ _ _ hx ↦ ?_
      cases hx
      exact hp

theorem AckInv.hold (h : AckInv s) {t : τ} {p : AckPacket}
    {dstMsw dstLsw ack ports win now : ULong}
    (ht : s.sender t = .parsed p dstMsw dstLsw ack ports win now) :
    AckInv (ackHold s t p dstMsw dstLsw ack ports win now) := by
  obtain ⟨htpkb, -⟩ := amiSana2AckHold_keeps s.iface p dstMsw dstLsw ack ports win now
  rcases hr : amiSana2AckHold s.iface p dstMsw dstLsw ack ports win now with ⟨_ | e, i⟩ <;>
    rw [hr] at htpkb <;> simp only [ackHold, hr]
  · obtain ⟨hq, htask, -⟩ := amiSana2AckHold_none hr
    have hiface : AckInv { s with iface := i } :=
      h.congr hq htask htpkb rfl rfl rfl rfl h.parsed
    exact hiface.setSender (by simp)
  · obtain ⟨hq, htask, hsome, rfl⟩ := amiSana2AckHold_some hr
    obtain ⟨htr, hrun⟩ := h.running hsome
    have hparse := h.parsed t _ _ _ _ _ _ _ ht
    have hiface : AckInv { s with iface := i, held := s.held ++ [e] } := by
      refine ⟨?_, fun _ ↦ ⟨htr, hrun⟩, fun hoff ↦ ?_, fun h0 ↦ ?_, h.parsed, ?_⟩
      · rw [h.account, AckSys.pending, AckSys.pending, hq]
        simp [AckSys.handed]
      · have hoff : s.reader = .off := hoff
        rw [hoff] at hrun
        exact hrun.elim
      · rw [(h.unpaced (htpkb ▸ h0)).1] at hsome
        cases hsome
      · intro e' he'
        rcases List.mem_append.mp he' with he' | he'
        · exact h.flows e' he'
        · obtain rfl := List.mem_singleton.mp he'
          simp [AckPacket.flow?, hparse]
    exact hiface.setSender (by simp)

theorem AckInv.sendNow (h : AckInv s) (t : τ) (p : AckPacket) :
    AckInv ({ s with sent := s.sent ++ [AckSent.direct p] }.setSender t .idle) := by
  have hsent : AckInv { s with sent := s.sent ++ [AckSent.direct p] } := by
    refine h.congr rfl rfl rfl rfl rfl rfl ?_ h.parsed
    simp [AckSys.handed, AckSent.held?]
  exact hsent.setSender (by simp)

theorem AckInv.readerStart (h : AckInv s) {t : τ} {opened : Bool}
    (he : ackExec s (.readerStart t opened) = some s') : AckInv s' := by
  simp only [ackExec] at he
  split at he
  · next hoff =>
    have htask := h.task_none (by simp [hoff, AckReader.Running])
    have hpending := s.pending_eq (by rw [hoff]; rfl)
    have hnil : s.pending = [] := hpending.trans (h.off hoff)
    split_ifs at he with hzero <;> cases he <;>
      refine h.moveReader rfl rfl rfl hpending.symm ?_ (by simp) ?_
    · simp [htask]
    · exact h.unpaced
    · exact fun _ ↦ ⟨rfl, trivial⟩
    · exact fun h0 ↦ absurd h0 hzero
    · simp [htask]
    · exact fun _ ↦ ⟨htask, hnil⟩
  · cases he

theorem AckInv.readerPass (h : AckInv s) {now : ULong}
    (he : ackExec s (.readerPass now) = some s') : AckInv s' := by
  simp only [ackExec] at he
  split at he
  · next hidle =>
    have hpending := s.pending_eq (by rw [hidle]; rfl)
    split_ifs at he with htr <;> cases he
    · exact h.moveReader rfl rfl rfl hpending.symm (fun _ ↦ ⟨htr, trivial⟩) (by simp) h.unpaced
    · exact h
  · cases he

theorem AckInv.release (h : AckInv s) (he : ackExec s .release = some s') : AckInv s' := by
  simp only [ackExec] at he
  split at he
  · next now hr =>
    have hpending := s.pending_eq (by rw [hr]; rfl)
    split at he <;> cases he
    · next hsec =>
      obtain rfl := ackReleaseSection_none hsec
      exact h.moveReader rfl rfl rfl hpending.symm (fun ht ↦ ⟨(h.running ht).1, trivial⟩) (by simp)
        h.unpaced
    · next hsec =>
      obtain ⟨hq, htask, htpkb⟩ := ackReleaseSection_some hsec
      refine h.moveReader rfl rfl rfl (hq ▸ hpending).symm
        (fun ht ↦ ⟨(h.running (htask ▸ ht)).1, trivial⟩) (by simp) fun h0 ↦ ?_
      exact htask ▸ h.unpaced (htpkb ▸ h0)
  · cases he

theorem AckInv.readerStop (h : AckInv s) (he : ackExec s .readerStop = some s') : AckInv s' := by
  simp only [ackExec] at he
  split at he
  · next hidle =>
    have hpending := s.pending_eq (by rw [hidle]; rfl)
    split_ifs at he with htr <;> cases he <;>
      refine h.moveReader rfl rfl rfl hpending.symm ?_ (by simp) ?_
    · simp
    · exact fun h0 ↦ ⟨rfl, (h.unpaced h0).2⟩
    · exact fun ht ↦ absurd (h.running ht).1 htr
    · exact h.unpaced
  · cases he

theorem AckInv.flush (h : AckInv s) (he : ackExec s .flush = some s') : AckInv s' := by
  simp only [ackExec] at he
  split at he
  · next hr =>
    have hpending := s.pending_eq (by rw [hr]; rfl)
    have hnone := h.task_none (by simp [hr, AckReader.Running])
    split at he <;> cases he
    · next hsec =>
      obtain ⟨hq, hcount, htask, htpkb⟩ := ackFlushSection_none hsec
      refine h.moveReader rfl rfl rfl (hq ▸ hpending).symm (by simp [htask, hnone])
        (fun _ ↦ Ring.toList_eq_nil.mpr hcount) fun h0 ↦ ?_
      exact htask ▸ h.unpaced (htpkb ▸ h0)
    · next hsec =>
      obtain ⟨hq, htask, htpkb⟩ := ackFlushSection_some hsec
      refine h.moveReader rfl rfl rfl (hq ▸ hpending).symm (by simp [htask, hnone]) (by simp)
        fun h0 ↦ ?_
      exact htask ▸ h.unpaced (htpkb ▸ h0)
  · cases he

/-- **One event.** -/
theorem AckInv.step {e : AckEvent τ} (h : AckInv s) (he : ackExec s e = some s') : AckInv s' := by
  cases e with
  | send t p ipv4 dstMsw dstLsw now =>
    simp only [ackExec] at he
    split at he <;> cases he
    exact h.send ..
  | hold t =>
    simp only [ackExec] at he
    split at he
    · next ht =>
      cases he
      exact h.hold ht
    · cases he
  | wake t =>
    simp only [ackExec] at he
    split at he <;> cases he
    exact h.setSender (by simp)
  | sendNow t =>
    simp only [ackExec] at he
    split at he <;> cases he
    exact h.sendNow ..
  | readerStart t opened => exact h.readerStart he
  | readerPass now => exact h.readerPass he
  | release => exact h.release he
  | releaseSend now | flushSend =>
    simp only [ackExec] at he
    split at he
    · next hr =>
      cases he
      exact h.handOver (by rw [hr]; rfl) rfl rfl rfl rfl rfl rfl (by simp [hr, AckReader.Running])
        (by simp)
    · cases he
  | readerStop => exact h.readerStop he
  | flush => exact h.flush he
  | capacity hwRxBytes =>
    cases he
    exact h.congr rfl rfl rfl rfl rfl rfl rfl h.parsed

theorem ackInv_of_reachable {s : AckSys τ} (h : Reachable ackExec AckSys.Initial s) : AckInv s :=
  h.invariant (fun _ hs ↦ hs.inv) fun _ _ _ hs he ↦ hs.step he

/-- **Pacing keeps the order.** In every interleaving, what was held has been handed to the
transmit path once and in the order it was held, up to what the reader has in its hand and what
still waits; once the reader has stopped nothing is left.  Only pure acknowledgments are held, and
none while pacing is off.  A pure acknowledgment that does not wait passes a held one of its flow
only when the card holds its window, when the queue is full, when no reader runs, or when the queue
is empty and the held one is in the reader's hand; and what goes past the queue unseen is not a pure
acknowledgment, or nothing is held. -/
theorem ackPace_order {s : AckSys τ} (h : Reachable ackExec AckSys.Initial s) :
    s.held = s.handed ++ s.pending ∧
    (s.reader = .off → s.pending = [] ∧ s.handed = s.held) ∧
    (∀ e ∈ s.held, e.packet.flow?.isSome) ∧
    (s.iface.tpkb = 0 → s.pending = []) ∧
    (∀ t p dstMsw dstLsw ack ports win now s',
      s.sender t = .parsed p dstMsw dstLsw ack ports win now →
      ackExec s (.hold t) = some s' → s'.sender t = .passing p →
      (∃ e ∈ s.pending, e.packet.flow? = some ports) →
        s.iface.CardHolds ports win ∨ s.iface.q.count = ackqSize ∨ s.iface.task = none ∨
        s.iface.q.toList = [] ∧ s.reader.inHand ≠ []) ∧
    ∀ t p ipv4 dstMsw dstLsw now s', ackExec s (.send t p ipv4 dstMsw dstLsw now) = some s' →
      s'.sender t = .passing p → s.pending = [] ∨ ipv4 = false ∨ p.flow? = none := by
  have hinv := ackInv_of_reachable h
  refine ⟨hinv.account, fun hoff ↦ ?_, hinv.flows, fun h0 ↦ (hinv.unpaced h0).2, ?_, ?_⟩
  · have hnil : s.pending = [] := by simp [AckSys.pending, hoff, AckReader.inHand, hinv.off hoff]
    exact ⟨hnil, by rw [hinv.account, hnil, List.append_nil]⟩
  · rintro t p dstMsw dstLsw ack ports win now s' ht he hpass ⟨e, hmem, -⟩
    simp only [ackExec, ht, Option.some.injEq] at he
    rcases hr : amiSana2AckHold s.iface p dstMsw dstLsw ack ports win now with ⟨_ | e', i⟩ <;>
      simp only [ackHold, hr] at he
    · rcases (amiSana2AckHold_none hr).2.2 with hcard | hidle | hfull | hnone
      · exact .inl hcard
      · have hempty := Ring.toList_eq_nil.mpr hidle.1
        rw [AckSys.pending, hempty, List.append_nil] at hmem
        exact .inr (.inr (.inr ⟨hempty, List.ne_nil_of_mem hmem⟩))
      · exact .inr (.inl hfull)
      · exact .inr (.inr (.inl hnone))
    · subst he
      simp [AckSys.setSender] at hpass
  · intro t p ipv4 dstMsw dstLsw now s' he hpass
    simp only [ackExec] at he
    split at he <;> cases he
    simp only [ackSend] at hpass
    split_ifs at hpass with hoff
    · rcases hoff with h0 | hother
      · exact .inl (hinv.unpaced h0).2
      · exact .inr (.inl hother)
    · refine .inr (.inr ?_)
      rcases hp : amiAckParse p with _ | _ | _ <;> simp only [hp] at hpass
      · simp [AckPacket.flow?, hp]
      · simp [AckPacket.flow?, hp]
      · simp [AckSys.setSender] at hpass

end Tasks

/-- A pure acknowledgment of one connection. -/
def pureAck (ack win : List UByte) : AckPacket where
  ip := [0x45, 0, 0, 40, 0, 0, 0, 0, 64, 6, 0, 0, 10, 0, 0, 1, 10, 0, 0, 2,
    0x1f, 0x90, 0xc0, 0, 0, 0, 0, 1] ++ ack ++ [0x50, 0x10] ++ win ++ [0, 0, 0, 0]
  length := 40

/-- An interface that paces, whose card holds 20000 bytes. -/
def pacedIf : AckSys Bool where
  iface :=
    { tpkb := 286, q := .empty (fun _ ↦ ⟨⟨[], 0⟩, 0, 0, 0⟩) ackqSize_pos, clock := false, next := 0,
      prevAck := 0, prevEdge := 0, prevPorts := 0, wsPorts := 0, ws := 0, groPorts := 0,
      task := none, hwRxBytes := 20000, paced := 0, unpaced := 0 }
  sender _ := .idle
  reader := .off
  trOpen := false
  held := []
  sent := []

theorem pacedIf_initial : pacedIf.Initial :=
  ⟨rfl, rfl, rfl, rfl, fun _ ↦ rfl, rfl, rfl⟩

/-- Two acknowledgments with a window beyond the card: the first finds the line idle, the second
waits. -/
def twoAcks : List (AckEvent Bool) :=
  [.readerStart true true, .send false (pureAck [0, 0, 4, 0] [255, 255]) true 0 0 0, .hold false,
    .sendNow false, .send false (pureAck [0, 0, 8, 0] [255, 255]) true 0 0 0, .hold false,
    .wake false]

theorem ackPace_order_twoAcks :
    ∃ s, run ackExec pacedIf twoAcks = some s ∧
      s.pending.map (·.packet) = [pureAck [0, 0, 8, 0] [255, 255]] ∧
      s.held = s.handed ++ s.pending := by
  have hrun : (run ackExec pacedIf twoAcks).map (fun s ↦ s.pending.map (·.packet)) =
      some [pureAck [0, 0, 8, 0] [255, 255]] := by decide
  obtain ⟨s, hs, hpending⟩ := Option.map_eq_some_iff.mp hrun
  exact ⟨s, hs, hpending, (ackPace_order ⟨pacedIf, twoAcks, pacedIf_initial, hs⟩).1⟩

/-- An acknowledgment of the same connection whose window the card holds goes out while an earlier
one waits: what was held, what waits and what was sent. -/
theorem ackPace_overtakes :
    pacedIf.Initial ∧
    (run ackExec pacedIf (twoAcks ++
        [.send false (pureAck [0, 0, 12, 0] [4, 0]) true 0 0 0, .hold false, .sendNow false])).map
      (fun s ↦ (s.held.map (·.packet), s.iface.q.toList.map (·.packet), s.sent)) =
      some ([pureAck [0, 0, 8, 0] [255, 255]], [pureAck [0, 0, 8, 0] [255, 255]],
        [.direct (pureAck [0, 0, 4, 0] [255, 255]), .direct (pureAck [0, 0, 12, 0] [4, 0])]) ∧
    (pureAck [0, 0, 8, 0] [255, 255]).flow? = (pureAck [0, 0, 12, 0] [4, 0]).flow? :=
  ⟨pacedIf_initial, by decide, by decide⟩

end AmiNetXDuo.Sana2
