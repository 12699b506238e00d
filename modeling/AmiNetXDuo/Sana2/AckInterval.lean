import AmiNetXDuo.Sana2.AckPace

/-!
# The interval of a paced acknowledgment

`ami_sana2_ack_setup()` turns the rate of `ACKPACE` into E-clock ticks for every thousand bytes,
and `ami_sana2_ack_hold()` multiplies them by the bytes an acknowledgment opens, at most sixteen
kilobytes.  Both are 32-bit.  The slower the rate the more ticks, and below 22 kbit/s the product
of the largest step no longer fits; the configuration accepts rates from 1 kbit/s on.

## Main definitions

* `amiSana2AckSetup` : the interface with a rate.
* `eclockRates` : the E-clock of the machines.
* `AckIf.gap` : the interval.
* `IntervalInv` : what the runs keep of the numbers an interval is made of.

## Main results

* `toNat_ticksPerKilobyte` : the ticks are the quotient, rounded up to one.
* `toNat_gap_iff` : the interval is the quotient of the exact product when that fits, and only then.
* `ackInterval_exact` : in every run.
* `ackInterval_wraps` : the interval of a step of sixteen kilobytes at 1 kbit/s.
-/

namespace AmiNetXDuo.Sana2

open Net68k Interleaving

variable {τ : Type}

/-! ### The rate -/

/-- The ticks for every thousand bytes, at a rate that is not zero. -/
def ticksPerKilobyte (hz kbps : ULong) : ULong := if hz * 8 / kbps = 0 then 1 else hz * 8 / kbps

/-- `ami_sana2_ack_setup()`; `hz` is what `ami_eclock_rate()` answers. -/
def amiSana2AckSetup (i : AckIf τ) (hz kbps : ULong) : AckIf τ :=
  let off : AckIf τ :=
    { i with tpkb := 0, q := .empty i.q.cell ackqSize_pos, clock := false, task := none }
  if kbps = 0 then off
  else if hz = 0 then off
  else { off with tpkb := ticksPerKilobyte hz kbps }

/-- The E-clock of a PAL and of an NTSC machine. -/
def eclockRates : List ULong := [709379, 715909]

theorem toNat_le_of_mem_eclockRates {hz : ULong} (h : hz ∈ eclockRates) :
    709379 ≤ hz.toNat ∧ hz.toNat ≤ 715909 := by
  simp only [eclockRates, List.mem_cons, List.not_mem_nil, or_false] at h
  rcases h with rfl | rfl <;> decide

/-- **The ticks are exact.** -/
theorem toNat_ticksPerKilobyte {hz kbps : ULong} (hhz : hz ∈ eclockRates) :
    (ticksPerKilobyte hz kbps).toNat = max 1 (hz.toNat * 8 / kbps.toNat) := by
  obtain ⟨-, hle⟩ := toNat_le_of_mem_eclockRates hhz
  have hquot : (hz * 8 / kbps).toNat = hz.toNat * 8 / kbps.toNat := by
    rw [BitVec.toNat_udiv, BitVec.toNat_mul]
    change hz.toNat * 8 % 2 ^ 32 / kbps.toNat = _
    rw [Nat.mod_eq_of_lt (by omega)]
  unfold ticksPerKilobyte
  split
  · next hzero =>
    rw [hzero] at hquot
    change 0 = _ at hquot
    rw [← hquot]
    rfl
  · next hne =>
    have hpos : 0 < (hz * 8 / kbps).toNat :=
      Nat.pos_of_ne_zero fun h0 ↦ hne (BitVec.eq_of_toNat_eq h0)
    rw [hquot] at hpos ⊢
    exact (max_eq_right hpos).symm

theorem tpkb_amiSana2AckSetup {i : AckIf τ} {hz kbps : ULong} (hhz : hz ∈ eclockRates)
    (hkbps : kbps ≠ 0) : (amiSana2AckSetup i hz kbps).tpkb = ticksPerKilobyte hz kbps := by
  have hne : hz ≠ 0 := by
    rintro rfl
    exact absurd (toNat_le_of_mem_eclockRates hhz).1 (by decide)
  simp only [amiSana2AckSetup, if_neg hkbps, if_neg hne]

/-! ### The interval -/

/-- The interval the section computes for an acknowledgment, in ticks. -/
def AckIf.gap (i : AckIf τ) (ack ports win : ULong) : ULong :=
  i.opened ack ports (ack + i.window ports win) * i.tpkb / 1000

/-- What an acknowledgment that is held waits for, and what one that goes at once starts the clock
with. -/
theorem amiSana2AckHold_gap (i : AckIf τ) (p : AckPacket)
    (dstMsw dstLsw ack ports win now : ULong) :
    (∀ e i', amiSana2AckHold i p dstMsw dstLsw ack ports win now = (some e, i') →
      e.gap = i.gap ack ports win) ∧
    (¬ i.CardHolds ports win → i.Idle now →
      (amiSana2AckHold i p dstMsw dstLsw ack ports win now).2.next =
        now + i.gap ack ports win) := by
  refine ⟨fun e i' he ↦ ?_, fun hcard hidle ↦ ?_⟩
  · simp only [amiSana2AckHold] at he
    split_ifs at he <;> obtain ⟨hentry, -⟩ := Prod.mk.inj he <;> cases hentry
    rfl
  · simp only [amiSana2AckHold, if_neg hcard, if_pos hidle]
    rfl

theorem toNat_opened_le (i : AckIf τ) (ack ports edge : ULong) :
    (i.opened ack ports edge).toNat ≤ 16384 := by
  simp only [AckIf.opened]
  generalize (if ports = i.prevPorts then _ else ackGapBytesDef : ULong) = step
  split
  · exact le_rfl
  · next hle => exact not_lt.mp hle

/-- The quotient is exact exactly when the product fits. -/
theorem toNat_gap_iff (step tpkb : ULong) :
    (step * tpkb / 1000).toNat = step.toNat * tpkb.toNat / 1000 ↔
      step.toNat * tpkb.toNat < 2 ^ 32 := by
  rw [BitVec.toNat_udiv, BitVec.toNat_mul]
  change step.toNat * tpkb.toNat % 2 ^ 32 / 1000 = _ ↔ _
  generalize step.toNat * tpkb.toNat = n
  constructor
  · -- what a wrap takes away is more than a thousand
    intro h
    omega
  · intro h
    rw [Nat.mod_eq_of_lt h]

/-- A step has few enough bytes for these ticks. -/
theorem step_mul_lt {step tpkb : ULong} (hstep : step.toNat ≤ 16384) (htpkb : tpkb.toNat < 262144) :
    step.toNat * tpkb.toNat < 2 ^ 32 := by
  calc step.toNat * tpkb.toNat ≤ 16384 * 262143 :=
        Nat.mul_le_mul hstep (Nat.le_of_lt_succ htpkb)
    _ < 2 ^ 32 := by decide

/-- From 22 kbit/s on there are few enough ticks. -/
theorem toNat_ticksPerKilobyte_lt {hz kbps : ULong} (hhz : hz ∈ eclockRates)
    (hkbps : 22 ≤ kbps.toNat) : (ticksPerKilobyte hz kbps).toNat < 262144 := by
  obtain ⟨-, hle⟩ := toNat_le_of_mem_eclockRates hhz
  rw [toNat_ticksPerKilobyte hhz]
  refine max_lt (by decide) ?_
  calc hz.toNat * 8 / kbps.toNat ≤ 715909 * 8 / 22 :=
        Nat.div_le_div (Nat.mul_le_mul_right 8 hle) hkbps (by decide)
    _ < 262144 := by decide

/-! ### Runs -/

/-- What an interval is computed from: the ticks of the rate, unless the reader could not start, and
a window scale of at most 14. -/
structure IntervalInv (tpkb : ULong) (s : AckSys τ) : Prop where
  tpkb : s.iface.tpkb = 0 ∨ s.iface.tpkb = tpkb
  ws : s.iface.ws.toNat ≤ 14

theorem toNat_learnScaleFrom_le (m : Mem) (tcp thl fuel i : ℕ) :
    (learnScaleFrom m tcp thl fuel i).toNat ≤ 14 := by
  induction fuel generalizing i with
  | zero => exact Nat.zero_le _
  | succ fuel ih =>
    unfold learnScaleFrom
    split_ifs with _ _ _ _ _ hbig
    · exact Nat.zero_le _
    · exact Nat.zero_le _
    · exact ih _
    · exact Nat.zero_le _
    · exact le_rfl
    · exact not_lt.mp hbig
    · exact ih _

/-- What `ami_ack_parse()` reports is within these bounds. -/
theorem amiAckParse_bounds (p : AckPacket) :
    (∀ ports ws, amiAckParse p = .syn ports ws → ws.toNat ≤ 14) ∧
      ∀ ack ports win, amiAckParse p = .ack ack ports win → win.toNat < 65536 := by
  simp only [amiAckParse]
  refine ⟨fun ports ws h ↦ ?_, fun ack ports win h ↦ ?_⟩
  · split_ifs at h
    cases h
    exact toNat_learnScaleFrom_le ..
  · split_ifs at h
    cases h
    exact toNat_rd16_lt ..

theorem ackReleaseSection_keeps (i : AckIf τ) (now : ULong) :
    (ackReleaseSection i now).2.tpkb = i.tpkb ∧ (ackReleaseSection i now).2.ws = i.ws := by
  simp only [ackReleaseSection]
  split_ifs <;> exact ⟨rfl, rfl⟩

theorem ackFlushSection_keeps (i : AckIf τ) :
    (ackFlushSection i).2.tpkb = i.tpkb ∧ (ackFlushSection i).2.ws = i.ws := by
  simp only [ackFlushSection]
  split_ifs <;> exact ⟨rfl, rfl⟩

section Tasks

variable [DecidableEq τ] {tpkb : ULong}

omit [DecidableEq τ] in
theorem IntervalInv.congr {s s' : AckSys τ} (h : IntervalInv tpkb s)
    (hkeeps : s'.iface.tpkb = s.iface.tpkb ∧ s'.iface.ws = s.iface.ws) : IntervalInv tpkb s' where
  tpkb := hkeeps.1 ▸ h.tpkb
  ws := hkeeps.2 ▸ h.ws

/-- A SYN is where the scale comes from. -/
theorem IntervalInv.send {s : AckSys τ} (h : IntervalInv tpkb s) (t : τ) (p : AckPacket)
    (ipv4 : Bool) (dstMsw dstLsw now : ULong) :
    IntervalInv tpkb (ackSend s t p ipv4 dstMsw dstLsw now) := by
  simp only [ackSend]
  split_ifs
  · exact ⟨h.tpkb, h.ws⟩
  · cases hp : amiAckParse p with
    | other => exact ⟨h.tpkb, h.ws⟩
    | syn ports ws => exact ⟨h.tpkb, (amiAckParse_bounds p).1 ports ws hp⟩
    | ack ack ports win => exact ⟨h.tpkb, h.ws⟩

theorem IntervalInv.hold {s : AckSys τ} (h : IntervalInv tpkb s) (t : τ) (p : AckPacket)
    (dstMsw dstLsw ack ports win now : ULong) :
    IntervalInv tpkb (ackHold s t p dstMsw dstLsw ack ports win now) := by
  have hkeeps := amiSana2AckHold_keeps s.iface p dstMsw dstLsw ack ports win now
  rcases hr : amiSana2AckHold s.iface p dstMsw dstLsw ack ports win now with ⟨_ | e, i⟩ <;>
    rw [hr] at hkeeps <;> simp only [ackHold, hr] <;> exact h.congr hkeeps

/-- **One event.** -/
theorem IntervalInv.step {s s' : AckSys τ} {e : AckEvent τ} (h : IntervalInv tpkb s)
    (he : ackExec s e = some s') : IntervalInv tpkb s' := by
  cases e with
  | send t p ipv4 dstMsw dstLsw now =>
    simp only [ackExec] at he
    split at he <;> cases he
    exact h.send ..
  | hold t =>
    simp only [ackExec] at he
    split at he <;> cases he
    exact h.hold ..
  | readerStart t opened =>
    simp only [ackExec] at he
    split at he
    · split_ifs at he <;> cases he
      · exact ⟨h.tpkb, h.ws⟩
      · exact ⟨h.tpkb, h.ws⟩
      · exact ⟨.inl rfl, h.ws⟩
    · cases he
  | release =>
    simp only [ackExec] at he
    split at he
    · next now hr =>
      have hkeeps := ackReleaseSection_keeps s.iface now
      split at he <;> next hsec => cases he; rw [hsec] at hkeeps; exact h.congr hkeeps
    · cases he
  | flush =>
    simp only [ackExec] at he
    split at he
    · have hkeeps := ackFlushSection_keeps s.iface
      split at he <;> next hsec => cases he; rw [hsec] at hkeeps; exact h.congr hkeeps
    · cases he
  | readerPass now | readerStop =>
    simp only [ackExec] at he
    split at he
    · split_ifs at he <;> cases he <;> exact ⟨h.tpkb, h.ws⟩
    · cases he
  | wake t | sendNow t | releaseSend now | flushSend =>
    simp only [ackExec] at he
    split at he <;> cases he
    exact ⟨h.tpkb, h.ws⟩
  | capacity hwRxBytes =>
    cases he
    exact ⟨h.tpkb, h.ws⟩

/-- A system whose interface was set up for the rate. -/
structure AckSys.SetUp (hz kbps : ULong) (s : AckSys τ) : Prop where
  initial : s.Initial
  iface : ∃ i, s.iface = amiSana2AckSetup i hz kbps
  ws : s.iface.ws = 0

omit [DecidableEq τ] in
theorem AckSys.SetUp.inv {hz kbps : ULong} {s : AckSys τ} (h : s.SetUp hz kbps)
    (hhz : hz ∈ eclockRates) (hkbps : kbps ≠ 0) : IntervalInv (ticksPerKilobyte hz kbps) s where
  tpkb := by
    obtain ⟨i, hi⟩ := h.iface
    rw [hi]
    exact .inr (tpkb_amiSana2AckSetup hhz hkbps)
  ws := by
    rw [h.ws]
    exact Nat.zero_le _

omit [DecidableEq τ] in
/-- The scaled window of a header fits. -/
theorem IntervalInv.toNat_window {s : AckSys τ} (h : IntervalInv tpkb s) {ports win : ULong}
    (hwin : win.toNat < 65536) :
    (s.iface.window ports win).toNat =
      win.toNat * 2 ^ if ports = s.iface.wsPorts then s.iface.ws.toNat else 0 := by
  unfold AckIf.window
  split
  · have hfit : win.toNat * 2 ^ s.iface.ws.toNat < 2 ^ 32 := by
      calc win.toNat * 2 ^ s.iface.ws.toNat
          ≤ 65535 * 2 ^ 14 :=
            Nat.mul_le_mul (Nat.le_of_lt_succ hwin) (Nat.pow_le_pow_right (by decide) h.ws)
        _ < 2 ^ 32 := by decide
    rw [BitVec.toNat_shiftLeft, Nat.shiftLeft_eq, Nat.mod_eq_of_lt hfit]
  · simp

/-- **The interval.**  At every rate, in every interleaving, the ticks and the window that an
acknowledgment is paced with are exact, and it waits, or starts the clock, with the interval the
section computes.  That interval is the exact product of the bytes it opens and the ticks, in
thousands, exactly when the product fits 32 bits; from 22 kbit/s on it always does. -/
theorem ackInterval_exact {hz kbps : ULong} (hhz : hz ∈ eclockRates) (hkbps : kbps ≠ 0)
    {s : AckSys τ} (hreach : Reachable ackExec (AckSys.SetUp hz kbps) s) {t : τ} {p : AckPacket}
    {dstMsw dstLsw ack ports win now : ULong}
    (ht : s.sender t = .parsed p dstMsw dstLsw ack ports win now) :
    let step := (s.iface.opened ack ports (ack + s.iface.window ports win)).toNat
    let ticks := s.iface.tpkb.toNat
    (ticks = 0 ∨ ticks = max 1 (hz.toNat * 8 / kbps.toNat)) ∧
    (s.iface.window ports win).toNat =
      win.toNat * 2 ^ (if ports = s.iface.wsPorts then s.iface.ws.toNat else 0) ∧
    (∀ e i, amiSana2AckHold s.iface p dstMsw dstLsw ack ports win now = (some e, i) →
      e.gap = s.iface.gap ack ports win) ∧
    (¬ s.iface.CardHolds ports win → s.iface.Idle now →
      (amiSana2AckHold s.iface p dstMsw dstLsw ack ports win now).2.next =
        now + s.iface.gap ack ports win) ∧
    ((s.iface.gap ack ports win).toNat = step * ticks / 1000 ↔ step * ticks < 2 ^ 32) ∧
    (22 ≤ kbps.toNat → step * ticks < 2 ^ 32) := by
  have hinv : IntervalInv (ticksPerKilobyte hz kbps) s :=
    hreach.invariant (fun _ hs ↦ hs.inv hhz hkbps) fun _ _ _ hs he ↦ hs.step he
  obtain ⟨s₀, es, hsetUp, hrun⟩ := hreach
  have hparsed := (ackInv_of_reachable ⟨s₀, es, hsetUp.initial, hrun⟩).parsed t _ _ _ _ _ _ _ ht
  obtain ⟨hheld, hidle⟩ := amiSana2AckHold_gap s.iface p dstMsw dstLsw ack ports win now
  refine ⟨?_, hinv.toNat_window ((amiAckParse_bounds p).2 _ _ _ hparsed), hheld, hidle,
    toNat_gap_iff _ _, fun hlow ↦ ?_⟩
  · rcases hinv.tpkb with h0 | hset
    · exact .inl (by rw [h0]; rfl)
    · exact .inr (by rw [hset, toNat_ticksPerKilobyte hhz])
  · refine step_mul_lt (toNat_opened_le ..) ?_
    rcases hinv.tpkb with h0 | hset
    · rw [h0]
      decide
    · rw [hset]
      exact toNat_ticksPerKilobyte_lt hhz hlow

end Tasks

/-- An interface that paces at this rate. -/
def pacedAt (hz kbps : ULong) : AckSys Bool :=
  { pacedIf with iface := amiSana2AckSetup { pacedIf.iface with hwRxBytes := 0 } hz kbps }

/-- Two acknowledgments sixteen kilobytes apart, up to the section of the second. -/
def farAcks : List (AckEvent Bool) :=
  [.readerStart true true, .send false (pureAck [0, 0, 64, 0] [32, 0]) true 0 0 0, .hold false,
    .sendNow false, .send false (pureAck [0, 0, 128, 0] [32, 0]) true 0 0 0]

theorem pacedAt_setUp {hz kbps : ULong} : (pacedAt hz kbps).SetUp hz kbps := by
  have hoff : (pacedAt hz kbps).iface.q.count = 0 ∧ (pacedAt hz kbps).iface.task = none ∧
      (pacedAt hz kbps).iface.ws = 0 := by
    simp only [pacedAt, amiSana2AckSetup]
    split_ifs <;> exact ⟨rfl, rfl, rfl⟩
  exact ⟨⟨hoff.1, hoff.2.1, rfl, rfl, fun _ ↦ rfl, rfl, rfl⟩, ⟨_, rfl⟩, hoff.2.2⟩

/-- The second acknowledgment of `farAcks` at 22 kbit/s: its interval is exact. -/
theorem ackInterval_exact_farAcks :
    ∃ s, run ackExec (pacedAt 715909 22) farAcks = some s ∧
      (s.iface.gap 0x8000 0x1f90c000 0x2000).toNat = 16384 * 260330 / 1000 := by
  have hany : (run ackExec (pacedAt 715909 22) farAcks).any (fun s ↦
      decide (s.sender false =
        .parsed (pureAck [0, 0, 128, 0] [32, 0]) 0 0 0x8000 0x1f90c000 0x2000 0 ∧
        (s.iface.opened 0x8000 0x1f90c000 (0x8000 + s.iface.window 0x1f90c000 0x2000)).toNat =
          16384 ∧ s.iface.tpkb = 260330)) = true := by
    decide +kernel
  obtain ⟨s, hs, hprop⟩ := (Option.any_eq_true _ _).mp hany
  obtain ⟨hparsed, hopened, htpkb⟩ := of_decide_eq_true hprop
  have hreach : Reachable ackExec (AckSys.SetUp 715909 22) s := ⟨_, farAcks, pacedAt_setUp, hs⟩
  obtain ⟨-, -, -, -, hexact, hfits⟩ := ackInterval_exact (by decide) (by decide) hreach hparsed
  refine ⟨s, hs, ?_⟩
  rw [hexact.mpr (hfits (by decide)), hopened, htpkb]
  rfl

/-- **The product wraps.**  At 1 kbit/s an acknowledgment that opens sixteen kilobytes waits
3641311 ticks; the exact interval is 93835624. -/
theorem ackInterval_wraps :
    (pacedAt 715909 1).SetUp 715909 1 ∧
    (run ackExec (pacedAt 715909 1) farAcks).map
      (fun s ↦ ((s.iface.opened 0x8000 0x1f90c000
        (0x8000 + s.iface.window 0x1f90c000 0x2000)).toNat, s.iface.tpkb.toNat)) =
      some (16384, 5727272) ∧
    (run ackExec (pacedAt 715909 1) (farAcks ++ [.hold false])).map
      (fun s ↦ s.held.map (·.gap.toNat)) = some [3641311] ∧
    (16384 * 5727272 / 1000 : ℕ) = 93835624 :=
  ⟨pacedAt_setUp, by decide +kernel, by decide +kernel, by decide⟩

end AmiNetXDuo.Sana2
