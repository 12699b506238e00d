import AmiNetXDuo.Sana2.Gro

/-!
# How many frames a run may have

`GROFRAMES` bounds the frames that receive coalescing joins into one packet.  The limit is tested
when a frame has been chained behind the held run, so a run is at least two frames when it is
tested for the first time, and a run that is still held is below the limit.  The bound is an
invariant of the ring for every limit from two on; with `GROFRAMES=1` two frames are joined.

While `ACKPACE` is on the limit applies to the paced connection alone, and the others keep the full
run; the bound is stated for frames that `GROFRAMES` governs.

## Main definitions

* `IpPacket.frames` : the frames a delivered packet was made of.
* `RingEvent.Governed` : an event of a ring with this `GROFRAMES`, on a connection it applies to.

## Main results

* `Within.amiSana2RxStep` : one event keeps the held run below the limit and delivers no longer one.
* `amiSana2RxRun_frames_le` : no packet is of more than `GROFRAMES` frames.
* `amiSana2RxRun_joins_two` : with `GROFRAMES=1` two frames go up as one packet.
-/

namespace AmiNetXDuo.Sana2

open Net68k

/-! ### Frames of a packet -/

/-- The frames of a packet: every frame is one buffer of its chain. -/
def IpPacket.frames (d : IpPacket) : Nat := d.chain.length + 1

theorem chain_amiSana2RxDeliver {p : NxPacket} {sum : RxSum} {d : IpPacket}
    (h : amiSana2RxDeliver p sum = some d) : d.chain = p.chain := by
  simp only [amiSana2RxDeliver] at h
  split at h
  · cases h
  · split at h
    · cases h
    · cases h
      rfl
    · cases h
      rfl
    · split_ifs at h
      · cases h
        rfl
      · cases h
        rfl

theorem chain_rewriteLength (p : NxPacket) : (rewriteLength p).chain = p.chain := by
  simp only [rewriteLength]
  split_ifs <;> rfl

/-! ### The held run -/

/-- The held run has as many frames as it counts, fewer than `n`. -/
def Within (n : Nat) (held : Option HeldRun) : Prop :=
  ∀ run, held = some run → run.head.chain.length + 1 = run.count ∧ run.count < n

theorem within_none (n : Nat) : Within n none := fun _ h ↦ by cases h

theorem within_start {n : Nat} (hn : 2 ≤ n) (f : Frame) (sum : RxSum) (key : GroKey) :
    Within n (some (.start f sum key)) := by
  rintro run h
  obtain rfl := Option.some.inj h
  refine ⟨?_, hn⟩
  change f.packet.chain.length + 1 = 1
  rw [f.chain_eq]
  rfl

theorem frames_append {run : HeldRun} (h : run.head.chain.length + 1 = run.count) (f : Frame)
    (key : GroKey) :
    (run.append f key).head.chain.length + 1 = (run.append f key).count := by
  simp only [HeldRun.append, List.length_append, List.length_singleton, h]

/-- What a flush delivers has the frames of the run. -/
theorem frames_of_mem_flush {stop : Bool} {run : HeldRun} {d : IpPacket}
    (hd : d ∈ amiSana2GroFlush stop (some run)) : d.frames = run.head.chain.length + 1 := by
  have hhead : (if run.count > 1 then rewriteLength run.head else run.head).chain =
      run.head.chain := by
    split
    · exact chain_rewriteLength run.head
    · rfl
  simp only [amiSana2GroFlush] at hd
  by_cases hstop : stop = true
  · rw [if_pos hstop] at hd
    cases hd
  · rw [if_neg hstop] at hd
    rw [IpPacket.frames, chain_amiSana2RxDeliver (Option.mem_toList.mp hd), hhead]

theorem Within.flush {n : Nat} {held : Option HeldRun} (h : Within n held) {stop : Bool}
    {d : IpPacket} (hd : d ∈ amiSana2GroFlush stop held) : d.frames ≤ n := by
  cases held with
  | none => cases hd
  | some run =>
    obtain ⟨hframes, hlt⟩ := h run rfl
    rw [frames_of_mem_flush hd, hframes]
    exact hlt.le

/-! ### Events -/

/-- The frame of the event is one that `GROFRAMES`, which is `n`, applies to: `ACKPACE` is off or
paces its connection. -/
def RingEvent.Governed (iface : RxIface) (n : Nat) : RingEvent → Prop
  | .flush => True
  | .complete cfg slot =>
    cfg.groFrames = n ∧
      (cfg.ackTpkb = 0 ∨ ∀ f key, amiSana2RxSettle iface slot = some f →
        amiSana2GroKey f.packet = some key → key.ports = cfg.ackGroPorts)

theorem GroConfig.limit_eq_groFrames {cfg : GroConfig} {ports : ULong}
    (h : cfg.ackTpkb = 0 ∨ ports = cfg.ackGroPorts) : cfg.limit ports = cfg.groFrames :=
  if_pos h

/-- **One frame.** -/
theorem Within.amiSana2RxHandUp {n : Nat} (hn : 2 ≤ n) {held : Option HeldRun} (h : Within n held)
    {cfg : GroConfig} (hcfg : cfg.groFrames = n) (f : Frame)
    (hports : cfg.ackTpkb = 0 ∨
      ∀ key, amiSana2GroKey f.packet = some key → key.ports = cfg.ackGroPorts) :
    Within n (Sana2.amiSana2RxHandUp false cfg held f).1 ∧
      ∀ d ∈ (Sana2.amiSana2RxHandUp false cfg held f).2, d.frames ≤ n := by
  -- a frame that is not coalesced goes up alone, behind what was held
  have halone : ∀ d ∈ amiSana2GroFlush false held ++ (amiSana2RxDeliver f.packet f.sum).toList,
      d.frames ≤ n := by
    intro d hd
    rcases List.mem_append.mp hd with hd | hd
    · exact h.flush hd
    · rw [IpPacket.frames, chain_amiSana2RxDeliver (Option.mem_toList.mp hd), f.chain_eq]
      exact (by decide : 1 ≤ 2).trans hn
  unfold Sana2.amiSana2RxHandUp amiSana2GroTake
  rcases hkey : amiSana2GroKey f.packet with _ | key
  · exact ⟨within_none n, halone⟩
  dsimp only
  rcases amiSana2GroVerify f.packet f.sum key.version with _ | sum
  · exact ⟨within_none n, halone⟩
  dsimp only
  cases hfilter : held.filter (·.continues key) with
  | none => exact ⟨within_start hn f sum key, fun d hd ↦ h.flush hd⟩
  | some run =>
    obtain ⟨rfl, hcont⟩ := Option.filter_eq_some_iff.mp hfilter
    obtain ⟨hframes, hlt⟩ := h run rfl
    have happend := frames_append hframes f key
    have hlimit : cfg.limit (run.append f key).ports = n := by
      simp only [HeldRun.continues, Bool.and_eq_true, decide_eq_true_eq] at hcont
      obtain ⟨⟨⟨⟨⟨-, hsame⟩, -⟩, -⟩, -⟩, -⟩ := hcont
      rw [← hcfg]
      refine GroConfig.limit_eq_groFrames (hports.imp id fun hpaced ↦ ?_)
      exact hsame.trans (hpaced key hkey)
    dsimp only
    rw [hlimit]
    split_ifs with hfull
    · refine ⟨within_none n, fun d hd ↦ ?_⟩
      have hd : d ∈ amiSana2GroFlush false (some (run.append f key)) := hd
      rw [frames_of_mem_flush hd, happend]
      exact hlt
    · refine ⟨fun run' hrun' ↦ ?_, fun d hd ↦ by cases hd⟩
      obtain rfl := Option.some.inj hrun'
      exact ⟨happend, not_le.mp hfull⟩

/-- **One event.** -/
theorem Within.amiSana2RxStep {n : Nat} (hn : 2 ≤ n) {held : Option HeldRun} (h : Within n held)
    {iface : RxIface} {e : RingEvent} (he : e.Governed iface n) :
    Within n (Sana2.amiSana2RxStep iface held e).1 ∧
      ∀ d ∈ (Sana2.amiSana2RxStep iface held e).2, d.frames ≤ n := by
  cases e with
  | flush => exact ⟨within_none n, fun d hd ↦ h.flush hd⟩
  | complete cfg slot =>
    obtain ⟨hcfg, hports⟩ := he
    unfold Sana2.amiSana2RxStep
    dsimp only
    rcases hsettle : amiSana2RxSettle iface slot with _ | f
    · exact ⟨within_none n, fun d hd ↦ h.flush hd⟩
    · exact h.amiSana2RxHandUp hn hcfg f (hports.imp id fun hpaced key ↦ hpaced f key hsettle)

/-- **Whole runs**, from any run below the limit. -/
theorem Within.amiSana2RxRun {n : Nat} (hn : 2 ≤ n) {held : Option HeldRun} (h : Within n held)
    {iface : RxIface} {events : List RingEvent} (hev : ∀ e ∈ events, e.Governed iface n) :
    Within n (Sana2.amiSana2RxRun iface held events).1 ∧
      ∀ d ∈ (Sana2.amiSana2RxRun iface held events).2, d.frames ≤ n := by
  induction events generalizing held with
  | nil => exact ⟨h, fun d hd ↦ by cases hd⟩
  | cons e es ih =>
    obtain ⟨hheld, hout⟩ := h.amiSana2RxStep hn (hev e (List.mem_cons_self ..))
    obtain ⟨hheld', hout'⟩ := ih hheld fun e' he' ↦ hev e' (List.mem_cons_of_mem e he')
    refine ⟨hheld', fun d hd ↦ ?_⟩
    rcases List.mem_append.mp hd with hd | hd
    · exact hout d hd
    · exact hout' d hd

/-- **GROFRAMES bounds the runs.**  With a limit of two to sixteen frames, whatever completes on a
ring and wherever the drain flushes, no packet that the IP layer gets of the connections the limit
applies to is of more frames, and neither is the one that is still held. -/
theorem amiSana2RxRun_frames_le {n : Nat} (hn : 2 ≤ n) (iface : RxIface) (events : List RingEvent)
    (hev : ∀ e ∈ events, e.Governed iface n) :
    ∀ d ∈ (amiSana2RxRun iface none events).2 ++
        amiSana2GroFlush false (amiSana2RxRun iface none events).1, d.frames ≤ n := by
  obtain ⟨hheld, hout⟩ := (within_none n).amiSana2RxRun hn hev
  intro d hd
  rcases List.mem_append.mp hd with hd | hd
  · exact hout d hd
  · exact hheld.flush hd

/-! ### Two segments -/

/-- A frame of one connection that carries two bytes, which the device has verified. -/
def twoByteSegment (seq : UByte) : RxCompletion where
  prepend := 1
  nonnull := by decide
  mem i := ([0, 0, 0, 0, 0, 1, 0, 0, 0, 0, 0, 2, 0x08, 0x00,
    0x45, 0, 0, 42, 0, 0, 0, 0, 64, 6, 0, 0, 10, 0, 0, 1, 10, 0, 0, 2,
    0, 80, 0xc0, 0, 0, 0, 0, seq, 0, 0, 0, 1, 0x50, 0x10, 0x20, 0, 0, 0, 0, 0, 0x61, 0x62] :
      List UByte).getD i 0
  capacity := 1514
  copied := 56
  sum := 0
  summed := false
  verified := true
  hdrWritten := true
  dataLength := 56
  bcast := false
  dstAddr _ := 0
  srcAddr _ := 0
  packetType := 0x0800

/-- The limit, with `ACKPACE` off. -/
def plainLimit (groFrames : Nat) (hpos : 0 < groFrames) (hle : groFrames ≤ groMax) : GroConfig :=
  ⟨0, 0, groFrames, hpos, hle⟩

/-- Three segments of the connection, one after the other. -/
def threeSegments (cfg : GroConfig) : List RingEvent :=
  [.complete cfg (twoByteSegment 0), .complete cfg (twoByteSegment 2),
    .complete cfg (twoByteSegment 4)]

theorem amiSana2RxRun_frames_le_threeSegments :
    ((amiSana2RxRun ⟨true, 6⟩ none (threeSegments (plainLimit 2 (by decide) (by decide)))).2.map
      IpPacket.frames = [2]) ∧
    ∀ d ∈ (amiSana2RxRun ⟨true, 6⟩ none
      (threeSegments (plainLimit 2 (by decide) (by decide)))).2, d.frames ≤ 2 := by
  refine ⟨by decide +kernel, fun d hd ↦ ?_⟩
  refine amiSana2RxRun_frames_le (n := 2) le_rfl ⟨true, 6⟩ _ ?_ d (List.mem_append_left _ hd)
  intro e he
  simp only [threeSegments, List.mem_cons, List.not_mem_nil, or_false] at he
  rcases he with rfl | rfl | rfl <;> exact ⟨rfl, .inl rfl⟩

/-- **With GROFRAMES=1 two frames are joined.** -/
theorem amiSana2RxRun_joins_two :
    (amiSana2RxRun ⟨true, 6⟩ none (threeSegments (plainLimit 1 (by decide) (by decide)))).2.map
      IpPacket.frames = [2] := by
  decide +kernel

end AmiNetXDuo.Sana2
