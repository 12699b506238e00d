import AmiNetXDuo.Lib.WrapCounter
import AmiNetXDuo.Netdev.GenetRing

/-!
# The receive ring over whole runs

The three counters of the ring stand for counts that only grow: what the chip has completed, what
has had its cache operation, and what the driver has consumed. They stay within a ring of each
other, so their differences are right however often they wrap.

The clock that lets the head of the ring go runs on every blank that finds frames left behind, also
by a pass that was cut short. A frame that no pass has held can then be let go.

## Main definitions

* `GenetInv` : the counts behind the counters, and what they say about the buffers.
* `GenetHolds` : what was let go and what was counted.
* `GenetDrops` : the frames held, and what the clock ran out for.

## Main results

* `rxCleanFresh_current` : the cache operations of a pass reach every new buffer, also around the
  end of the ring.
* `GenetInv.step`, `GenetDrops.step` : one event.
* `genet_runs` : every state of a run.
* `genet_letGo_unheld` : a frame let go that no pass has held.
-/

namespace AmiNetXDuo.Netdev

open AmiNetXDuo.Interleaving AmiNetXDuo.Lib

/-! ### Counters -/

theorem genetRingSlot_ofNat (n : ℕ) :
    (genetRingSlot (UInt16.ofNat n) 128).toNat = n % geRxRing := by
  have hmask : (128 : UInt16) - 1 = UInt16.ofNat (2 ^ 7 - 1) := by decide
  rw [genetRingSlot, hmask, WrapCounter.toNat_ofNat_and n (by decide)]
  rfl

theorem genetRingRoom_ofNat (n : ℕ) :
    (genetRingRoom (UInt16.ofNat n) 128).toNat = geRxRing - n % geRxRing := by
  have hlt : n % geRxRing < geRxRing := Nat.mod_lt n (by decide)
  have hle : genetRingSlot (UInt16.ofNat n) 128 ≤ 128 := by
    rw [UInt16.le_iff_toNat_le, genetRingSlot_ofNat]
    exact Nat.le_of_lt hlt
  rw [genetRingRoom, UInt16.toNat_sub_of_le _ _ hle, genetRingSlot_ofNat]
  rfl

/-- The frames that are new: those after the last cache operation. -/
theorem genetRingFresh_ofNat {m k q : ℕ} {total : UInt16} (hmk : m ≤ k) (hkq : k ≤ q)
    (hring : q - m ≤ geRxRing) (htotal : total.toNat = q - m) :
    (genetRingFresh total (UInt16.ofNat m) (UInt16.ofNat k)).toNat = q - k := by
  have hdone : (UInt16.ofNat k - UInt16.ofNat m).toNat = k - m :=
    WrapCounter.toNat_ofNat_sub hmk (by rw [geRxRing] at hring; omega)
  have hle : ¬ UInt16.ofNat k - UInt16.ofNat m > total := by
    rw [gt_iff_lt, UInt16.lt_iff_toNat_lt, hdone, htotal]
    omega
  rw [genetRingFresh, if_neg hle, UInt16.toNat_sub_of_le _ _ (UInt16.not_lt.mp hle), hdone, htotal]
  omega

/-! ### Cache operations -/

section Cache

variable {g : GenetRx} {addr len b : ℕ}

theorem geCache_current (hle : addr ≤ b) (hlt : b < addr + len) :
    (geCache g addr len).current b = true := by
  have hpages : genetPageFirst addr ≤ b ∧
      b < genetPageFirst addr + genetPageCount addr len * genetPage := by
    simp only [genetPageFirst, genetPageCount, genetPage]
    omega
  by_cases hpage : g.pageops = true
  · simp only [geCache, if_pos hpage, if_pos hpages]
  · simp only [geCache, if_neg hpage, if_pos (And.intro hle hlt)]

/-- A cache operation takes nothing back. -/
theorem geCache_keeps (h : g.current b = true) : (geCache g addr len).current b = true := by
  simp only [geCache]
  split_ifs
  all_goals first | rfl | exact h

end Cache

section Fresh

variable {g : GenetRx} {fresh : UInt16}

theorem rxCleanFresh_keeps {b : ℕ} (h : g.current b = true) :
    (rxCleanFresh g fresh).current b = true := by
  simp only [rxCleanFresh]
  split_ifs
  · exact h
  · exact geCache_keeps h
  · exact geCache_keeps (geCache_keeps h)

theorem rxCleanFresh_eq (g : GenetRx) (fresh : UInt16) :
    rxCleanFresh g fresh = { g with current := (rxCleanFresh g fresh).current } := by
  simp only [rxCleanFresh]
  split_ifs
  all_goals rfl

/-- **The cache operations of a pass** reach every byte of every new buffer, in one range or in
two. -/
theorem rxCleanFresh_current {k j i : ℕ} (hclean : g.rxClean = UInt16.ofNat k) (hkj : k ≤ j)
    (hjf : j < k + fresh.toNat) (hfresh : fresh.toNat ≤ geRxRing) (hi : i < geBufsz) :
    (rxCleanFresh g fresh).current (j % geRxRing * geBufsz + i) = true := by
  have hslot := genetRingSlot_ofNat k
  have hroom := genetRingRoom_ofNat k
  simp only [rxCleanFresh, hclean]
  simp only [geRxRing, geBufsz] at *
  split_ifs with hzero hfits
  · rw [hzero] at hjf
    exact absurd hjf (Nat.not_lt.mpr (by simpa using hkj))
  · -- the new buffers end before the end of the ring
    have hle := UInt16.le_iff_toNat_le.mp hfits
    refine geCache_current ?_ ?_
    · rw [hslot]
      omega
    · rw [hslot]
      omega
  · -- the new buffers go around the end of the ring
    have hlt := UInt16.lt_iff_toNat_lt.mp (UInt16.not_le.mp hfits)
    have hrest : (fresh - genetRingRoom (UInt16.ofNat k) 128).toNat =
        fresh.toNat - (genetRingRoom (UInt16.ofNat k) 128).toNat :=
      UInt16.toNat_sub_of_le _ _ (UInt16.le_iff_toNat_le.mpr (Nat.le_of_lt hlt))
    by_cases hwrap : j - k < (genetRingRoom (UInt16.ofNat k) 128).toNat
    · refine geCache_keeps (geCache_current ?_ ?_)
      · rw [hslot]
        omega
      · rw [hslot]
        omega
    · refine geCache_current (Nat.zero_le _) ?_
      rw [hrest]
      omega

end Fresh

/-! ### The counts behind the counters -/

/-- What a pass knows, with `k` the count up to which buffers have had their cache operation. -/
def PassInv (k : ℕ) (g : GenetRx) : GenetPass → Prop
  | .idle => g.rxBehind = false → g.consumed.length = k
  | .started pidx total => ∃ q, k ≤ q ∧ q ≤ g.completed ∧ pidx = UInt16.ofNat q ∧
      total.toNat = q - g.consumed.length
  | .walking total n => n.toNat ≤ total.toNat ∧ g.rxBehind = false ∧
      k = g.consumed.length + (total.toNat - n.toNat)
  | .ending => g.rxBehind = false → g.consumed.length = k

/-- A pass knows as much after a step that consumes nothing. -/
theorem PassInv.mono {k : ℕ} {g g' : GenetRx} {pass : GenetPass} (h : PassInv k g pass)
    (hbehind : g'.rxBehind = g.rxBehind) (hconsumed : g'.consumed = g.consumed)
    (hcompleted : g.completed ≤ g'.completed) : PassInv k g' pass := by
  cases pass with
  | started pidx total =>
    obtain ⟨q, hq, hq', hpidx, htotal⟩ := h
    exact ⟨q, hq, Nat.le_trans hq' hcompleted, hpidx, by rw [htotal, hconsumed]⟩
  | _ =>
    unfold PassInv at h ⊢
    rw [hbehind, hconsumed]
    exact h

/-- The invariant of the ring, with `k` the count up to which buffers have had their cache
operation. -/
structure GenetInv (k : ℕ) (g : GenetRx) : Prop where
  back_le : g.handedBack ≤ g.consumed.length
  clean_ge : g.consumed.length ≤ k
  clean_le : k ≤ g.completed
  ahead : g.completed ≤ g.handedBack + geRxRing
  prod : g.prodIndex = UInt16.ofNat g.completed
  cons : g.consIndex = UInt16.ofNat g.handedBack
  cidx : g.rxCidx = UInt16.ofNat g.consumed.length
  clean : g.rxClean = UInt16.ofNat k
  pass : PassInv k g g.pass
  order : g.consumed.map RxConsumed.seq = List.range g.consumed.length
  intact : ∀ j, g.handedBack ≤ j → j < g.completed → (g.buf (j % geRxRing)).seq = j
  cached : ∀ j, g.consumed.length ≤ j → j < k →
    ∀ i < geBufsz, g.current (j % geRxRing * geBufsz + i) = true
  coherent : ∀ r ∈ g.reads, r.coherent = true

section Steps

variable {k : ℕ} {g : GenetRx}

/-- Two buffers less than a ring apart have different slots. -/
theorem slot_ne {j p : ℕ} (hlt : j < p) (hnear : p < j + geRxRing) :
    j % geRxRing ≠ p % geRxRing := by
  rw [geRxRing] at *
  omega

theorem slot_of_byte {s i : ℕ} (hi : i < geBufsz) : (s * geBufsz + i) / geBufsz = s := by
  rw [geBufsz] at *
  omega

theorem GenetInv.prodSlot (h : GenetInv k g) :
    (genetRingSlot g.prodIndex 128).toNat = g.completed % geRxRing := by
  rw [h.prod, genetRingSlot_ofNat]

/-- A chip that may go on has not filled all buffers it was handed back. -/
theorem GenetInv.completed_lt (h : GenetInv k g)
    (hroom : (g.prodIndex - g.consIndex).toNat < geRxRing) :
    g.completed < g.handedBack + geRxRing := by
  have hback := h.back_le
  have hge := h.clean_ge
  have hle := h.clean_le
  have hahead := h.ahead
  rw [h.prod, h.cons, WrapCounter.toNat_ofNat_sub (by omega)
    (by rw [geRxRing] at hahead; omega)] at hroom
  omega

/-- **The chip completes a buffer** that was handed back, so none that is still waiting. -/
theorem GenetInv.complete (h : GenetInv k g) {status : UInt32} {first : UInt8} {g' : GenetRx}
    (hstep : chipComplete g status first = some g') : GenetInv k g' := by
  have hback := h.back_le
  have hge := h.clean_ge
  have hle := h.clean_le
  rw [chipComplete] at hstep
  split_ifs at hstep with hroom
  obtain rfl := Option.some.inj hstep
  have hfree := h.completed_lt hroom
  have hslot := h.prodSlot
  refine ⟨hback, hge, Nat.le_succ_of_le hle, hfree, ?_, h.cons, h.cidx, h.clean, ?_, h.order,
    fun j hj hlt ↦ ?_, fun j hj hlt i hi ↦ ?_, h.coherent⟩
  · change g.prodIndex + 1 = UInt16.ofNat (g.completed + 1)
    rw [h.prod, WrapCounter.ofNat_succ]
  · exact h.pass.mono rfl rfl (Nat.le_succ _)
  · change g.handedBack ≤ j at hj
    change (Function.update g.buf _ _ (j % geRxRing)).seq = j
    rw [hslot]
    rcases Nat.lt_succ_iff_lt_or_eq.mp hlt with hlt | rfl
    · rw [Function.update_of_ne (slot_ne hlt (by omega))]
      exact h.intact j hj hlt
    · rw [Function.update_self]
  · change g.consumed.length ≤ j at hj
    change (if _ / geBufsz = _ then false else g.current _) = true
    have hne : j % geRxRing ≠ g.completed % geRxRing := slot_ne (by omega) (by omega)
    rw [hslot, slot_of_byte hi, if_neg hne]
    exact h.cached j hj hlt i hi

/-- A pass begins with what the producer index shows. -/
theorem GenetInv.begin (h : GenetInv k g) : GenetInv k (rxBegin g) := by
  have hback := h.back_le
  have hge := h.clean_ge
  have hle := h.clean_le
  have hahead := h.ahead
  have htotal : (g.prodIndex - g.rxCidx).toNat = g.completed - g.consumed.length := by
    rw [h.prod, h.cidx]
    exact WrapCounter.toNat_ofNat_sub (by omega) (by rw [geRxRing] at hahead; omega)
  have hring : ¬ g.prodIndex - g.rxCidx > 128 := by
    rw [gt_iff_lt, UInt16.lt_iff_toNat_lt, htotal]
    change ¬ 128 < _
    rw [geRxRing] at hahead
    omega
  rw [rxBegin]
  simp only [if_neg hring]
  split_ifs
  · exact { h with }
  · exact { h with pass := ⟨g.completed, hle, Nat.le_refl _, h.prod, htotal⟩ }

/-- The cache operations bring the clean count up to what the pass saw. -/
theorem GenetInv.prepare (h : GenetInv k g) {pidx total : UInt16}
    (hpass : g.pass = .started pidx total) : ∃ k', GenetInv k' (rxPrepare g pidx total) := by
  have hback := h.back_le
  have hge := h.clean_ge
  have hahead := h.ahead
  have hstarted := h.pass
  rw [hpass] at hstarted
  obtain ⟨q, hkq, hq, hpidx, htotal⟩ := hstarted
  have hfresh : (genetRingFresh total g.rxCidx g.rxClean).toNat = q - k := by
    rw [h.cidx, h.clean]
    exact genetRingFresh_ofNat hge hkq (by omega) htotal
  rw [rxPrepare, rxCleanFresh_eq]
  refine ⟨q, hback, Nat.le_trans hge hkq, hq, hahead, h.prod, h.cons, h.cidx, hpidx,
    ⟨Nat.zero_le _, rfl, ?_⟩, h.order, h.intact, fun j hj hlt i hi ↦ ?_, h.coherent⟩
  · change q = g.consumed.length + (total.toNat - 0)
    omega
  · -- a buffer had its operation in an earlier pass, or has it now
    by_cases hold : j < k
    · exact rxCleanFresh_keeps (h.cached j hj hold i hi)
    · exact rxCleanFresh_current h.clean (Nat.not_lt.mp hold) (by omega) (by omega) hi

/-- The buffer a pass looks at is the next one the chip completed. -/
theorem GenetInv.rxSlot (h : GenetInv k g) : rxSlot g = g.consumed.length % geRxRing := by
  rw [Netdev.rxSlot, h.cidx, genetRingSlot_ofNat]

theorem GenetInv.seq_rxSlot (h : GenetInv k g) (hlt : g.consumed.length < k) :
    (g.buf (Netdev.rxSlot g)).seq = g.consumed.length := by
  rw [h.rxSlot]
  exact h.intact _ h.back_le (Nat.lt_of_lt_of_le hlt h.clean_le)

theorem rangeCurrent_eq_true {current : ℕ → Bool} {addr len : ℕ}
    (h : ∀ i < len, current (addr + i) = true) : rangeCurrent current addr len = true := by
  rw [rangeCurrent, List.all_eq_true]
  exact fun i hi ↦ h i (List.mem_range.mp hi)

/-- **Looking into a buffer** finds only bytes that have had their cache operation. -/
theorem GenetInv.look (h : GenetInv k g) (hlt : g.consumed.length < k) : GenetInv k (rxLook g) := by
  refine { h with pass := h.pass.mono rfl rfl (Nat.le_refl _), coherent := fun r hr ↦ ?_ }
  rcases List.mem_cons.mp hr with rfl | hr
  · refine rangeCurrent_eq_true fun i hi ↦ ?_
    rw [h.rxSlot]
    exact h.cached _ (Nat.le_refl _) hlt i hi
  · exact h.coherent r hr

/-- A buffer is consumed, the next in order. -/
theorem GenetInv.consume (h : GenetInv k g) {total n : UInt16} {b : RxBuffer} {outcome : RxOutcome}
    (hpass : g.pass = .walking total n) (hn : n.toNat < total.toNat)
    (hseq : b.seq = g.consumed.length) : GenetInv k (rxConsume g total n b outcome) := by
  have hwalking := h.pass
  rw [hpass] at hwalking
  obtain ⟨-, hbehind, hk⟩ := hwalking
  have hlength : (rxConsume g total n b outcome).consumed.length = g.consumed.length + 1 :=
    List.length_append
  have hnext : (n + 1).toNat = n.toNat + 1 := by
    have hlt := total.toNat_lt
    rw [UInt16.toNat_add]
    exact Nat.mod_eq_of_lt (by change n.toNat + 1 < 2 ^ 16; omega)
  refine ⟨?_, ?_, h.clean_le, h.ahead, h.prod, h.cons, ?_, h.clean, ?_, ?_, h.intact,
    fun j hj hlt ↦ h.cached j ?_ hlt, h.coherent⟩
  · rw [hlength]
    exact Nat.le_succ_of_le h.back_le
  · omega
  · rw [hlength, WrapCounter.ofNat_succ, ← h.cidx]
    rfl
  · exact ⟨by omega, hbehind, by omega⟩
  · rw [hlength, List.range_succ, ← h.order, ← hseq]
    exact List.map_append
  · omega

/-- A pass stops, and says so when it leaves frames behind. -/
theorem GenetInv.stop (h : GenetInv k g) {behind held : Bool} {seqs : List ℕ}
    (hleft : behind = false → g.consumed.length = k) :
    GenetInv k { g with
      rxBehind := behind
      rxHeld := held
      pass := .ending
      heldSeqs := seqs } :=
  { h with pass := hleft }

/-- The statistics and the blanks do not matter to the ring. -/
theorem GenetInv.counted (h : GenetInv k g) (errors packets held blanks : ℕ) (drop ranOut : Bool) :
    GenetInv k { g with
      rxErrors := errors
      rxPackets := packets
      heldBlanks := held
      behindBlanks := blanks
      dropHeld := drop
      ranOutHeld := ranOut } :=
  { h with pass := h.pass.mono rfl rfl (Nat.le_refl _) }

/-- What becomes of a buffer that was looked into. -/
theorem GenetInv.consider (h : GenetInv k g) {total n : UInt16} {b : RxBuffer} {reply : ClaimReply}
    (hpass : g.pass = .walking total n) (hn : n.toNat < total.toNat)
    (hseq : b.seq = g.consumed.length) : GenetInv k (geConsider g total n b reply) := by
  rw [geConsider]
  split_ifs
  · exact (h.counted _ g.rxPackets g.heldBlanks g.behindBlanks g.dropHeld g.ranOutHeld).consume
      hpass hn hseq
  · split
    · exact h.stop Bool.noConfusion
    · exact (h.counted g.rxErrors _ g.heldBlanks g.behindBlanks _ g.ranOutHeld).consume
        hpass hn hseq

/-- **One turn of the loop.** -/
theorem GenetInv.frame (h : GenetInv k g) {total n : UInt16} {reply : ClaimReply}
    (hpass : g.pass = .walking total n) : GenetInv k (geFrame g total n reply) := by
  have hwalking := h.pass
  rw [hpass] at hwalking
  obtain ⟨hn, hbehind, hk⟩ := hwalking
  rw [geFrame]
  split_ifs with hdone hcut
  · have hle := UInt16.le_iff_toNat_le.mp hdone
    exact h.stop fun _ ↦ by omega
  · exact h.stop Bool.noConfusion
  · have hlt := UInt16.lt_iff_toNat_lt.mp (UInt16.not_le.mp hdone)
    have hwaiting : g.consumed.length < k := by omega
    exact (h.look hwaiting).consider hpass hlt (h.seq_rxSlot hwaiting)

/-- The consumer index goes back to the chip after the frames before it were consumed. -/
theorem GenetInv.finish (h : GenetInv k g) (hpass : g.pass = .ending) : GenetInv k (rxEnd g) := by
  have hback := h.back_le
  have hge := h.clean_ge
  have hle := h.clean_le
  have hahead := h.ahead
  have hending := h.pass
  rw [hpass] at hending
  have hstep : (g.rxCidx - g.consIndex).toNat = g.consumed.length - g.handedBack := by
    rw [h.cidx, h.cons]
    exact WrapCounter.toNat_ofNat_sub hback (by rw [geRxRing] at hahead; omega)
  have hnew : (rxEnd g).handedBack = g.consumed.length := by
    change g.handedBack + (g.rxCidx - g.consIndex).toNat = _
    omega
  refine ⟨?_, hge, hle, ?_, h.prod, ?_, h.cidx, h.clean, hending, h.order, fun j hj hlt ↦ ?_,
    h.cached, h.coherent⟩
  · rw [hnew]
    exact Nat.le_refl _
  · rw [hnew]
    change g.completed ≤ _
    omega
  · rw [hnew]
    exact h.cidx
  · rw [hnew] at hj
    exact h.intact j (Nat.le_trans hback hj) hlt

theorem GenetInv.tick (h : GenetInv k g) : GenetInv k (genetTick g) := by
  rw [genetTick]
  split_ifs
  · exact (h.counted g.rxErrors g.rxPackets _ _ _ _).begin
  · exact h.counted g.rxErrors g.rxPackets _ g.behindBlanks g.dropHeld g.ranOutHeld

/-- **One event** keeps the counts in order. -/
theorem GenetInv.step (h : GenetInv k g) {e : GenetEvent} {g' : GenetRx}
    (hstep : genetStep g e = some g') : ∃ k', GenetInv k' g' := by
  cases genetStep_moves hstep with
  | complete hcomplete => exact ⟨k, h.complete hcomplete⟩
  | rxintr => exact ⟨k, h.begin⟩
  | blank => exact ⟨k, h.tick⟩
  | prepare hpass => exact h.prepare hpass
  | frame hpass => exact ⟨k, h.frame hpass⟩
  | finish hpass => exact ⟨k, h.finish hpass⟩

theorem GenetInv.of_initial (h : g.Initial) : GenetInv 0 g := by
  obtain ⟨hprod, hcons, hcidx, hclean, -, hpass, hcompleted, hback, hconsumed, hreads, -⟩ := h
  have hlength : g.consumed.length = 0 := by
    rw [hconsumed]
    rfl
  refine ⟨by omega, by omega, by omega, by omega, ?_, ?_, ?_, hclean, ?_, ?_, fun j _ hj ↦ ?_,
    fun j _ hj ↦ ?_, fun r hr ↦ ?_⟩
  · rw [hprod, hcompleted]
    rfl
  · rw [hcons, hback]
    rfl
  · rw [hcidx, hlength]
    rfl
  · rw [hpass]
    exact fun _ ↦ hlength
  · rw [hconsumed]
    rfl
  · omega
  · omega
  · rw [hreads] at hr
    exact absurd hr List.not_mem_nil

/-! ### Holds and errors -/

/-- How many consumed buffers had an outcome. -/
def outcomeCount (g : GenetRx) (outcome : RxOutcome) : ℕ :=
  g.consumed.countP fun c ↦ c.outcome = outcome

/-- The invariant of what was let go and what was counted: the clock on the head of the ring runs
through `GE_HOLD_BLANKS` blanks for each frame that is let go. -/
structure GenetHolds (g : GenetRx) : Prop where
  blanks : geHoldBlanks * (outcomeCount g .letGo + g.dropHeld.toNat) + g.heldBlanks ≤
    g.behindBlanks
  errors : g.rxErrors = outcomeCount g .error

/-- A step that neither consumes nor touches the clock. -/
theorem GenetHolds.frame (h : GenetHolds g) {g' : GenetRx} (hconsumed : g'.consumed = g.consumed)
    (hdrop : g'.dropHeld = g.dropHeld) (hheld : g'.heldBlanks = g.heldBlanks)
    (hblanks : g'.behindBlanks = g.behindBlanks) (herrors : g'.rxErrors = g.rxErrors) :
    GenetHolds g' := by
  have hcount : ∀ outcome, outcomeCount g' outcome = outcomeCount g outcome := by
    intro outcome
    rw [outcomeCount, outcomeCount, hconsumed]
  refine ⟨?_, ?_⟩
  · rw [hcount, hdrop, hheld, hblanks]
    exact h.blanks
  · rw [hcount, herrors]
    exact h.errors

theorem outcomeCount_rxConsume (g : GenetRx) (total n : UInt16) (b : RxBuffer)
    (outcome o : RxOutcome) :
    outcomeCount (rxConsume g total n b outcome) o =
      outcomeCount g o + if outcome = o then 1 else 0 := by
  rw [outcomeCount, outcomeCount]
  change (g.consumed ++ [(⟨b.seq, outcome⟩ : RxConsumed)]).countP _ = _
  rw [List.countP_append, List.countP_singleton]
  simp only [decide_eq_true_eq]

/-- A frame is let go when the clock has run out, which starts over then. -/
theorem geDeliver_eq_some {dropHeld : Bool} {first : UInt8} {reply : ClaimReply}
    {outcome : RxOutcome} (h : geDeliver dropHeld first reply = some outcome) :
    outcome ≠ .error ∧ (outcome = .letGo → dropHeld = true) := by
  cases reply with
  | slot =>
    obtain rfl := Option.some.inj h
    exact ⟨RxOutcome.noConfusion, RxOutcome.noConfusion⟩
  | none =>
    obtain rfl := Option.some.inj h
    exact ⟨RxOutcome.noConfusion, RxOutcome.noConfusion⟩
  | behind =>
    rw [geDeliver] at h
    split_ifs at h with hunicast hdrop
    · obtain rfl := Option.some.inj h
      exact ⟨RxOutcome.noConfusion, fun _ ↦ hdrop⟩
    · obtain rfl := Option.some.inj h
      exact ⟨RxOutcome.noConfusion, RxOutcome.noConfusion⟩

theorem GenetHolds.consider (h : GenetHolds g) (total n : UInt16) (b : RxBuffer)
    (reply : ClaimReply) : GenetHolds (geConsider g total n b reply) := by
  have hblanks := h.blanks
  have herrors := h.errors
  rw [geConsider]
  split_ifs
  · refine ⟨?_, ?_⟩
    · rw [outcomeCount_rxConsume, if_neg RxOutcome.noConfusion]
      exact hblanks
    · rw [outcomeCount_rxConsume, if_pos rfl]
      exact congrArg (· + 1) herrors
  · split
    · exact h.frame rfl rfl rfl rfl rfl
    · next outcome hdeliver =>
      obtain ⟨hne, hletGo⟩ := geDeliver_eq_some hdeliver
      refine ⟨?_, ?_⟩
      · rw [outcomeCount_rxConsume]
        change geHoldBlanks * (outcomeCount g .letGo + _ + 0) + g.heldBlanks ≤ g.behindBlanks
        split_ifs with hgo
        · rw [hletGo hgo] at hblanks
          exact hblanks
        · rw [geHoldBlanks] at *
          omega
      · rw [outcomeCount_rxConsume, if_neg hne]
        exact herrors

theorem rxBegin_frame (g : GenetRx) :
    (rxBegin g).consumed = g.consumed ∧ (rxBegin g).dropHeld = g.dropHeld ∧
      (rxBegin g).heldBlanks = g.heldBlanks ∧ (rxBegin g).behindBlanks = g.behindBlanks ∧
      (rxBegin g).rxErrors = g.rxErrors := by
  rw [rxBegin]
  split_ifs
  all_goals exact ⟨rfl, rfl, rfl, rfl, rfl⟩

theorem GenetHolds.begin (h : GenetHolds g) : GenetHolds (rxBegin g) := by
  obtain ⟨hconsumed, hdrop, hheld, hblanks, herrors⟩ := rxBegin_frame g
  exact h.frame hconsumed hdrop hheld hblanks herrors

theorem GenetHolds.tick (h : GenetHolds g) : GenetHolds (genetTick g) := by
  have hblanks := h.blanks
  rw [genetTick]
  split_ifs with hbehind
  · refine GenetHolds.begin ⟨?_, h.errors⟩
    change geHoldBlanks * (outcomeCount g .letGo +
      (if g.heldBlanks + 1 ≥ geHoldBlanks then true else g.dropHeld).toNat) +
      (if g.heldBlanks + 1 ≥ geHoldBlanks then 0 else g.heldBlanks + 1) ≤ g.behindBlanks + 1
    split_ifs with hout
    · change geHoldBlanks * (outcomeCount g .letGo + 1) + 0 ≤ g.behindBlanks + 1
      rw [geHoldBlanks] at *
      omega
    · omega
  · refine ⟨?_, h.errors⟩
    change geHoldBlanks * (outcomeCount g .letGo + g.dropHeld.toNat) + 0 ≤ g.behindBlanks
    omega

theorem GenetHolds.step (h : GenetHolds g) {e : GenetEvent} {g' : GenetRx}
    (hstep : genetStep g e = some g') : GenetHolds g' := by
  cases genetStep_moves hstep with
  | complete hcomplete =>
    rw [chipComplete] at hcomplete
    split_ifs at hcomplete
    obtain rfl := Option.some.inj hcomplete
    exact h.frame rfl rfl rfl rfl rfl
  | rxintr => exact h.begin
  | blank => exact h.tick
  | prepare =>
    rw [rxPrepare, rxCleanFresh_eq]
    exact h.frame rfl rfl rfl rfl rfl
  | frame =>
    rw [geFrame]
    split_ifs
    · exact h.frame rfl rfl rfl rfl rfl
    · exact h.frame rfl rfl rfl rfl rfl
    · have hlook : GenetHolds (rxLook g) := h.frame rfl rfl rfl rfl rfl
      exact hlook.consider _ _ _ _
  | finish => exact h.frame rfl rfl rfl rfl rfl

theorem GenetHolds.of_initial (h : g.Initial) : GenetHolds g := by
  obtain ⟨-, -, -, -, -, -, -, -, hconsumed, -, hdrop, hheld, herrors, -, -⟩ := h
  have hcount : ∀ outcome, outcomeCount g outcome = 0 := by
    intro outcome
    rw [outcomeCount, hconsumed]
    rfl
  refine ⟨?_, ?_⟩
  · rw [hcount, hdrop, hheld]
    exact Nat.zero_le _
  · rw [hcount, herrors]

/-! ### Frames that are let go -/

/-- What is known of the head of the ring in a pass. A pass looks first at the frame that was held
there. -/
def DropPass (g : GenetRx) : GenetPass → Prop
  | .idle => g.rxHeld = true ↔ g.consumed.length ∈ g.heldSeqs
  | .started _ total => total ≠ 0
  | .walking total n => g.rxHeld = false ∧ (g.consumed.length ∈ g.heldSeqs → n = 0 ∧ total ≠ 0)
  | .ending => g.rxHeld = true ↔ g.consumed.length ∈ g.heldSeqs

/-- The invariant of what the clock runs out for: the flag it leaves is for a frame that was held
if and only if the blank found one held. -/
structure GenetDrops (g : GenetRx) : Prop where
  le : ∀ s ∈ g.heldSeqs, s ≤ g.consumed.length ∧ s < g.completed
  good : g.consumed.length ∈ g.heldSeqs → statusBad (g.buf (rxSlot g)).status = false
  cause : g.dropHeld = true → (g.ranOutHeld = true ↔ g.consumed.length ∈ g.heldSeqs)
  pass : DropPass g g.pass

/-- Frames that wait are seen by the next pass. -/
theorem GenetInv.total_ne_zero (hinv : GenetInv k g) (hlt : g.consumed.length < g.completed) :
    g.prodIndex - g.rxCidx ≠ 0 := by
  have hahead := hinv.ahead
  have hback := hinv.back_le
  rw [geRxRing] at hahead
  rw [hinv.prod, hinv.cidx]
  intro hzero
  have hnat := congrArg UInt16.toNat hzero
  rw [UInt16.toNat_sub, UInt16.toNat_ofNat', UInt16.toNat_ofNat'] at hnat
  change _ = 0 at hnat
  omega

theorem geDeliver_eq_none {dropHeld : Bool} {first : UInt8} {reply : ClaimReply}
    (h : geDeliver dropHeld first reply = none) : dropHeld = false := by
  cases reply with
  | slot => cases h
  | none => cases h
  | behind =>
    rw [geDeliver] at h
    split_ifs at h with hunicast hdrop
    simpa using hdrop

/-- A buffer completes behind those that wait. -/
theorem GenetDrops.complete (h : GenetDrops g) (hinv : GenetInv k g) {status : UInt32}
    {first : UInt8} {g' : GenetRx} (hstep : chipComplete g status first = some g') :
    GenetDrops g' := by
  rw [chipComplete] at hstep
  split_ifs at hstep with hroom
  obtain rfl := Option.some.inj hstep
  refine ⟨fun s hs ↦ ⟨(h.le s hs).1, Nat.lt_succ_of_lt (h.le s hs).2⟩, fun hheld ↦ ?_, h.cause, ?_⟩
  · have hlt : g.consumed.length < g.completed := (h.le _ hheld).2
    have hfree := hinv.completed_lt hroom
    have hback := hinv.back_le
    change statusBad (Function.update g.buf _ _ (rxSlot g)).status = false
    rw [hinv.prodSlot, hinv.rxSlot, Function.update_of_ne (slot_ne hlt (by omega)), ← hinv.rxSlot]
    exact h.good hheld
  · have hpass := h.pass
    change DropPass _ g.pass
    cases hp : g.pass with
    | _ =>
      rw [hp] at hpass
      exact hpass

theorem GenetDrops.begin (h : GenetDrops g) (hinv : GenetInv k g) (hidle : g.pass = .idle) :
    GenetDrops (rxBegin g) := by
  have hpass := h.pass
  rw [hidle] at hpass
  rw [rxBegin]
  by_cases hnone : g.prodIndex - g.rxCidx = 0
  · simp only [if_pos hnone]
    refine ⟨h.le, h.good, h.cause, ?_⟩
    change DropPass _ g.pass
    rw [hidle]
    refine iff_of_false Bool.false_ne_true fun hheld ↦ ?_
    exact hinv.total_ne_zero (h.le _ hheld).2 hnone
  · simp only [if_neg hnone]
    refine ⟨h.le, h.good, h.cause, ?_⟩
    change (if g.prodIndex - g.rxCidx > 128 then 128 else g.prodIndex - g.rxCidx) ≠ 0
    split_ifs
    · decide
    · exact hnone

theorem GenetDrops.prepare (h : GenetDrops g) {pidx total : UInt16}
    (hpass : g.pass = .started pidx total) : GenetDrops (rxPrepare g pidx total) := by
  have hstarted := h.pass
  rw [hpass] at hstarted
  rw [rxPrepare, rxCleanFresh_eq]
  exact ⟨h.le, h.good, h.cause, rfl, fun _ ↦ ⟨rfl, hstarted⟩⟩

/-- The statistics do not matter to the flag, which may be taken down. -/
theorem GenetDrops.counted (h : GenetDrops g) (errors packets : ℕ) {drop : Bool}
    (hdrop : drop = true → g.dropHeld = true) :
    GenetDrops { g with rxErrors := errors, rxPackets := packets, dropHeld := drop } := by
  refine ⟨h.le, h.good, fun hdrop' ↦ h.cause (hdrop hdrop'), ?_⟩
  have hpass := h.pass
  change DropPass _ g.pass
  cases hp : g.pass with
  | _ =>
    rw [hp] at hpass
    exact hpass

/-- A frame is consumed; the flag stays only where it was not for this frame. -/
theorem GenetDrops.consume (h : GenetDrops g) {total n : UInt16} {b : RxBuffer}
    {outcome : RxOutcome} (hrest : g.rxHeld = false)
    (hflag : g.dropHeld = true → g.consumed.length ∉ g.heldSeqs) :
    GenetDrops (rxConsume g total n b outcome) := by
  have hlength : (rxConsume g total n b outcome).consumed.length = g.consumed.length + 1 :=
    List.length_append
  have hnext : (rxConsume g total n b outcome).consumed.length ∉ g.heldSeqs := by
    intro hheld
    have hle := (h.le _ hheld).1
    omega
  refine ⟨fun s hs ↦ ⟨?_, (h.le s hs).2⟩, fun hheld ↦ absurd hheld hnext, fun hdrop ↦ ?_, hrest,
    fun hheld ↦ absurd hheld hnext⟩
  · have hle := (h.le s hs).1
    omega
  · exact iff_of_false (fun hran ↦ hflag hdrop ((h.cause hdrop).mp hran)) hnext

/-- **One turn of the loop.** -/
theorem GenetDrops.frameStep (h : GenetDrops g) (hinv : GenetInv k g) {total n : UInt16}
    (hpass : g.pass = .walking total n) (reply : ClaimReply) :
    GenetDrops (geFrame g total n reply) := by
  have hwalking := h.pass
  have hring := hinv.pass
  rw [hpass] at hwalking hring
  obtain ⟨hrest, hfirst⟩ := hwalking
  obtain ⟨-, -, hk⟩ := hring
  rw [geFrame]
  split_ifs with hdone hcut
  · -- a frame that was held is in front of the pass, which then has one more to look at
    refine ⟨h.le, h.good, h.cause, iff_of_false (by rw [hrest]; decide) fun hheld ↦ ?_⟩
    obtain ⟨rfl, hne⟩ := hfirst hheld
    exact hne (UInt16.le_zero_iff.mp hdone)
  · refine ⟨h.le, h.good, h.cause, iff_of_false (by rw [hrest]; decide) fun hheld ↦ ?_⟩
    obtain ⟨rfl, -⟩ := hfirst hheld
    exact absurd hcut (by decide)
  · have hlt := UInt16.lt_iff_toNat_lt.mp (UInt16.not_le.mp hdone)
    have hwaiting : g.consumed.length < k := by omega
    have hseq := hinv.seq_rxSlot hwaiting
    have hlook : GenetDrops (rxLook g) := by
      refine ⟨h.le, h.good, h.cause, ?_⟩
      change DropPass _ g.pass
      rw [hpass]
      exact ⟨hrest, hfirst⟩
    rw [geConsider]
    split_ifs with hbad
    · refine (hlook.counted _ g.rxPackets id).consume hrest fun _ hheld ↦ ?_
      rw [h.good hheld] at hbad
      cases hbad
    · split
      · next hnone =>
        have hdrop : g.dropHeld = false := geDeliver_eq_none hnone
        refine ⟨fun s hs ↦ ?_, fun _ ↦ eq_false_of_ne_true hbad, fun hdrop' ↦ ?_,
          iff_of_true rfl ?_⟩
        · rcases List.mem_cons.mp hs with rfl | hs
          · exact ⟨Nat.le_of_eq hseq, hseq ▸ Nat.lt_of_lt_of_le hwaiting hinv.clean_le⟩
          · exact h.le s hs
        · exact absurd (hdrop.symm.trans hdrop') Bool.false_ne_true
        · exact List.mem_cons.mpr (.inl hseq.symm)
      · exact (hlook.counted g.rxErrors _ fun hdrop ↦ absurd hdrop Bool.false_ne_true).consume hrest
          fun hdrop ↦ absurd hdrop Bool.false_ne_true

theorem GenetDrops.finish (h : GenetDrops g) (hpass : g.pass = .ending) : GenetDrops (rxEnd g) := by
  have hending := h.pass
  rw [hpass] at hending
  exact ⟨h.le, h.good, h.cause, hending⟩

theorem GenetDrops.tick (h : GenetDrops g) (hinv : GenetInv k g) (hidle : g.pass = .idle) :
    GenetDrops (genetTick g) := by
  have hpass := h.pass
  rw [genetTick]
  split_ifs with hbehind
  · refine GenetDrops.begin ⟨h.le, h.good, fun hdrop ↦ ?_, ?_⟩
      (hinv.counted g.rxErrors g.rxPackets _ _ _ _) hidle
    · change (if _ then g.rxHeld else g.ranOutHeld) = true ↔ _
      split_ifs with hout
      · rw [hidle] at hpass
        exact hpass
      · refine h.cause ?_
        simpa only [if_neg hout] using hdrop
    · change DropPass _ g.pass
      rw [hidle] at hpass ⊢
      exact hpass
  · refine ⟨h.le, h.good, h.cause, ?_⟩
    change DropPass _ g.pass
    rw [hidle] at hpass ⊢
    exact hpass

/-- **One event.** -/
theorem GenetDrops.step (h : GenetDrops g) (hinv : GenetInv k g) {e : GenetEvent} {g' : GenetRx}
    (hstep : genetStep g e = some g') : GenetDrops g' := by
  cases genetStep_moves hstep with
  | complete hcomplete => exact h.complete hinv hcomplete
  | rxintr hidle => exact h.begin hinv hidle
  | blank hidle => exact h.tick hinv hidle
  | prepare hpass => exact h.prepare hpass
  | @frame total n reply hpass => exact h.frameStep hinv hpass reply
  | finish hpass => exact h.finish hpass

theorem GenetDrops.of_initial (h : g.Initial) : GenetDrops g := by
  obtain ⟨-, -, -, -, -, hpass, -, -, -, -, hdrop, -, -, hrest, hseqs⟩ := h
  have hnone : ∀ s, s ∉ g.heldSeqs := by
    intro s
    rw [hseqs]
    exact List.not_mem_nil
  refine ⟨fun s hs ↦ absurd hs (hnone s), fun hs ↦ absurd hs (hnone _), fun hdrop' ↦ ?_, ?_⟩
  · exact absurd (hdrop.symm.trans hdrop') Bool.false_ne_true
  · rw [hpass]
    exact iff_of_false (by rw [hrest]; decide) (hnone _)

/-- A frame is let go when the clock has run out. -/
theorem dropHeld_of_letGo {g g' : GenetRx} {e : GenetEvent} {s : ℕ}
    (hstep : genetStep g e = some g') (hgo : g'.consumed = g.consumed ++ [⟨s, .letGo⟩]) :
    g.dropHeld = true := by
  have hmore : g'.consumed ≠ g.consumed := by
    rw [hgo]
    simp
  cases genetStep_moves hstep with
  | complete hcomplete =>
    rw [chipComplete] at hcomplete
    split_ifs at hcomplete
    exact absurd (congrArg GenetRx.consumed (Option.some.inj hcomplete)).symm hmore
  | rxintr => exact absurd (rxBegin_frame g).1 hmore
  | blank =>
    rw [genetTick] at hmore
    split_ifs at hmore
    · exact absurd (rxBegin_frame _).1 hmore
    · exact absurd rfl hmore
  | prepare =>
    rw [rxPrepare, rxCleanFresh_eq] at hmore
    exact absurd rfl hmore
  | @frame total n reply =>
    rw [geFrame, geConsider] at hgo hmore
    split_ifs at hgo hmore
    · exact absurd rfl hmore
    · exact absurd rfl hmore
    · -- an error is not let go
      cases List.append_cancel_left hgo
    · cases hdeliver : geDeliver (rxLook g).dropHeld (g.buf (rxSlot g)).first reply with
      | none =>
        rw [hdeliver] at hmore
        exact absurd rfl hmore
      | some outcome =>
        rw [hdeliver] at hgo
        injection List.append_cancel_left hgo with hlast
        injection hlast with _ houtcome
        exact (geDeliver_eq_some hdeliver).2 houtcome
  | finish => exact absurd rfl hmore

/-- Frames are consumed in the order of their completion. -/
theorem GenetInv.seq_eq {g' : GenetRx} (hinv : GenetInv k g') {s : ℕ} {outcome : RxOutcome}
    (hmore : g'.consumed = g.consumed ++ [⟨s, outcome⟩]) : s = g.consumed.length := by
  have horder := hinv.order
  rw [hmore, List.map_append, List.length_append, List.length_singleton, List.range_succ] at horder
  exact (List.cons.inj (List.append_inj_right' horder rfl)).1

/-- A turn of the loop within the budget consumes its frame unless the reader is behind. -/
theorem consumed_geFrame {total n : UInt16} {reply : ClaimReply} (hn : n < total)
    (hbudget : n.toNat < geRxPassMax) (hreply : reply ≠ .behind) :
    (geFrame g total n reply).consumed.length = g.consumed.length + 1 := by
  have hconsume : ∀ (v : GenetRx) (b : RxBuffer) (outcome : RxOutcome),
      (rxConsume v total n b outcome).consumed.length = v.consumed.length + 1 :=
    fun _ _ _ ↦ List.length_append
  rw [geFrame, if_neg (UInt16.not_le.mpr hn), if_neg (Nat.not_le.mpr hbudget), geConsider]
  split_ifs
  · exact hconsume _ _ _
  · cases reply with
    | slot => exact hconsume _ _ _
    | none => exact hconsume _ _ _
    | behind => exact absurd rfl hreply

end Steps

/-- **The receive ring over every run.** In every state of a run: what was consumed are the
completed buffers in the order of their completion, each once, and those that wait are still in
their slots as the chip left them; the chip was handed back consumed buffers only; every byte that
was looked at had had its cache operation since its buffer was completed; a turn of the loop within
the budget consumes its frame unless the reader is behind, and a pass that leaves nothing behind
has consumed all it saw; a frame that is let go was held by a pass before if and only if the blank
that ran out the clock found a frame held, and `GE_HOLD_BLANKS` blanks found the ring left behind
for each frame let go; and the buffers counted as errors are those consumed as such. -/
theorem genet_runs {g : GenetRx} (h : Reachable genetStep GenetRx.Initial g) :
    (g.consumed.map RxConsumed.seq = List.range g.consumed.length ∧
        g.consumed.length ≤ g.completed ∧
        ∀ j, g.consumed.length ≤ j → j < g.completed → (g.buf (j % geRxRing)).seq = j) ∧
      g.handedBack ≤ g.consumed.length ∧
      (∀ r ∈ g.reads, r.coherent = true) ∧
      (∀ total n reply, n < total → n.toNat < geRxPassMax → reply ≠ .behind →
        (geFrame g total n reply).consumed.length = g.consumed.length + 1) ∧
      (g.pass = .idle → g.rxBehind = false → g.rxCidx = g.rxClean) ∧
      (∀ e g' s, genetStep g e = some g' → g'.consumed = g.consumed ++ [⟨s, .letGo⟩] →
        (s ∈ g.heldSeqs ↔ g.ranOutHeld = true)) ∧
      geHoldBlanks * outcomeCount g .letGo ≤ g.behindBlanks ∧
      g.rxErrors = outcomeCount g .error := by
  have hinit (s : GenetRx) (hs : s.Initial) : (∃ k, GenetInv k s) ∧ GenetDrops s :=
    ⟨⟨0, .of_initial hs⟩, .of_initial hs⟩
  have hstep (s : GenetRx) (e : GenetEvent) (s' : GenetRx)
      (hs : (∃ k, GenetInv k s) ∧ GenetDrops s) (hstep : genetStep s e = some s') :
      (∃ k, GenetInv k s') ∧ GenetDrops s' := by
    obtain ⟨⟨k, hk⟩, hdrops⟩ := hs
    exact ⟨hk.step hstep, hdrops.step hk hstep⟩
  obtain ⟨⟨k, hk⟩, hdrops⟩ := h.invariant hinit hstep
  have hholds : GenetHolds g :=
    h.invariant (fun _ ↦ GenetHolds.of_initial) fun _ _ _ hs hstep ↦ hs.step hstep
  have hback := hk.back_le
  have hblanks := hholds.blanks
  refine ⟨⟨hk.order, Nat.le_trans hk.clean_ge hk.clean_le,
    fun j hj hlt ↦ hk.intact j (Nat.le_trans hback hj) hlt⟩, hback, hk.coherent,
    fun _ _ _ ↦ consumed_geFrame, fun hidle hbehind ↦ ?_, fun e g' s hstep hgo ↦ ?_, ?_,
    hholds.errors⟩
  · have hpass := hk.pass
    rw [hidle] at hpass
    rw [hk.cidx, hk.clean, hpass hbehind]
  · obtain ⟨k', hk'⟩ := hk.step hstep
    rw [hk'.seq_eq hgo]
    exact (hdrops.cause (dropHeld_of_letGo hstep hgo)).symm
  · rw [geHoldBlanks] at *
    omega

/-- The ring as it is set up on a cleared allocation. -/
def GenetRx.setUp : GenetRx where
  prodIndex := 0
  consIndex := 0
  rxCidx := 0
  rxClean := 0
  rxBehind := false
  rxHeld := false
  dropHeld := false
  heldBlanks := 0
  pageops := true
  rxErrors := 0
  rxPackets := 0
  pass := .idle
  buf := fun _ ↦ ⟨0, 0, 0⟩
  current := fun _ ↦ false
  completed := 0
  handedBack := 0
  consumed := []
  reads := []
  behindBlanks := 0
  heldSeqs := []
  ranOutHeld := false

theorem GenetRx.initial_setUp : GenetRx.setUp.Initial :=
  ⟨rfl, rfl, rfl, rfl, rfl, rfl, rfl, rfl, rfl, rfl, rfl, rfl, rfl, rfl, rfl⟩

/-- Three buffers complete, the first is consumed, the second is held for its reader, and a later
pass goes on from there while the chip completes a fourth. -/
theorem genet_runs_hold :
    ∃ g, Reachable genetStep GenetRx.Initial g ∧ g.completed = 4 ∧ g.handedBack = 1 ∧
      g.consumed.length = 3 ∧ g.consumed.map RxConsumed.seq = List.range g.consumed.length ∧
      ∀ r ∈ g.reads, r.coherent = true := by
  have hrun : (run genetStep GenetRx.setUp
      [.complete 0x00646000 0, .complete 0x00646000 0, .rxintr, .prepare,
        .complete 0x00646000 0, .frame .slot, .frame .behind, .finish, .rxintr, .prepare,
        .complete 0x00646000 0, .frame .slot, .frame .none]).any
      (fun g ↦ decide (g.completed = 4 ∧ g.handedBack = 1 ∧ g.consumed.length = 3)) = true := by
    decide +kernel
  obtain ⟨g, hg, hstate⟩ := (Option.any_eq_true _ _).mp hrun
  obtain ⟨hcompleted, hback, hlength⟩ := of_decide_eq_true hstate
  have hreach : Reachable genetStep GenetRx.Initial g :=
    ⟨_, _, GenetRx.initial_setUp, hg⟩
  obtain ⟨⟨horder, -, -⟩, -, hcoherent, -⟩ := genet_runs hreach
  exact ⟨g, hreach, hcompleted, hback, hlength, horder, hcoherent⟩

/-- A unicast frame without errors. -/
def unicastFrame : GenetEvent := .complete 0x00646000 0

/-- A blank whose pass finds the reader of the head behind. -/
def blankBehind : List GenetEvent := [.blank, .prepare, .frame .behind, .finish]

/-- The first of some frames is held, and four blanks find it so. -/
def fourBlanks (frames : ℕ) : List GenetEvent :=
  List.replicate frames unicastFrame ++ [.rxintr, .prepare, .frame .behind, .finish] ++
    blankBehind ++ blankBehind ++ blankBehind ++ blankBehind

/-- **A frame that is let go and was never held.** Of 34 frames the first is held through four
blanks. Then its reader catches up, and a pass takes 32 frames and is cut at its budget. The fifth
blank finds frames left behind and runs out the clock; the reader of the next frame has no read
posted, and the frame is let go at once. -/
theorem genet_letGo_unheld :
    ∃ g g' e, Reachable genetStep GenetRx.Initial g ∧ genetStep g e = some g' ∧
      g'.consumed = g.consumed ++ [⟨32, .letGo⟩] ∧ g.heldSeqs = [0, 0, 0, 0, 0] := by
  have hrun : ((run genetStep GenetRx.setUp (fourBlanks 34 ++ [.rxintr, .prepare] ++
      List.replicate 33 (.frame .slot) ++ [.finish, .blank, .prepare])).bind fun g ↦
        (genetStep g (.frame .behind)).map fun g' ↦ (g, g')).any (fun p ↦
          decide (p.2.consumed = p.1.consumed ++ [⟨32, .letGo⟩] ∧
            p.1.heldSeqs = [0, 0, 0, 0, 0])) = true := by
    decide +kernel
  obtain ⟨⟨g, g'⟩, hpair, hstate⟩ := (Option.any_eq_true _ _).mp hrun
  obtain ⟨g₁, hg, hmap⟩ := Option.bind_eq_some_iff.mp hpair
  obtain ⟨g₂, hstep, hpair⟩ := Option.map_eq_some_iff.mp hmap
  obtain ⟨rfl, rfl⟩ := Prod.mk.inj hpair
  exact ⟨g₁, g₂, _, ⟨_, _, GenetRx.initial_setUp, hg⟩, hstep, of_decide_eq_true hstate⟩

end AmiNetXDuo.Netdev
