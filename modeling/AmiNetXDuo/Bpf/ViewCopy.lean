import AmiNetXDuo.Bpf.Safety

/-!
# Copies out of a view

A capture copies the bytes it keeps out of the segments of a view with `ami_bpf_view_copy`, which
walks the segments once, skips those before the offset and takes what it can from each of the
others.  What it delivers is a piece of the flat frame, with zeros behind a view that is too short.

Together with the interpreter, which sees a view through its flat frame, this makes captures
independent of how the transmit tap has cut a frame.

## Main definitions

* `amiBpfViewCopy` : the copy.
* `View.divided` : a frame in segments, all of which is captured.

## Main results

* `viewCopyLoop_eq` : the loop, from any segment on.
* `amiBpfViewCopy_eq` : the copy is a piece of the flat frame.
* `view_division_independent` : neither programs nor copies depend on the segments.
-/

namespace AmiNetXDuo.Bpf

/-! ### The copy -/

/-- The loop of `ami_bpf_view_copy` from a segment whose first byte has offset `base`: the bytes it
has copied, and what is left of `len`. -/
def viewCopyLoop : List (List UByte) → (base off len : ULong) → List UByte × ULong
  | [], _, _, len => ([], len)
  | s :: segs, base, off, len =>
    if len = 0 then ([], len)
    else
      let seglen := BitVec.ofNat 32 s.length
      if off ≥ base + seglen then viewCopyLoop segs (base + seglen) off len
      else
        let start := if off > base then off - base else 0
        let take := if seglen - start > len then len else seglen - start
        let rest := viewCopyLoop segs (base + seglen) (off + take) (len - take)
        ((s.drop start.toNat).take take.toNat ++ rest.1, rest.2)

/-- `ami_bpf_view_copy`: the `len` bytes it writes. -/
def amiBpfViewCopy (view : View) (off len : ULong) : List UByte :=
  (viewCopyLoop view.segs 0 off len).1 ++
    List.replicate (viewCopyLoop view.segs 0 off len).2.toNat 0

/-! ### A copy is a piece of the frame -/

theorem viewCopyLoop_zero (segs : List (List UByte)) (base off : ULong) :
    viewCopyLoop segs base off 0 = ([], 0) := by
  cases segs <;> rfl

/-- **The loop.**  It copies what there is of `len` bytes from the offset on. -/
theorem viewCopyLoop_eq (segs : List (List UByte)) (base off len : ULong) (hle : base ≤ off)
    (hlt : base.toNat + segs.flatten.length < 2 ^ 32) :
    (viewCopyLoop segs base off len).1 =
        (segs.flatten.drop (off.toNat - base.toNat)).take len.toNat ∧
      (viewCopyLoop segs base off len).2.toNat =
        len.toNat - (segs.flatten.length - (off.toNat - base.toNat)) := by
  induction segs generalizing base off len with
  | nil => simp [viewCopyLoop]
  | cons s segs ih =>
    rw [BitVec.le_def] at hle
    rw [List.flatten_cons, List.length_append] at hlt
    have hlen : (BitVec.ofNat 32 s.length).toNat = s.length := by
      rw [BitVec.toNat_ofNat]
      omega
    have hnext : (base + BitVec.ofNat 32 s.length).toNat = base.toNat + s.length := by
      rw [BitVec.toNat_add, hlen]
      omega
    by_cases hzero : len = 0
    · subst hzero
      rw [viewCopyLoop_zero]
      simp
    rw [viewCopyLoop, if_neg hzero]
    dsimp only
    by_cases hskip : off ≥ base + BitVec.ofNat 32 s.length
    · rw [if_pos hskip]
      -- the segment lies before the offset
      rw [ge_iff_le, BitVec.le_def, hnext] at hskip
      obtain ⟨hbytes, hrest⟩ := ih (base + BitVec.ofNat 32 s.length) off len
        (by rw [BitVec.le_def, hnext]; exact hskip) (by rw [hnext]; omega)
      rw [hnext] at hbytes hrest
      have hdrop : (s ++ segs.flatten).drop (off.toNat - base.toNat) =
          segs.flatten.drop (off.toNat - (base.toNat + s.length)) := by
        rw [List.drop_append, List.drop_of_length_le (by omega), List.nil_append]
        congr 1
        omega
      rw [List.flatten_cons, hdrop, List.length_append]
      exact ⟨hbytes, by omega⟩
    · rw [if_neg hskip]
      rw [ge_iff_le, BitVec.le_def, hnext, not_le] at hskip
      have hstart : (if off > base then off - base else 0).toNat = off.toNat - base.toNat := by
        split
        · rw [BitVec.toNat_sub_of_le (BitVec.le_def.mpr hle)]
        · next hnot =>
          rw [gt_iff_lt, BitVec.lt_def] at hnot
          change 0 = _
          omega
      generalize (if off > base then off - base else 0) = start at hstart ⊢
      have havail : (BitVec.ofNat 32 s.length - start).toNat =
          s.length - (off.toNat - base.toNat) := by
        rw [BitVec.toNat_sub_of_le (by rw [BitVec.le_def, hlen]; omega), hlen, hstart]
      generalize BitVec.ofNat 32 s.length - start = avail at havail ⊢
      have htake : (if avail > len then len else avail).toNat =
          min len.toNat (s.length - (off.toNat - base.toNat)) := by
        rw [← havail]
        split <;> next hcmp => rw [gt_iff_lt, BitVec.lt_def] at hcmp; omega
      generalize (if avail > len then len else avail) = take at htake ⊢
      have hoff : (off + take).toNat = off.toNat + take.toNat := by
        rw [BitVec.toNat_add]
        omega
      have hleft : (len - take).toNat = len.toNat - take.toNat := by
        rw [BitVec.toNat_sub_of_le (by rw [BitVec.le_def]; omega)]
      rw [List.flatten_cons, List.drop_append, List.take_append, hstart,
        show off.toNat - base.toNat - s.length = 0 by omega, List.drop_zero, List.length_drop,
        List.length_append]
      by_cases hmore : take.toNat = len.toNat
      · -- the copy ends in this segment
        have hdone : len - take = 0 := BitVec.eq_of_toNat_eq (by rw [hleft]; change _ = 0; omega)
        rw [hdone, viewCopyLoop_zero, hmore,
          show len.toNat - (s.length - (off.toNat - base.toNat)) = 0 by omega]
        refine ⟨by simp, ?_⟩
        change 0 = _
        omega
      · -- it goes on at the first byte of the next one
        have hend : off.toNat + take.toNat = base.toNat + s.length := by omega
        obtain ⟨hbytes, hrest⟩ := ih (base + BitVec.ofNat 32 s.length) (off + take) (len - take)
          (by rw [BitVec.le_def, hnext, hoff, hend]) (by rw [hnext]; omega)
        rw [hnext, hoff, hend, Nat.sub_self, hleft] at hbytes hrest
        rw [List.drop_zero] at hbytes
        refine ⟨?_, by rw [hrest]; omega⟩
        rw [hbytes, List.take_of_length_le (by rw [List.length_drop]; omega),
          List.take_of_length_le (show (s.drop _).length ≤ len.toNat by
            rw [List.length_drop]; omega),
          show len.toNat - take.toNat = len.toNat - (s.length - (off.toNat - base.toNat)) by omega]

/-- **A copy is a piece of the flat frame**, with zeros behind the end of the view. -/
theorem amiBpfViewCopy_eq (view : View) (off len : ULong) :
    amiBpfViewCopy view off len =
      (view.segs.flatten.drop off.toNat).take len.toNat ++
        List.replicate (len.toNat - (view.segs.flatten.length - off.toNat)) 0 := by
  obtain ⟨hbytes, hrest⟩ := viewCopyLoop_eq view.segs 0 off len (BitVec.le_def.mpr (Nat.zero_le _))
    (by have := view.bytes_lt; change 0 + _ < _; omega)
  change _ = (view.segs.flatten.drop (off.toNat - 0)).take len.toNat at hbytes
  change _ = len.toNat - (view.segs.flatten.length - (off.toNat - 0)) at hrest
  rw [amiBpfViewCopy, hbytes, hrest, Nat.sub_zero]

/-! ### Divided frames -/

/-- A frame in segments, empty ones among them perhaps, of which every byte is visible. -/
def View.divided (segs : List (List UByte)) (wirelen : ULong) (hsegs : segs.length ≤ amiBpfMaxSegs)
    (hbytes : segs.flatten.length < 2 ^ 32) : View where
  wirelen := wirelen
  caplen := BitVec.ofNat 32 segs.flatten.length
  segs := segs
  nsegs_le := hsegs
  bytes_lt := hbytes

theorem packet_divided {segs : List (List UByte)} {wirelen : ULong}
    (hsegs : segs.length ≤ amiBpfMaxSegs) (hbytes : segs.flatten.length < 2 ^ 32) :
    (View.divided segs wirelen hsegs hbytes).packet = ⟨wirelen, segs.flatten⟩ := by
  have hcap : (BitVec.ofNat 32 segs.flatten.length).toNat = segs.flatten.length := by
    rw [BitVec.toNat_ofNat]
    exact Nat.mod_eq_of_lt hbytes
  rw [View.packet]
  change (⟨wirelen, segs.flatten.take (BitVec.ofNat 32 segs.flatten.length).toNat⟩ : Packet) = _
  rw [hcap, List.take_length]

/-- **How a frame is cut does not matter.**  A program that the validator accepts returns the same
on a frame in up to eight segments as on the frame in one piece, and what a capture copies out of
the segments is the beginning of the frame. -/
theorem view_division_independent (segs : List (List UByte)) (wirelen : ULong)
    (hsegs : segs.length ≤ amiBpfMaxSegs) (hbytes : segs.flatten.length < 2 ^ 32)
    (insns : List Insn) (hvalid : amiBpfValidate (some insns) = 0) :
    (∃ v, amiBpfFilterView (some insns) (some (.divided segs wirelen hsegs hbytes)) = .ok (some v) ∧
      amiBpfFilter (some insns) segs.flatten wirelen hbytes = .ok (some v)) ∧
    ∀ len : ULong, len.toNat ≤ segs.flatten.length →
      amiBpfViewCopy (.divided segs wirelen hsegs hbytes) 0 len = segs.flatten.take len.toNat := by
  obtain ⟨ops, hops⟩ := exists_accepted_of_amiBpfValidate hvalid
  obtain ⟨v, hexec, -, hview⟩ :=
    amiBpfFilterView_of_accepted hops (.divided segs wirelen hsegs hbytes)
  obtain ⟨v', hexec', -, hflat⟩ :=
    amiBpfFilterView_of_accepted hops (.linear segs.flatten wirelen hbytes)
  refine ⟨⟨v.value, hview, ?_⟩, fun len hlen ↦ ?_⟩
  · -- both runs are of the same flat frame
    have hlinear : (View.linear segs.flatten wirelen hbytes).packet = ⟨wirelen, segs.flatten⟩ := by
      rw [← packet_divided hsegs hbytes]
      simp [View.packet, View.linear, View.divided]
    rw [packet_divided hsegs hbytes] at hexec
    rw [hlinear, hexec] at hexec'
    rw [amiBpfFilter, hflat, Option.some.inj hexec']
  · rw [amiBpfViewCopy_eq]
    change (segs.flatten.drop 0).take len.toNat ++
      List.replicate (len.toNat - (segs.flatten.length - 0)) 0 = _
    rw [List.drop_zero, Nat.sub_zero, Nat.sub_eq_zero_of_le hlen, List.replicate_zero,
      List.append_nil]

theorem view_division_independent_split :
    (∃ v, amiBpfFilterView (some keepIpv4) (some (.divided
        [[], List.replicate 12 0 ++ [0x08], [], [0x00, 0x45]] 15 (by decide) (by decide))) =
          .ok (some v) ∧ v = 96) ∧
    amiBpfViewCopy (.divided [[], List.replicate 12 0 ++ [0x08], [], [0x00, 0x45]] 15 (by decide)
      (by decide)) 0 14 = List.replicate 12 0 ++ [0x08, 0x00] := by
  obtain ⟨⟨v, hview, hflat⟩, hcopy⟩ := view_division_independent
    [[], List.replicate 12 0 ++ [0x08], [], [0x00, 0x45]] 15 (by decide) (by decide) keepIpv4
    (by decide)
  refine ⟨⟨v, hview, ?_⟩, hcopy 14 (by decide)⟩
  have hrun : amiBpfFilter (some keepIpv4)
      [[], List.replicate 12 0 ++ [0x08], [], [0x00, 0x45]].flatten 15 (by decide) =
        .ok (some 96) := rfl
  rw [hrun] at hflat
  cases hflat
  rfl

end AmiNetXDuo.Bpf
