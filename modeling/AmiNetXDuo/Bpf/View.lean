import AmiNetXDuo.Basic
import AmiNetXDuo.Lib.BigEndian

/-!
# Frame views and packet loads

A view is a frame in up to eight segments, as the transmit tap builds it.  The interpreter reaches
its bytes through `ami_bpf_view_at`, which finds the segment of an offset, and `ami_bpf_load`,
which reads one, two or four bytes.

Every byte access goes through `View.deref`, which fails with `Fault.byte` outside the segments:
a run that returns has read no other byte.

## Main definitions

* `View` : `AmiBpfView`.
* `amiBpfViewAt`, `amiBpfLoad` : the accessors of `bpf_filter.c`.
* `Packet` : a frame as one byte string, and `Packet.load`, a load from it.

## Main results

* `amiBpfLoad_eq` : a load through the segments is a load from the flat frame, and reads no byte
  outside the segments.
-/

namespace AmiNetXDuo.Bpf

open BigEndian

/-- The accesses that a run must never make. -/
inductive Fault
  | insn
  | scratch
  | byte
  deriving DecidableEq, Repr

/-- `AMI_BPF_MAX_SEGS`. -/
def amiBpfMaxSegs : Nat := 8

/-- `AmiBpfView`: a frame in segments.  The segments are disjoint pieces of a 32-bit address
space. -/
structure View where
  wirelen : ULong
  caplen : ULong
  segs : List (List UByte)
  nsegs_le : segs.length ≤ amiBpfMaxSegs
  bytes_lt : segs.flatten.length < 2 ^ 32

/-- A pointer into a view: a segment and a position in it. -/
structure SegPtr where
  seg : Nat
  pos : Nat
  deriving DecidableEq, Repr

/-- The byte `p[i]`. -/
def View.deref (view : View) (p : SegPtr) (i : Nat) : Except Fault UByte :=
  match view.segs[p.seg]? with
  | none => .error .byte
  | some s =>
      match s[p.pos + i]? with
      | none => .error .byte
      | some b => .ok b

/-- The loop of `ami_bpf_view_at` from segment `i`, whose first byte has offset `base`. -/
def viewAtLoop (off : ULong) : List (List UByte) → Nat → ULong → Option (SegPtr × ULong)
  | [], _, _ => none
  | s :: segs, i, base =>
      let len := BitVec.ofNat 32 s.length
      if off < base + len then
        some (⟨i, (off - base).toNat⟩, base + len - off)
      else
        viewAtLoop off segs (i + 1) (base + len)

/-- `ami_bpf_view_at`: the pointer to offset `off`, and how many contiguous bytes follow it. -/
def amiBpfViewAt (view : View) (off : ULong) : Option (SegPtr × ULong) :=
  viewAtLoop off view.segs 0 0

/-- The load of `n` bytes inside one segment, from `p[i]` on. -/
def loadInside (view : View) (p : SegPtr) : Nat → Nat → ULong → Except Fault ULong
  | 0, _, value => .ok value
  | n + 1, i, value => do
      let b ← view.deref p i
      loadInside view p n (i + 1) (shiftIn value b)

/-- The load of `n` bytes across segments, looking every byte up, from offset `off + i` on. -/
def loadAcross (view : View) (off : ULong) : Nat → Nat → ULong → Except Fault (Option ULong)
  | 0, _, value => .ok (some value)
  | n + 1, i, value =>
      match amiBpfViewAt view (off + BitVec.ofNat 32 i) with
      | none => .ok none
      | some (p, _) => do
          let b ← view.deref p 0
          loadAcross view off n (i + 1) (shiftIn value b)

/-- `ami_bpf_load`: `none` means out of range. -/
def amiBpfLoad (view : View) (off : ULong) (size : Nat) : Except Fault (Option ULong) :=
  if size = 0 then
    .ok none
  else if BitVec.ofNat 32 size > view.caplen ∨ off > view.caplen - BitVec.ofNat 32 size then
    .ok none
  else
    match amiBpfViewAt view off with
    | none => .ok none
    | some (p, avail) =>
        if avail ≥ BitVec.ofNat 32 size then do
          let value ← loadInside view p size 0 0
          return some value
        else
          loadAcross view off size 0 0

/-- A captured frame as one byte string. -/
structure Packet where
  wirelen : ULong
  bytes : List UByte

/-- A big-endian load from a flat frame, `none` when the frame ends before the last byte. -/
def Packet.load (packet : Packet) (off size : Nat) : Option ULong :=
  (window packet.bytes off size).map fun w ↦ BitVec.ofNat 32 (value w)

/-- The flat frame of a view: the bytes of its segments, of which `caplen` are visible. -/
def View.packet (view : View) : Packet where
  wirelen := view.wirelen
  bytes := view.segs.flatten.take view.caplen.toNat

/-! ### Finding an offset -/

/-- What `ami_bpf_view_at` reports at `off`, on the bytes `flat` of the view. -/
def FindsOffset (view : View) (off : Nat) : Option (SegPtr × ULong) → Prop
  | none => view.segs.flatten.length ≤ off
  | some (p, avail) => 0 < avail.toNat ∧
      ∀ i < avail.toNat, ∃ b, view.deref p i = .ok b ∧ view.segs.flatten[off + i]? = some b

private theorem findsOffset_viewAtLoop (view : View) (off : ULong) (pre segs : List (List UByte))
    (base : ULong) (hsplit : view.segs = pre ++ segs) (hbase : base.toNat = pre.flatten.length)
    (hle : base ≤ off) : FindsOffset view off.toNat (viewAtLoop off segs pre.length base) := by
  induction segs generalizing pre base with
  | nil =>
      simp only [viewAtLoop, FindsOffset, hsplit, List.append_nil, ← hbase]
      exact hle
  | cons s segs ih =>
      have htotal : view.segs.flatten.length =
          base.toNat + (s.length + segs.flatten.length) := by
        simp [hsplit, hbase]
      have hlt := view.bytes_lt
      have hlen : (BitVec.ofNat 32 s.length).toNat = s.length := by
        simp only [BitVec.toNat_ofNat]
        omega
      have hnext : (base + BitVec.ofNat 32 s.length).toNat = base.toNat + s.length := by
        rw [BitVec.toNat_add, hlen]
        omega
      rw [BitVec.le_def] at hle
      simp only [viewAtLoop]
      split_ifs with hoff
      · rw [BitVec.lt_def, hnext] at hoff
        have hpos : (off - base).toNat = off.toNat - base.toNat := by
          rw [BitVec.toNat_sub_of_le (BitVec.le_def.mpr hle)]
        have havail : (base + BitVec.ofNat 32 s.length - off).toNat =
            base.toNat + s.length - off.toNat := by
          rw [BitVec.toNat_sub_of_le (by rw [BitVec.le_def, hnext]; omega), hnext]
        refine ⟨by omega, fun i hi ↦ ?_⟩
        rw [havail] at hi
        have hin : off.toNat - base.toNat + i < s.length := by omega
        refine ⟨s[off.toNat - base.toNat + i], ?_, ?_⟩
        · simp [View.deref, hsplit, hpos, hin]
        · have hskip : off.toNat + i = pre.flatten.length + (off.toNat - base.toNat + i) := by
            omega
          rw [hsplit, List.flatten_append, List.flatten_cons, hskip,
            List.getElem?_append_right (by omega), Nat.add_sub_cancel_left,
            List.getElem?_append_left hin, List.getElem?_eq_getElem hin]
      · rw [BitVec.lt_def, hnext] at hoff
        have hrec := ih (pre ++ [s]) (base + BitVec.ofNat 32 s.length) (by simp [hsplit])
          (by rw [hnext]; simp [hbase]) (by rw [BitVec.le_def, hnext]; omega)
        simpa using hrec

theorem findsOffset_amiBpfViewAt (view : View) (off : ULong) :
    FindsOffset view off.toNat (amiBpfViewAt view off) :=
  findsOffset_viewAtLoop view off [] view.segs 0 rfl rfl (by simp [BitVec.le_def])

/-! ### Loads -/

theorem loadInside_eq (view : View) (p : SegPtr) (bs : List UByte) (i : Nat) (value : ULong)
    (h : ∀ j (hj : j < bs.length), view.deref p (i + j) = .ok bs[j]) :
    loadInside view p bs.length i value = .ok (bs.foldl shiftIn value) := by
  induction bs generalizing i value with
  | nil => rfl
  | cons b bs ih =>
      have hhead : view.deref p i = .ok b := h 0 (by simp)
      simp only [List.length_cons, loadInside, hhead, List.foldl_cons]
      refine ih (i + 1) (shiftIn value b) fun j hj ↦ ?_
      rw [Nat.add_right_comm, Nat.add_assoc]
      exact h (j + 1) (by simpa using hj)

theorem loadAcross_eq (view : View) (off : ULong) (n i : Nat) (value : ULong)
    (hlt : off.toNat + i + n < 2 ^ 32) (hi : off.toNat + i ≤ view.segs.flatten.length) :
    loadAcross view off n i value =
      .ok ((window view.segs.flatten (off.toNat + i) n).map fun w ↦ w.foldl shiftIn value) := by
  induction n generalizing i value with
  | zero => simp [loadAcross, window_zero hi]
  | succ n ih =>
      have hoff : (off + BitVec.ofNat 32 i).toNat = off.toNat + i := by
        simp only [BitVec.toNat_add, BitVec.toNat_ofNat]
        omega
      have hfind := findsOffset_amiBpfViewAt view (off + BitVec.ofNat 32 i)
      rw [hoff] at hfind
      rw [window_succ, loadAcross]
      cases hat : amiBpfViewAt view (off + BitVec.ofNat 32 i) with
      | none =>
          rw [hat] at hfind
          rw [List.getElem?_eq_none hfind]
          rfl
      | some found =>
          obtain ⟨p, avail⟩ := found
          rw [hat] at hfind
          obtain ⟨b, hderef, hflat⟩ := hfind.2 0 hfind.1
          rw [Nat.add_zero] at hflat
          have hin : off.toNat + i < view.segs.flatten.length :=
            (List.getElem?_eq_some_iff.mp hflat).1
          rw [hflat, Option.bind_some, Option.map_map]
          change (do
            let b ← view.deref p 0
            loadAcross view off n (i + 1) (shiftIn value b)) = _
          rw [hderef]
          exact ih (i + 1) (shiftIn value b) (by omega) (by omega)

/-- The bytes of the window that a load reads, one by one. -/
private theorem getElem?_flatten_of_window {view : View} {off size : Nat} {w : List UByte}
    (h : window view.segs.flatten off size = some w) (j : Nat) (hj : j < w.length) :
    view.segs.flatten[off + j]? = some w[j] := by
  obtain ⟨-, rfl⟩ := window_eq_some_iff.mp h
  rw [List.length_take] at hj
  simp only [List.getElem_take, List.getElem_drop]
  exact List.getElem?_eq_getElem _

/-- The part of `ami_bpf_load` behind its range check. -/
private theorem load_found (view : View) (off : ULong) {size : Nat} (hpos : 0 < size)
    (hlt : off.toNat + size < 2 ^ 32) :
    (match amiBpfViewAt view off with
      | none => .ok none
      | some (p, avail) =>
          if avail ≥ BitVec.ofNat 32 size then do
            let value ← loadInside view p size 0 0
            return some value
          else
            loadAcross view off size 0 0) =
      (.ok ((window view.segs.flatten off.toNat size).map fun w ↦ BitVec.ofNat 32 (value w)) :
        Except Fault (Option ULong)) := by
  have hsize : (BitVec.ofNat 32 size).toNat = size := by
    simp only [BitVec.toNat_ofNat]
    omega
  have hfind := findsOffset_amiBpfViewAt view off
  cases hat : amiBpfViewAt view off with
  | none =>
      rw [hat] at hfind
      have hend : view.segs.flatten.length ≤ off.toNat := hfind
      simp [window_of_lt (show view.segs.flatten.length < off.toNat + size by omega)]
  | some found =>
      obtain ⟨p, avail⟩ := found
      rw [hat] at hfind
      obtain ⟨havail, hbyte⟩ := hfind
      have hin (i : Nat) (hi : i < avail.toNat) : off.toNat + i < view.segs.flatten.length := by
        obtain ⟨b, -, hflat⟩ := hbyte i hi
        exact (List.getElem?_eq_some_iff.mp hflat).1
      simp only [ge_iff_le, BitVec.le_def, hsize]
      split_ifs with hinside
      · obtain ⟨w, hwin⟩ : ∃ w, window view.segs.flatten off.toNat size = some w :=
          ⟨_, window_of_le (by have := hin (size - 1) (by omega); omega)⟩
        have hlen := length_of_window hwin
        have hread : loadInside view p size 0 0 = .ok (w.foldl shiftIn 0) := by
          rw [← hlen]
          refine loadInside_eq view p w 0 0 fun j hj ↦ ?_
          obtain ⟨b, hderef, hflat⟩ := hbyte j (by omega)
          rw [getElem?_flatten_of_window hwin j hj] at hflat
          cases hflat
          rw [Nat.zero_add, hderef]
        rw [hread, hwin, foldl_shiftIn_zero]
        rfl
      · rw [loadAcross_eq view off size 0 0 (by omega) (by have := hin 0 havail; omega)]
        simp only [foldl_shiftIn_zero, Nat.add_zero]

/-- **A load through the segments is a load from the flat frame.**  In particular it reads no byte
outside the segments, whichever of the two paths it takes. -/
theorem amiBpfLoad_eq (view : View) (off : ULong) {size : Nat} (hpos : 0 < size) (hle : size ≤ 4) :
    amiBpfLoad view off size = .ok (view.packet.load off.toNat size) := by
  have hsize : (BitVec.ofNat 32 size).toNat = size := by
    simp only [BitVec.toNat_ofNat]
    omega
  have hload : view.packet.load off.toNat size =
      (window (view.segs.flatten.take view.caplen.toNat) off.toNat size).map
        fun w ↦ BitVec.ofNat 32 (value w) := rfl
  have hbytes := view.bytes_lt
  rw [amiBpfLoad, if_neg (by omega), hload]
  split_ifs with hrange
  · rw [gt_iff_lt, gt_iff_lt, BitVec.lt_def, BitVec.lt_def, hsize] at hrange
    have hshort : view.caplen.toNat < off.toNat + size := by
      rcases hrange with hcap | hoff
      · omega
      · by_cases hcap : size ≤ view.caplen.toNat
        · rw [BitVec.toNat_sub_of_le (by rwa [BitVec.le_def, hsize]), hsize] at hoff
          omega
        · omega
    rw [window_of_lt (by rw [List.length_take]; omega), Option.map_none]
  · rw [gt_iff_lt, gt_iff_lt, BitVec.lt_def, BitVec.lt_def, hsize, not_or, not_lt, not_lt] at hrange
    obtain ⟨hcap, hoff⟩ := hrange
    rw [BitVec.toNat_sub_of_le (by rwa [BitVec.le_def, hsize]), hsize] at hoff
    rw [window_take (by omega)]
    exact load_found view off hpos (by omega)

end AmiNetXDuo.Bpf
