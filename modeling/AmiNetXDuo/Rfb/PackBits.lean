import AmiNetXDuo.Basic
import AmiNetXDuo.Lib.MachineWord
import Mathlib.Data.List.TakeWhile

/-!
# PackBits of the remote framebuffer

The two run-length coders of `rfb_encode.c`. They are the same code over units of one and of two
bytes, so there is one definition for both, with what differs as a `PackUnit`. A unit that repeats
is sent as a run, everything else as a literal of at most 128 units; where a literal ends is found
by looking ahead for the next run.

The unpackers add to their indices in 32 bits before they compare. For a buffer whose length is
within one piece of `2 ^ 32` the sum wraps, and the comparison lets a copy pass that leaves the
buffer. A copy past the end of a buffer is a `fault` of the model.

## Main definitions

* `PackUnit`, `byteUnit`, `wordUnit` : the units.
* `rfbPackbits`, `rfbPackbits16`, `rfbUnpackbits`, `rfbUnpackbits16`.
* `Unpacks` : what the unpacker makes of some packed bytes, whatever follows them.

## Main results

* `packLoop_unpacks` : what the packer has written unpacks to what it has read.
* `rfbUnpackbits_rfbPackbits` : the round trip, and no access past a buffer that leaves room for one
  more piece below `2 ^ 32`.
* `rfbUnpackbits_fault` : a buffer that does not.
-/

namespace AmiNetXDuo.Rfb

open MachineWord

/-! ### Units -/

/-- What one of the two coders counts: a unit of `width` bytes in memory order, and the test that
its unpacker makes before it reads the unit of a run at index `i` of `n` bytes. -/
structure PackUnit (α : Type) where
  width : Nat
  bytes : α → List UInt8
  short : Nat → Nat → Bool
  length_bytes : ∀ u, (bytes u).length = width
  short_of_le : ∀ n i, i + width ≤ n → n < 2 ^ 32 → short n i = false
  le_of_short : ∀ n i, i ≤ n → n + 128 * width < 2 ^ 32 → short n i = false → i + width ≤ n

/-- The units of `rfb_packbits()`. -/
def byteUnit : PackUnit UInt8 where
  width := 1
  bytes b := [b]
  short n i := n ≤ i
  length_bytes _ := rfl
  short_of_le n i h _ := decide_eq_false (by omega)
  le_of_short n i _ _ h := by
    have := of_decide_eq_false h
    omega

/-- The units of `rfb_packbits16()`. -/
def wordUnit : PackUnit UInt16 where
  width := 2
  bytes u := [(u >>> 8).toUInt8, u.toUInt8]
  short n i := n < w32 (i + 2)
  length_bytes _ := rfl
  short_of_le n i h hn := decide_eq_false (by rw [w32_of_lt (by omega)]; omega)
  le_of_short n i hi hn h := by
    have := of_decide_eq_false h
    rw [w32_of_lt (by omega)] at this
    omega

/-- The bytes of units in memory. -/
def PackUnit.bytesOf {α : Type} (k : PackUnit α) (u : List α) : List UInt8 := u.flatMap k.bytes

/-! ### The packers -/

section Pack

variable {α : Type} [DecidableEq α]

/-- The scan for a run of three, from the unit `q` on. -/
def literalScan3 (u : List α) (se lim q : Nat) : Nat :=
  if q < se then
    if u[q + 1]? ≠ u[q + 2]? then literalScan3 u se lim (q + 2)
    else if u[q]? = u[q + 1]? then q
    else literalScan3 u se lim (q + 1)
  else lim
termination_by se - q

/-- The scan for a run of two, from the unit `q` on. -/
def literalScan2 (u : List α) (se lim q : Nat) : Nat :=
  if q < se then
    if u[q]? = u[q + 1]? then q else literalScan2 u se lim (q + 1)
  else lim
termination_by se - q

/-- `rfb_pb8_literal_end()` and `rfb_pb16_literal_end()`, from `p` to `end`: the units of the
literal that starts at `p`. -/
def literalEnd (u : List α) (minRun : Int) : Nat :=
  let lim := if 128 < u.length then 128 else u.length
  if minRun = 3 then literalScan3 u (min (u.length - 2) lim) lim 1
  else literalScan2 u (min (u.length - 1) lim) lim 1

theorem literalScan3_bounds (u : List α) {se lim q : Nat} (hse : se ≤ lim) (hq : 1 ≤ q)
    (hlim : 1 ≤ lim) : 1 ≤ literalScan3 u se lim q ∧ literalScan3 u se lim q ≤ lim := by
  fun_induction literalScan3 u se lim q with
  | case1 q hlt _ ih => exact ih (by omega)
  | case2 q hlt _ _ => exact ⟨hq, by omega⟩
  | case3 q hlt _ _ ih => exact ih (by omega)
  | case4 q hlt => exact ⟨hlim, Nat.le_refl _⟩

theorem literalScan2_bounds (u : List α) {se lim q : Nat} (hse : se ≤ lim) (hq : 1 ≤ q)
    (hlim : 1 ≤ lim) : 1 ≤ literalScan2 u se lim q ∧ literalScan2 u se lim q ≤ lim := by
  fun_induction literalScan2 u se lim q with
  | case1 q hlt _ => exact ⟨hq, by omega⟩
  | case2 q hlt _ ih => exact ih (by omega)
  | case3 q hlt => exact ⟨hlim, Nat.le_refl _⟩

/-- A literal has at least one unit, at most 128, and no more than there are. -/
theorem literalEnd_bounds (b : α) (rest : List α) (minRun : Int) :
    1 ≤ literalEnd (b :: rest) minRun ∧ literalEnd (b :: rest) minRun ≤ 128 ∧
      literalEnd (b :: rest) minRun ≤ rest.length + 1 := by
  unfold literalEnd
  dsimp only
  obtain ⟨lim, hdef⟩ : ∃ lim, lim = if 128 < (b :: rest).length then 128 else (b :: rest).length :=
    ⟨_, rfl⟩
  rw [← hdef]
  have hlim : 1 ≤ lim ∧ lim ≤ 128 ∧ lim ≤ rest.length + 1 := by
    rw [hdef, List.length_cons]
    split_ifs <;> omega
  by_cases h3 : minRun = 3
  · rw [if_pos h3]
    have h := literalScan3_bounds (b :: rest) (Nat.min_le_right ((b :: rest).length - 2) lim)
      (Nat.le_refl 1) hlim.1
    omega
  · rw [if_neg h3]
    have h := literalScan2_bounds (b :: rest) (Nat.min_le_right ((b :: rest).length - 1) lim)
      (Nat.le_refl 1) hlim.1
    omega

/-- The units from `b` on that repeat it, at most 128. -/
def runLength (b : α) (rest : List α) : Nat := ((rest.take 127).takeWhile (· = b)).length + 1

theorem runLength_le (b : α) (rest : List α) :
    runLength b rest ≤ 128 ∧ runLength b rest ≤ rest.length + 1 := by
  have h := (List.takeWhile_sublist (· = b) (l := rest.take 127)).length_le
  rw [List.length_take] at h
  unfold runLength
  omega

/-- The units of a run are the same. -/
theorem take_runLength (b : α) (rest : List α) :
    (b :: rest).take (runLength b rest) = List.replicate (runLength b rest) b := by
  have hle := runLength_le b rest
  have hrun : rest.take (runLength b rest - 1) = (rest.take 127).takeWhile (· = b) := by
    have htake := List.prefix_iff_eq_take.mp (List.takeWhile_prefix (· = b) (l := rest.take 127))
    rw [List.take_take, Nat.min_eq_left (by unfold runLength at hle; omega)] at htake
    exact htake.symm
  refine List.eq_replicate_iff.mpr ⟨by rw [List.length_take, List.length_cons]; omega, ?_⟩
  intro u hu
  rw [show runLength b rest = runLength b rest - 1 + 1 from rfl, List.take_succ_cons, hrun] at hu
  rcases List.mem_cons.mp hu with rfl | hu
  · rfl
  · exact of_decide_eq_true (List.mem_takeWhile_imp (p := fun u ↦ decide (u = b)) hu)

/-- The loop of the packers, from `p` on: what has been written, and whether a run was seen. -/
def packLoop (k : PackUnit α) (n cap : Nat) (minRun : Int) (p : List α) (o : List UInt8)
    (seenRun : Bool) : Option (List UInt8) :=
  match p with
  | [] => some o
  | b :: rest =>
    let run := runLength b rest
    if minRun ≤ run then
      if cap < o.length + (1 + k.width) then none
      else
        packLoop k n cap minRun (rest.drop (run - 1)) (o ++ UInt8.ofNat (257 - run) :: k.bytes b)
          true
    else
      let lit := literalEnd (b :: rest) minRun
      let bail := if 32 ≤ n then n >>> 2 else n
      if !seenRun ∧ bail ≤ n - (rest.length + 1) + lit then none
      else if cap < o.length + (1 + k.width * lit) then none
      else
        packLoop k n cap minRun (rest.drop (lit - 1))
          (o ++ UInt8.ofNat (lit - 1) :: k.bytesOf ((b :: rest).take lit)) seenRun
termination_by p.length
decreasing_by all_goals simp only [List.length_drop, List.length_cons]; omega

/-- The packers, on `n` units: the bytes written, or `RFB_PB_FAIL`. -/
def packUnits (k : PackUnit α) (u : List α) (cap : Nat) (minRun : Int) : Option (List UInt8) :=
  packLoop k u.length cap (if minRun < 2 then 2 else minRun) u [] false

end Pack

/-- `rfb_packbits()`. -/
def rfbPackbits (u : List UInt8) (cap : Nat) (minRun : Int) : Option (List UInt8) :=
  packUnits byteUnit u cap minRun

/-- `rfb_packbits16()`. -/
def rfbPackbits16 (u : List UInt16) (cap : Nat) (minRun : Int) : Option (List UInt8) :=
  packUnits wordUnit u cap minRun

/-! ### The unpackers -/

/-- What an unpacker ends with: the bytes it has written, `RFB_E_OVERFLOW`, or a copy that leaves a
buffer. -/
inductive Unpacked
  | ok (out : List UInt8)
  | overflow
  | fault
  deriving DecidableEq, Repr

/-- The loop of the unpackers, on what is left of `n` bytes, with what was written of the `outN`
bytes. Behind the byte `c` the index `i` is at `rest`. -/
def unpackLoop {α : Type} (k : PackUnit α) (n outN : Nat) (rest out : List UInt8) : Unpacked :=
  match rest with
  | [] => .ok out
  | c :: rest =>
    let i := n - rest.length
    if c < 128 then
      let lit := k.width * (c.toNat + 1)
      if n < w32 (i + lit) ∨ outN < w32 (out.length + lit) then .overflow
      else if rest.length < lit ∨ outN < out.length + lit then .fault
      else unpackLoop k n outN (rest.drop lit) (out ++ rest.take lit)
    else if 128 < c then
      let run := 257 - c.toNat
      if k.short n i ∨ outN < w32 (out.length + k.width * run) then .overflow
      else if rest.length < k.width ∨ outN < out.length + k.width * run then .fault
      else
        unpackLoop k n outN (rest.drop k.width)
          (out ++ (List.replicate run (rest.take k.width)).flatten)
    else unpackLoop k n outN rest out
termination_by rest.length
decreasing_by all_goals simp only [List.length_drop, List.length_cons]; omega

/-- `rfb_unpackbits()`. -/
def rfbUnpackbits (packed : List UInt8) (outN : Nat) : Unpacked :=
  unpackLoop byteUnit packed.length outN packed []

/-- `rfb_unpackbits16()`. -/
def rfbUnpackbits16 (packed : List UInt8) (outN : Nat) : Unpacked :=
  unpackLoop wordUnit packed.length outN packed []

/-! ### The round trip -/

section Unpacks

variable {α : Type} {k : PackUnit α}

theorem PackUnit.length_bytesOf (u : List α) : (k.bytesOf u).length = k.width * u.length := by
  induction u with
  | nil => rfl
  | cons b u ih =>
    rw [bytesOf, List.flatMap_cons, List.length_append, k.length_bytes, List.length_cons,
      Nat.mul_succ, Nat.add_comm, ← ih, bytesOf]

/-- The bytes `packed` stand for `data`: where both buffers have room for them, the unpacker goes on
behind `packed` with `data` written. -/
def Unpacks (k : PackUnit α) (packed data : List UInt8) : Prop :=
  ∀ n outN rest out, packed.length + rest.length ≤ n → n < 2 ^ 32 →
    out.length + data.length ≤ outN → outN < 2 ^ 32 →
    unpackLoop k n outN (packed ++ rest) out = unpackLoop k n outN rest (out ++ data)

theorem Unpacks.append {p q d e : List UInt8} (hp : Unpacks k p d) (hq : Unpacks k q e) :
    Unpacks k (p ++ q) (d ++ e) := by
  intro n outN rest out hn hn' hout hout'
  rw [List.length_append] at hn hout
  rw [List.append_assoc,
    hp n outN (q ++ rest) out (by rw [List.length_append]; omega) hn' (by omega) hout',
    hq n outN rest (out ++ d) (by omega) hn' (by rw [List.length_append]; omega) hout',
    List.append_assoc]

/-- A literal of at most 128 units. -/
theorem Unpacks.literal {u : List α} (hu : 1 ≤ u.length) (hu' : u.length ≤ 128) :
    Unpacks k (UInt8.ofNat (u.length - 1) :: k.bytesOf u) (k.bytesOf u) := by
  intro n outN rest out hn hn' hout hout'
  rw [List.length_cons] at hn
  have hlen := k.length_bytesOf u
  have hc : (UInt8.ofNat (u.length - 1)).toNat = u.length - 1 :=
    UInt8.toNat_ofNat_of_lt' (by have : UInt8.size = 256 := rfl; omega)
  have hlt : UInt8.ofNat (u.length - 1) < 128 := by
    rw [UInt8.lt_iff_toNat_lt, hc]
    exact Nat.lt_of_lt_of_le (by omega) (Nat.le_refl 128)
  rw [List.cons_append, unpackLoop]
  simp only [hlt, if_true, hc, List.length_append, Nat.sub_add_cancel hu, ← hlen]
  rw [w32_of_lt (by omega), w32_of_lt (by omega), if_neg (by omega), if_neg (by omega),
    List.drop_left, List.take_left]

/-- A run of two to 128 units. -/
theorem Unpacks.run (b : α) {m : Nat} (hm : 2 ≤ m) (hm' : m ≤ 128) :
    Unpacks k (UInt8.ofNat (257 - m) :: k.bytes b) (k.bytesOf (List.replicate m b)) := by
  intro n outN rest out hn hn' hout hout'
  have hlen := k.length_bytesOf (List.replicate m b)
  rw [List.length_replicate] at hlen
  rw [List.length_cons, k.length_bytes] at hn
  have hc : (UInt8.ofNat (257 - m)).toNat = 257 - m :=
    UInt8.toNat_ofNat_of_lt' (by have : UInt8.size = 256 := rfl; omega)
  have hlt : ¬UInt8.ofNat (257 - m) < 128 := by
    rw [UInt8.lt_iff_toNat_lt, hc]
    exact Nat.not_lt.mpr (Nat.le_trans (Nat.le_refl 128) (by omega))
  have hgt : 128 < UInt8.ofNat (257 - m) := by
    rw [UInt8.lt_iff_toNat_lt, hc]
    exact Nat.lt_of_le_of_lt (Nat.le_refl 128) (by omega)
  have hflat : k.bytesOf (List.replicate m b) = (List.replicate m (k.bytes b)).flatten := by
    rw [PackUnit.bytesOf, List.flatMap_def, List.map_replicate]
  rw [List.cons_append, unpackLoop]
  simp only [hlt, hgt, if_true, if_false, hc, List.length_append, k.length_bytes,
    show 257 - (257 - m) = m by omega]
  rw [k.short_of_le _ _ (by omega) hn', w32_of_lt (by omega), if_neg (by simp; omega),
    if_neg (by omega), List.drop_left' (k.length_bytes b), List.take_left' (k.length_bytes b),
    hflat]

end Unpacks

/-- **What the packer writes unpacks to what it reads**, and stays within the capacity. -/
theorem packLoop_unpacks {α : Type} [DecidableEq α] {k : PackUnit α} {n cap : Nat} {minRun : Int}
    (hmin : 2 ≤ minRun) {p : List α} {o out : List UInt8} {seenRun : Bool}
    (ho : o.length ≤ cap) (h : packLoop k n cap minRun p o seenRun = some out) :
    out.length ≤ cap ∧ ∃ packed, out = o ++ packed ∧ Unpacks k packed (k.bytesOf p) := by
  fun_induction packLoop k n cap minRun p o seenRun with
  | case1 o seenRun =>
    obtain rfl := Option.some.inj h
    refine ⟨ho, [], (List.append_nil o).symm, fun n outN rest out _ _ _ _ ↦ ?_⟩
    rw [List.nil_append, PackUnit.bytesOf, List.flatMap_nil, List.append_nil]
  | case2 o seenRun b rest run hrun hcap => cases h
  | case3 o seenRun b rest run hrun hcap ih =>
    have hle := runLength_le b rest
    obtain ⟨hout, packed, rfl, hpacked⟩ := ih (by
      rw [List.length_append, List.length_cons, k.length_bytes]
      omega) h
    refine ⟨hout, _, List.append_assoc o _ packed, ?_⟩
    have hsplit : b :: rest = List.replicate run b ++ rest.drop (run - 1) := by
      rw [← take_runLength b rest]
      exact (List.take_append_drop run (b :: rest)).symm
    rw [hsplit, PackUnit.bytesOf, List.flatMap_append]
    exact (Unpacks.run b (by omega) hle.1).append hpacked
  | case4 o seenRun b rest run hrun lit bail hbail => cases h
  | case5 o seenRun b rest run hrun lit bail hbail hcap => cases h
  | case6 o seenRun b rest run hrun lit bail hbail hcap ih =>
    have hle := literalEnd_bounds b rest minRun
    have hlen : ((b :: rest).take lit).length = lit := by
      rw [List.length_take, List.length_cons]
      omega
    obtain ⟨hout, packed, rfl, hpacked⟩ := ih (by
      rw [List.length_append, List.length_cons, k.length_bytesOf, hlen]
      omega) h
    refine ⟨hout, _, List.append_assoc o _ packed, ?_⟩
    have hsplit : b :: rest = (b :: rest).take lit ++ rest.drop (lit - 1) := by
      have hdrop : (b :: rest).drop (lit - 1 + 1) = rest.drop (lit - 1) := List.drop_succ_cons
      rw [← hdrop, Nat.sub_add_cancel hle.1, List.take_append_drop]
    have hlit : Unpacks k (UInt8.ofNat (lit - 1) :: k.bytesOf ((b :: rest).take lit))
        (k.bytesOf ((b :: rest).take lit)) := by
      have := Unpacks.literal (k := k) (u := (b :: rest).take lit) (by omega) (by omega)
      rwa [hlen] at this
    have happ := hlit.append hpacked
    rwa [PackUnit.bytesOf, PackUnit.bytesOf, ← List.flatMap_append, ← hsplit] at happ

/-- What a packer gives unpacks to its input. -/
theorem packUnits_roundtrip {α : Type} [DecidableEq α] (k : PackUnit α) {u : List α}
    {cap outN : Nat} {minRun : Int} {out : List UInt8} (hcap : cap < 2 ^ 32)
    (hfit : (k.bytesOf u).length ≤ outN) (hout : outN < 2 ^ 32)
    (h : packUnits k u cap minRun = some out) :
    out.length ≤ cap ∧ unpackLoop k out.length outN out [] = .ok (k.bytesOf u) := by
  obtain ⟨hle, packed, rfl, hpacked⟩ := packLoop_unpacks (by split_ifs <;> omega) (Nat.zero_le _) h
  refine ⟨hle, ?_⟩
  have hrun := hpacked _ outN [] [] (Nat.le_refl _) (Nat.lt_of_le_of_lt hle hcap)
    (by simpa using hfit) hout
  rw [List.append_nil, List.nil_append, List.length_nil, Nat.add_zero] at hrun
  rw [hrun, unpackLoop]

/-- Where both buffers leave room for one more piece below `2 ^ 32`, no copy leaves them. -/
theorem unpackLoop_ne_fault {α : Type} {k : PackUnit α} {n outN : Nat}
    (hn : n + 128 * k.width < 2 ^ 32) (hout : outN + 128 * k.width < 2 ^ 32) {rest out : List UInt8}
    (hrest : rest.length ≤ n) (ho : out.length ≤ outN) : unpackLoop k n outN rest out ≠ .fault := by
  fun_induction unpackLoop k n outN rest out with
  | case1 out => exact fun h ↦ by cases h
  | case2 out c rest i hc lit hover => exact fun h ↦ by cases h
  | case3 out c rest i hc lit hover hfault =>
    have hlit : lit ≤ 128 * k.width := by
      rw [Nat.mul_comm 128]
      exact Nat.mul_le_mul_left _ (UInt8.lt_iff_toNat_lt.mp hc)
    rw [List.length_cons] at hrest
    rw [w32_of_lt (by omega), w32_of_lt (by omega)] at hover
    omega
  | case4 out c rest i hc lit hover hfault ih =>
    rw [List.length_cons] at hrest
    exact ih (by rw [List.length_drop]; omega)
      (by rw [List.length_append, List.length_take]; omega)
  | case5 out c rest i hc hc' run hover => exact fun h ↦ by cases h
  | case6 out c rest i hc hc' run hover hfault =>
    have hlit : k.width * run ≤ 128 * k.width := by
      rw [Nat.mul_comm 128]
      have hgt : 128 < c.toNat := UInt8.lt_iff_toNat_lt.mp hc'
      exact Nat.mul_le_mul_left _ (show 257 - c.toNat ≤ 128 by omega)
    rw [List.length_cons] at hrest
    rw [w32_of_lt (by omega), not_or, Bool.not_eq_true] at hover
    have hle := k.le_of_short n i (by omega) hn hover.1
    omega
  | case7 out c rest i hc hc' run hover hfault ih =>
    rw [List.length_cons] at hrest
    refine ih (by rw [List.length_drop]; omega) ?_
    rw [List.length_append, List.length_flatten, List.map_replicate, List.sum_replicate_nat,
      List.length_take, Nat.min_eq_left (by omega), Nat.mul_comm]
    omega
  | case8 out c rest hc hc' ih =>
    rw [List.length_cons] at hrest
    exact ih (by omega) ho

/-- **PackBits.**  What a packer gives, if it does not give up, fits the capacity, and its unpacker
gives the input back where that fits the output buffer. And on arbitrary bytes no unpacker leaves
its buffers, where both lengths leave room for one more piece below `2 ^ 32`. -/
theorem rfbUnpackbits_rfbPackbits :
    (∀ (u : List UInt8) (cap outN : Nat) (minRun : Int) (out : List UInt8), cap < 2 ^ 32 →
      u.length ≤ outN → outN < 2 ^ 32 → rfbPackbits u cap minRun = some out →
      out.length ≤ cap ∧ rfbUnpackbits out outN = .ok u) ∧
    (∀ (u : List UInt16) (cap outN : Nat) (minRun : Int) (out : List UInt8), cap < 2 ^ 32 →
      2 * u.length ≤ outN → outN < 2 ^ 32 → rfbPackbits16 u cap minRun = some out →
      out.length ≤ cap ∧ rfbUnpackbits16 out outN = .ok (wordUnit.bytesOf u)) ∧
    (∀ (packed : List UInt8) (outN : Nat), packed.length + 128 < 2 ^ 32 → outN + 128 < 2 ^ 32 →
      rfbUnpackbits packed outN ≠ .fault) ∧
    (∀ (packed : List UInt8) (outN : Nat), packed.length + 256 < 2 ^ 32 → outN + 256 < 2 ^ 32 →
      rfbUnpackbits16 packed outN ≠ .fault) := by
  refine ⟨fun u cap outN minRun out hcap hfit hout h ↦ ?_,
    fun u cap outN minRun out hcap hfit hout h ↦ ?_, fun packed outN hn hout ↦ ?_,
    fun packed outN hn hout ↦ ?_⟩
  · have hbytes : byteUnit.bytesOf u = u := List.flatMap_singleton' u
    have hround := packUnits_roundtrip byteUnit hcap (by rw [hbytes]; exact hfit) hout h
    rwa [hbytes] at hround
  · exact packUnits_roundtrip wordUnit hcap (by rw [PackUnit.length_bytesOf]; exact hfit) hout h
  · exact unpackLoop_ne_fault (k := byteUnit) hn hout (Nat.le_refl _) (Nat.zero_le _)
  · exact unpackLoop_ne_fault (k := wordUnit) hn hout (Nat.le_refl _) (Nat.zero_le _)

/-- Four equal bytes are a run. -/
theorem rfbUnpackbits_sevens :
    rfbPackbits [7, 7, 7, 7] 10 3 = some [253, 7] ∧ rfbUnpackbits [253, 7] 4 = .ok [7, 7, 7, 7] ∧
      rfbUnpackbits16 [130, 1] 6 ≠ .fault := by
  have hpack : rfbPackbits [7, 7, 7, 7] 10 3 = some [253, 7] := by
    simp [rfbPackbits, packUnits, packLoop, runLength, byteUnit]
  exact ⟨hpack,
    (rfbUnpackbits_rfbPackbits.1 _ 10 4 3 _ (by decide) (by decide) (by decide) hpack).2,
    rfbUnpackbits_rfbPackbits.2.2.2 _ _ (by decide) (by decide)⟩

/-- Zeros are literals of one byte. With an odd number of them the last literal lacks its byte, and
at the end of `2 ^ 32 - 1` bytes the sum that should show it wraps. -/
theorem unpackLoop_zeros {len outN m : Nat} {out : List UInt8} (hlen : len = 2 * m + 1)
    (hn : len ≤ 2 ^ 32 - 1) (hout : out.length + m < outN) (hlt : outN < 2 ^ 32) :
    unpackLoop byteUnit (2 ^ 32 - 1) outN (List.replicate len 0) out = .fault := by
  induction m generalizing len out with
  | zero =>
    subst hlen
    have hout' : ¬outN < w32 (out.length + 1) := by
      rw [w32_of_lt (by omega)]
      omega
    rw [List.replicate_succ, unpackLoop]
    simp [byteUnit, hout']
    decide
  | succ m ih =>
    have hone : Unpacks byteUnit [0, 0] [0] := Unpacks.literal (u := [0]) (by decide) (by decide)
    obtain ⟨len, rfl⟩ : ∃ l, len = l + 2 := ⟨len - 2, by omega⟩
    rw [List.replicate_succ, List.replicate_succ]
    have hstep := hone (2 ^ 32 - 1) outN (List.replicate len 0) out
      (by rw [List.length_replicate]; simp; omega) (by decide) (by simp; omega) hlt
    exact hstep.trans (ih (by omega) (by omega) (by simp; omega))

/-- **A buffer of `2 ^ 32 - 1` bytes**: the unpacker reads past its end. -/
theorem rfbUnpackbits_fault :
    rfbUnpackbits (List.replicate (2 ^ 32 - 1) 0) (2 ^ 31) = .fault := by
  unfold rfbUnpackbits
  rw [List.length_replicate]
  refine unpackLoop_zeros (m := 2 ^ 31 - 1) ?_ (Nat.le_refl _) ?_ ?_
  · decide
  · simp
  · decide

end AmiNetXDuo.Rfb
