import AmiNetXDuo.Netdev.Mcast
import Mathlib.Data.List.Pairwise

/-!
# The multicast table over whole histories

Ranges overlap each other and single joins in one small counted table. In every history whose
deletes name adds that are outstanding, the count of a row is the number of adds that cover its
address, and the filter lets every covered address through.

## Main definitions

* `McastInv` : the table counts a given number of adds for each address.

## Main results

* `McastInv.rangeAdd`, `McastInv.rangeDel` : a range is applied to each of its addresses once.
* `passes_rebuildFilter` : the rebuilt filter lets the addresses of all live rows through.
* `mcast_history` : the table and the filter in every reachable state.
-/

namespace AmiNetXDuo.Netdev

open AmiNetXDuo.Lib AmiNetXDuo.Interleaving

/-! ### Addresses in a row -/

theorem EtherAddr.addr32_lt (a : EtherAddr) : a.addr32 < 2 ^ 32 := by
  have h2 := a.b2.toNat_lt
  have h3 := a.b3.toNat_lt
  have h4 := a.b4.toNat_lt
  have h5 := a.b5.toNat_lt
  rw [EtherAddr.addr32]
  omega

/-- The two parts of an address determine it. -/
theorem EtherAddr.eq_of_parts {a b : EtherAddr} (h16 : a.addr16 = b.addr16)
    (h32 : a.addr32 = b.addr32) : a = b := by
  obtain ⟨a0, a1, a2, a3, a4, a5⟩ := a
  obtain ⟨b0, b1, b2, b3, b4, b5⟩ := b
  simp only [EtherAddr.addr16, EtherAddr.addr32] at h16 h32
  have := a0.toNat_lt
  have := a1.toNat_lt
  have := a2.toNat_lt
  have := a3.toNat_lt
  have := a4.toNat_lt
  have := a5.toNat_lt
  have := b0.toNat_lt
  have := b1.toNat_lt
  have := b2.toNat_lt
  have := b3.toNat_lt
  have := b4.toNat_lt
  have := b5.toNat_lt
  simp only [EtherAddr.mk.injEq, ← UInt8.toNat_inj]
  omega

theorem addr16_mcastNext (a : EtherAddr) : (mcastNext a).addr16 = a.addr16 := by
  rw [mcastNext]
  split_ifs <;> rfl

theorem byte_succ {b : UInt8} (h : b + 1 ≠ 0) : (b + 1).toNat = b.toNat + 1 := by
  have hb := b.toNat_lt
  have hadd : (b + 1).toNat = (b.toNat + 1) % 256 := UInt8.toNat_add b 1
  rw [Ne, ← UInt8.toNat_inj, hadd] at h
  have hzero : (0 : UInt8).toNat = 0 := rfl
  omega

/-- A byte that overflows was the last one. -/
theorem byte_last {b : UInt8} (h : ¬ b + 1 ≠ 0) : b.toNat = 255 := by
  have hb := b.toNat_lt
  have hadd : (b + 1).toNat = (b.toNat + 1) % 256 := UInt8.toNat_add b 1
  rw [not_not, ← UInt8.toNat_inj, hadd] at h
  have hzero : (0 : UInt8).toNat = 0 := rfl
  omega

/-- The next address is one more, as long as the last four bytes do not run over. -/
theorem addr32_mcastNext {a : EtherAddr} (h : a.addr32 + 1 < 2 ^ 32) :
    (mcastNext a).addr32 = a.addr32 + 1 := by
  have hzero : (0 : UInt8).toNat = 0 := rfl
  rw [mcastNext]
  simp only [EtherAddr.addr32] at h ⊢
  split_ifs with hb5 hb4 hb3
  · simp only [byte_succ hb5]
    omega
  · simp only [byte_succ hb4, byte_last hb5, hzero]
    omega
  · simp only [byte_succ hb3, byte_last hb4, byte_last hb5, hzero]
    omega
  · have hb2 : a.b2 + 1 ≠ 0 := by
      intro hb2
      have := byte_last (not_not.mpr hb2)
      have := byte_last hb3
      have := byte_last hb4
      have := byte_last hb5
      omega
    simp only [byte_succ hb2, byte_last hb3, byte_last hb4, byte_last hb5, hzero]
    omega

/-- An address is one of the `n` from `a` on. -/
def EtherAddr.InRun (a : EtherAddr) (n : ℕ) (b : EtherAddr) : Prop :=
  b.addr16 = a.addr16 ∧ a.addr32 ≤ b.addr32 ∧ b.addr32 < a.addr32 + n

instance (a : EtherAddr) (n : ℕ) (b : EtherAddr) : Decidable (a.InRun n b) :=
  inferInstanceAs (Decidable (_ ∧ _))

/-- A run that fits goes on from the next address. -/
theorem EtherAddr.next_fits {a : EtherAddr} {n : ℕ} (h : a.addr32 + (n + 1) ≤ 2 ^ 32) :
    (mcastNext a).addr32 + n ≤ 2 ^ 32 := by
  rcases Nat.eq_zero_or_pos n with rfl | hpos
  · have := (mcastNext a).addr32_lt
    omega
  · have hnext : (mcastNext a).addr32 = a.addr32 + 1 := addr32_mcastNext (by omega)
    omega

/-- A run of addresses is its first one and the run from the next one on. -/
theorem EtherAddr.inRun_succ {a b : EtherAddr} {n : ℕ} (h : a.addr32 + (n + 1) ≤ 2 ^ 32) :
    a.InRun (n + 1) b ↔ b = a ∨ (mcastNext a).InRun n b := by
  constructor
  · rintro ⟨h16, hle, hlt⟩
    by_cases hb : b.addr32 = a.addr32
    · exact Or.inl (EtherAddr.eq_of_parts h16 hb)
    · have hnext : (mcastNext a).addr32 = a.addr32 + 1 := addr32_mcastNext (by omega)
      exact Or.inr ⟨h16.trans (addr16_mcastNext a).symm, by omega, by omega⟩
  · rintro (rfl | ⟨h16, hle, hlt⟩)
    · exact ⟨rfl, Nat.le_refl _, by omega⟩
    · have hnext : (mcastNext a).addr32 = a.addr32 + 1 := addr32_mcastNext (by omega)
      exact ⟨h16.trans (addr16_mcastNext a), by omega, by omega⟩

/-- The first address of a run is not in the rest. -/
theorem EtherAddr.not_inRun_next {a : EtherAddr} {n : ℕ} (h : a.addr32 + (n + 1) ≤ 2 ^ 32) :
    ¬ (mcastNext a).InRun n a := by
  rintro ⟨-, hle, hlt⟩
  have hnext : (mcastNext a).addr32 = a.addr32 + 1 := addr32_mcastNext (by omega)
  omega

/-! ### One row -/

/-- **The table counts.** The references of an address add up to `cover`, no two live rows have the
same address, and no count is past what a UWORD holds. -/
structure McastInv (cover : EtherAddr → ℕ) (t : McastTable) : Prop where
  total_eq : ∀ a, UseTable.total McastRow.addr McastRow.refs t.rows a = cover a
  single : t.rows.Pairwise fun r s ↦ r.refs ≠ 0 → s.refs ≠ 0 → r.addr ≠ s.addr
  refs_le : ∀ r ∈ t.rows, r.refs ≤ 0xFFFF

theorem McastRow.key_eq_some {r : McastRow} {a : EtherAddr} :
    r.key = some a ↔ r.refs ≠ 0 ∧ r.addr = a := by
  rw [McastRow.key]
  split_ifs with h <;> simp [h]

theorem McastRow.key_eq_none {r : McastRow} : r.key = none ↔ r.refs = 0 := by
  rw [McastRow.key]
  split_ifs with h <;> simp [h]

/-- Rows that are not live with an address do not count for it. -/
theorem total_eq_zero_of_key_ne {l : List McastRow} {a : EtherAddr}
    (h : ∀ r ∈ l, r.key ≠ some a) : UseTable.total McastRow.addr McastRow.refs l a = 0 := by
  induction l with
  | nil => rfl
  | cons r l ih =>
    have hrest := ih fun s hs ↦ h s (List.mem_cons_of_mem r hs)
    have hr := h r List.mem_cons_self
    rw [UseTable.total_cons, hrest]
    split_ifs with haddr
    · by_contra hne
      exact hr (McastRow.key_eq_some.mpr ⟨by omega, haddr⟩)
    · rfl

namespace McastInv

variable {cover cover' : EtherAddr → ℕ} {t t' : McastTable} {a : EtherAddr}

/-- The rows around one of them: they can be taken in any order. -/
theorem single_split {b c : List McastRow} {r : McastRow} (h : McastInv cover t)
    (hrows : t.rows = b ++ r :: c) :
    (∀ s ∈ b ++ c, r.refs ≠ 0 → s.refs ≠ 0 → r.addr ≠ s.addr) ∧
      (b ++ c).Pairwise fun r s ↦ r.refs ≠ 0 → s.refs ≠ 0 → r.addr ≠ s.addr := by
  have hsingle := h.single
  rw [hrows, List.pairwise_middle fun hrs hs hr ↦ (hrs hr hs).symm] at hsingle
  exact List.pairwise_cons.mp hsingle

/-- **What a look-up finds**: the address with its count, when it has one. -/
theorem find_eq (h : McastInv cover t) (a : EtherAddr) :
    mcastFind t a = if cover a = 0 then none else some ⟨a, cover a⟩ := by
  have htotal := h.total_eq a
  cases hfind : mcastFind t a with
  | none =>
    have hnone := (UseTable.first_eq_none McastRow.key).mp hfind
    rw [total_eq_zero_of_key_ne hnone] at htotal
    rw [if_pos htotal.symm]
  | some r =>
    obtain ⟨b, c, hrows, hb, hkey, -, -⟩ := UseTable.exists_split McastRow.key hfind
    obtain ⟨hlive, haddr⟩ := McastRow.key_eq_some.mp hkey
    have hc : ∀ s ∈ c, s.key ≠ some a := by
      intro s hs hs'
      obtain ⟨hlive', haddr'⟩ := McastRow.key_eq_some.mp hs'
      exact (h.single_split hrows).1 s (List.mem_append_right b hs) hlive hlive'
        (haddr.trans haddr'.symm)
    rw [hrows, UseTable.total_append, UseTable.total_cons, if_pos haddr,
      total_eq_zero_of_key_ne hb, total_eq_zero_of_key_ne hc] at htotal
    have hrefs : r.refs = cover a := by omega
    rw [if_neg (by omega), ← hrefs, ← haddr]

/-- Changing the count of the row at a split. -/
theorem set {key : Option EtherAddr} {f : McastRow → McastRow} {r : McastRow}
    (h : McastInv cover t) (hfirst : UseTable.first McastRow.key key t.rows = some r)
    (haddr : (f r).addr = a) (hle : (f r).refs ≤ 0xFFFF)
    (hkey : key = some a ∨ (key = none ∧ cover a = 0))
    (hcount : (f r).refs + cover a = r.refs + cover' a)
    (hother : ∀ b, b ≠ a → cover' b = cover b) : McastInv cover' (t.set key f) := by
  obtain ⟨b, c, hrows, -, hr, hset, -⟩ := UseTable.exists_split McastRow.key hfirst
  have hrows' : (t.set key f).rows = b ++ f r :: c := hset f
  have hsplit := h.single_split hrows
  -- no other row is live with the address
  have hothers : ∀ s ∈ b ++ c, s.key ≠ some a := by
    intro s hs hs'
    obtain ⟨hlive, hsa⟩ := McastRow.key_eq_some.mp hs'
    rcases hkey with hkey | ⟨hkey, hzero⟩
    · obtain ⟨hrlive, hra⟩ := McastRow.key_eq_some.mp (hr.trans hkey)
      exact hsplit.1 s hs hrlive hlive (hra.trans hsa.symm)
    · have hfind := h.find_eq a
      rw [if_pos hzero] at hfind
      exact (UseTable.first_eq_none McastRow.key).mp hfind s
        (hrows ▸ List.perm_middle.mem_iff.mpr (List.mem_cons_of_mem r hs)) hs'
  have hrefs : r.refs = cover a ∧ (r.refs ≠ 0 → r.addr = a) := by
    rcases hkey with hkey | ⟨hkey, hzero⟩
    · have hfind := h.find_eq a
      rw [mcastFind, ← hkey, hfirst] at hfind
      split_ifs at hfind with hcover
      obtain rfl := Option.some.inj hfind
      exact ⟨rfl, fun _ ↦ rfl⟩
    · have hfree := McastRow.key_eq_none.mp (hr.trans hkey)
      exact ⟨hfree.trans hzero.symm, fun hne ↦ absurd hfree hne⟩
  refine ⟨fun x ↦ ?_, ?_, fun s hs ↦ ?_⟩
  · have htotal := h.total_eq x
    rw [hrows, UseTable.total_append, UseTable.total_cons] at htotal
    rw [hrows', UseTable.total_append, UseTable.total_cons, haddr]
    by_cases hx : x = a
    · subst hx
      have hb := total_eq_zero_of_key_ne fun s hs ↦ hothers s (List.mem_append_left c hs)
      have hc := total_eq_zero_of_key_ne fun s hs ↦ hothers s (List.mem_append_right b hs)
      rw [if_pos rfl, hb, hc]
      omega
    · have hzero : (if r.addr = x then r.refs else 0) = 0 := by
        split_ifs with hrx
        · by_contra hne
          exact hx (hrx.symm.trans (hrefs.2 hne))
        · rfl
      rw [hzero] at htotal
      rw [if_neg (Ne.symm hx), hother x hx]
      exact htotal
  · rw [hrows', List.pairwise_middle fun hrs hs hr ↦ (hrs hr hs).symm]
    refine List.pairwise_cons.mpr ⟨fun s hs _ hlive he ↦ ?_, hsplit.2⟩
    exact hothers s hs (McastRow.key_eq_some.mpr ⟨hlive, he.symm.trans haddr⟩)
  · rw [hrows'] at hs
    rcases List.mem_cons.mp (List.perm_middle.mem_iff.mp hs) with rfl | hs
    · exact hle
    · exact h.refs_le s (hrows ▸ List.perm_middle.mem_iff.mpr (List.mem_cons_of_mem r hs))

/-- A join is counted once. -/
theorem add (h : McastInv cover t) (hadd : mcastAdd t a = some t')
    (hcount : cover' a = cover a + 1) (hother : ∀ b, b ≠ a → cover' b = cover b) :
    McastInv cover' t' := by
  have hfind := h.find_eq a
  rw [mcastAdd] at hadd
  split_ifs at hfind with hzero
  · simp only [hfind] at hadd
    split_ifs at hadd with hfree
    obtain rfl := Option.some.inj hadd
    obtain ⟨r, hr⟩ := Option.isSome_iff_exists.mp hfree
    have hrefs := McastRow.key_eq_none.mp (UseTable.first_key McastRow.key hr)
    refine h.set hr rfl (by simp) (Or.inr ⟨rfl, hzero⟩) ?_ hother
    simp only
    omega
  · simp only [hfind] at hadd
    split_ifs at hadd with hfull
    obtain rfl := Option.some.inj hadd
    have hle := h.refs_le _ (UseTable.first_mem McastRow.key hfind)
    simp only at hle
    refine h.set hfind rfl ?_ (Or.inl rfl) ?_ hother
    · simp only
      omega
    · simp only
      omega

/-- A leave of an address that is joined is counted once. -/
theorem del (h : McastInv cover t) (hcount : cover a = cover' a + 1)
    (hother : ∀ b, b ≠ a → cover' b = cover b) :
    ∃ t', mcastDel t a = some t' ∧ McastInv cover' t' := by
  have hfind := h.find_eq a
  rw [if_neg (by omega)] at hfind
  have hle := h.refs_le _ (UseTable.first_mem McastRow.key hfind)
  simp only at hle
  refine ⟨_, by rw [mcastDel, hfind], h.set hfind rfl ?_ (Or.inl rfl) ?_ hother⟩
  · simp only
    omega
  · simp only
    omega

end McastInv

/-! ### Ranges -/

/-- The preflight looks only at the addresses of the range. -/
theorem mcastRangeNeeds_congr {t t' : McastTable} {n : ℕ} {a : EtherAddr}
    (hn : a.addr32 + n ≤ 2 ^ 32) (h : ∀ b, a.InRun n b → mcastFind t b = mcastFind t' b) :
    mcastRangeNeeds t n a = mcastRangeNeeds t' n a := by
  induction n generalizing a with
  | zero => rfl
  | succ n ih =>
    have hhead : mcastFind t a = mcastFind t' a :=
      h a ((EtherAddr.inRun_succ hn).mpr (Or.inl rfl))
    have htail : mcastRangeNeeds t n (mcastNext a) = mcastRangeNeeds t' n (mcastNext a) := by
      exact ih (EtherAddr.next_fits hn) fun b hb ↦
        h b ((EtherAddr.inRun_succ hn).mpr (Or.inr hb))
    rw [mcastRangeNeeds, mcastRangeNeeds, hhead, htail]

theorem freeRows_set {t : McastTable} {key : Option EtherAddr} {f : McastRow → McastRow}
    {r : McastRow} (h : UseTable.first McastRow.key key t.rows = some r) :
    (t.set key f).freeRows + (if r.refs = 0 then 1 else 0) =
      t.freeRows + if (f r).refs = 0 then 1 else 0 := by
  obtain ⟨b, c, hrows, -, -, hset, -⟩ := UseTable.exists_split McastRow.key h
  have hrows' : (t.set key f).rows = b ++ f r :: c := hset f
  rw [McastTable.freeRows, McastTable.freeRows, hrows, hrows', List.countP_append,
    List.countP_append, List.countP_cons, List.countP_cons]
  simp only [decide_eq_true_eq]
  omega

/-- A run of no addresses counts nothing. -/
theorem cover_zero {cover : EtherAddr → ℕ} {a : EtherAddr} :
    (fun b ↦ cover b + if a.InRun 0 b then 1 else 0) = cover := by
  funext b
  rw [if_neg, Nat.add_zero]
  rintro ⟨-, hle, hlt⟩
  omega

/-- Counting a run is counting its first address and the rest. -/
theorem cover_succ {cover : EtherAddr → ℕ} {a : EtherAddr} {n : ℕ}
    (hn : a.addr32 + (n + 1) ≤ 2 ^ 32) :
    (fun b ↦ cover b + if a.InRun (n + 1) b then 1 else 0) =
      fun b ↦ cover b + (if b = a then 1 else 0) +
        if (mcastNext a).InRun n b then 1 else 0 := by
  funext b
  by_cases hb : b = a
  · subst hb
    rw [if_pos ((EtherAddr.inRun_succ hn).mpr (Or.inl rfl)), if_pos rfl,
      if_neg (EtherAddr.not_inRun_next hn)]
  · simp only [EtherAddr.inRun_succ hn, hb, false_or, if_false, Nat.add_zero]

namespace McastInv

variable {cover : EtherAddr → ℕ} {t : McastTable} {a : EtherAddr}

/-- What the preflight found at the first address of a range is enough to join it, and what it
found for the rest still holds afterwards. -/
theorem add_of_needs (h : McastInv cover t) {n k : ℕ} (hn : a.addr32 + (n + 1) ≤ 2 ^ 32)
    (hneeds : mcastRangeNeeds t (n + 1) a = some k) (hfree : k ≤ t.freeRows) :
    ∃ t' k', mcastAdd t a = some t' ∧
      McastInv (fun b ↦ cover b + if b = a then 1 else 0) t' ∧
      mcastRangeNeeds t' n (mcastNext a) = some k' ∧ k' ≤ t'.freeRows := by
  have hfind := h.find_eq a
  -- the rest of the range does not have `a` in it, so it looks the same after the join
  have hrest : ∀ {t'}, McastInv (fun b ↦ cover b + if b = a then 1 else 0) t' →
      mcastRangeNeeds t' n (mcastNext a) = mcastRangeNeeds t n (mcastNext a) := by
    intro t' h'
    refine mcastRangeNeeds_congr (EtherAddr.next_fits hn) fun b hb ↦ ?_
    have hne : b ≠ a := by
      rintro rfl
      exact EtherAddr.not_inRun_next hn hb
    rw [h'.find_eq, h.find_eq, if_neg hne, Nat.add_zero]
  have hup : cover a + (if a = a then 1 else 0) = cover a + 1 := by rw [if_pos rfl]
  have hother : ∀ b, b ≠ a → cover b + (if b = a then 1 else 0) = cover b :=
    fun b hb ↦ by rw [if_neg hb, Nat.add_zero]
  rw [mcastRangeNeeds] at hneeds
  by_cases hzero : cover a = 0
  · rw [if_pos hzero] at hfind
    simp only [hfind, Option.map_eq_some_iff] at hneeds
    obtain ⟨k', hk', rfl⟩ := hneeds
    have hsome : (UseTable.first McastRow.key none t.rows).isSome := by
      have hpos : 0 < t.freeRows := by omega
      obtain ⟨r, hr, hfree⟩ := List.countP_pos_iff.mp hpos
      rw [← Option.ne_none_iff_isSome]
      intro hnone
      exact (UseTable.first_eq_none McastRow.key).mp hnone r hr
        (McastRow.key_eq_none.mpr (by simpa using hfree))
    have hadd : mcastAdd t a = some (t.set none fun _ ↦ ⟨a, 1⟩) := by
      rw [mcastAdd, hfind]
      simp only [if_pos hsome]
    have hinv := h.add hadd hup hother
    obtain ⟨r, hr⟩ := Option.isSome_iff_exists.mp hsome
    have hcount := freeRows_set (f := fun _ ↦ ⟨a, 1⟩) hr
    have hrefs := McastRow.key_eq_none.mp (UseTable.first_key McastRow.key hr)
    rw [if_pos hrefs, if_neg (by simp)] at hcount
    exact ⟨_, k', hadd, hinv, (hrest hinv).trans hk', by omega⟩
  · rw [if_neg hzero] at hfind
    simp only [hfind] at hneeds
    split_ifs at hneeds with hfull
    have hadd : mcastAdd t a = some (t.set (some a) fun r ↦ { r with refs := r.refs + 1 }) := by
      rw [mcastAdd, hfind]
      simp only [if_neg hfull]
    have hinv := h.add hadd hup hother
    have hcount := freeRows_set (f := fun r ↦ { r with refs := r.refs + 1 }) hfind
    rw [if_neg hzero, if_neg (by simp)] at hcount
    exact ⟨_, k, hadd, hinv, (hrest hinv).trans hneeds, by omega⟩

/-- **A range that passed the preflight** joins each of its addresses once. -/
theorem rangeAdd {n k : ℕ} {c : ℕ} (h : McastInv cover t) (hn : a.addr32 + n ≤ 2 ^ 32)
    (hneeds : mcastRangeNeeds t n a = some k) (hfree : k ≤ t.freeRows) :
    McastInv (fun b ↦ cover b + if a.InRun n b then 1 else 0)
        (mcastRangeLoop true n a (t, c)).1 ∧
      (mcastRangeLoop true n a (t, c)).2 = c + n := by
  induction n generalizing a t cover k c with
  | zero =>
    rw [cover_zero]
    exact ⟨h, rfl⟩
  | succ n ih =>
    obtain ⟨t', k', hadd, hinv, hneeds', hfree'⟩ := h.add_of_needs hn hneeds hfree
    rw [mcastRangeLoop]
    simp only [if_true, hadd, Option.getD_some]
    obtain ⟨hinv', hcount⟩ := ih (c := c + 1) hinv (EtherAddr.next_fits hn) hneeds' hfree'
    refine ⟨?_, by omega⟩
    rw [cover_succ hn]
    exact hinv'

/-- **A range that is joined** is left at each of its addresses once. -/
theorem rangeDel {n c : ℕ} (h : McastInv (fun b ↦ cover b + if a.InRun n b then 1 else 0) t)
    (hn : a.addr32 + n ≤ 2 ^ 32) :
    McastInv cover (mcastRangeLoop false n a (t, c)).1 ∧
      (mcastRangeLoop false n a (t, c)).2 = c + n := by
  induction n generalizing a t c with
  | zero =>
    rw [cover_zero] at h
    exact ⟨h, rfl⟩
  | succ n ih =>
    rw [cover_succ hn] at h
    have hcount : cover a + (if a = a then 1 else 0) +
        (if (mcastNext a).InRun n a then 1 else 0) =
        cover a + (if (mcastNext a).InRun n a then 1 else 0) + 1 := by
      rw [if_pos rfl]
      omega
    obtain ⟨t', hdel, hinv⟩ : ∃ t', mcastDel t a = some t' ∧
        McastInv (fun b ↦ cover b + if (mcastNext a).InRun n b then 1 else 0) t' :=
      h.del hcount fun b hb ↦ by simp only [if_neg hb, Nat.add_zero]
    obtain ⟨hinv', hcount'⟩ := ih (c := c + 1) hinv (EtherAddr.next_fits hn)
    rw [mcastRangeLoop]
    simp only [Bool.false_eq_true, if_false, hdel]
    exact ⟨hinv', by omega⟩

/-- A range add either refuses or joins each address of the range once. -/
theorem rangeApply_add {n : ℕ} {t' : McastTable} (h : McastInv cover t) (hn : a.addr32 + n ≤ 2 ^ 32)
    (happly : mcastRangeApply t a n true = some t') :
    McastInv (fun b ↦ cover b + if a.InRun n b then 1 else 0) t' := by
  rw [mcastRangeApply, if_pos rfl] at happly
  cases hneeds : mcastRangeNeeds t n a with
  | none => simp [hneeds] at happly
  | some k =>
    simp only [hneeds, mcastRangeApply.finish] at happly
    split_ifs at happly with hfree hcount
    obtain rfl := Option.some.inj happly
    exact (h.rangeAdd hn hneeds (Nat.not_lt.mp hfree)).1

/-- A range delete of a range that is joined succeeds. -/
theorem rangeApply_del {n : ℕ} (h : McastInv (fun b ↦ cover b + if a.InRun n b then 1 else 0) t)
    (hn : a.addr32 + n ≤ 2 ^ 32) (hpos : 0 < n) :
    ∃ t', mcastRangeApply t a n false = some t' ∧ McastInv cover t' := by
  obtain ⟨hinv, hcount⟩ := h.rangeDel (c := 0) hn
  refine ⟨_, ?_, hinv⟩
  rw [mcastRangeApply, if_neg (by simp), mcastRangeApply.finish, if_pos (by omega)]

end McastInv

/-! ### The filter -/

theorem marBit_ne_zero (hash : UInt32) : marBit hash ≠ 0 := by
  have hall : ∀ n : Fin 8, (1 : UInt8) <<< (UInt8.ofNat n.val) ≠ 0 := by decide
  have hlt : (hash &&& 7).toNat < 8 := by
    rw [UInt32.toNat_and]
    exact Nat.lt_succ_of_le Nat.and_le_right
  have hsmall : (hash &&& 7).toUInt8 = UInt8.ofNat (hash &&& 7).toNat := by
    rw [← UInt8.toNat_inj]
    simp
  rw [marBit, hsmall]
  exact hall ⟨(hash &&& 7).toNat, hlt⟩

section Filter

variable {lance : Bool} {mar : Mar} {a b : EtherAddr}

/-- A bit that is set stays set when others are. -/
theorem byte_or_and {x y z : UInt8} (h : x &&& z ≠ 0) : (x ||| y) &&& z ≠ 0 := by
  intro hzero
  refine h (UInt8.toBitVec_inj.mp (BitVec.eq_of_getLsbD_eq fun i hi ↦ ?_))
  have hbit := congrArg (fun v : UInt8 ↦ v.toBitVec.getLsbD i) hzero
  simp only [UInt8.toBitVec_and, UInt8.toBitVec_or, BitVec.getLsbD_and, BitVec.getLsbD_or] at hbit ⊢
  cases hx : x.toBitVec.getLsbD i with
  | false =>
    rw [Bool.false_and]
    simp
  | true =>
    rw [hx, Bool.true_or] at hbit
    exact hbit

theorem marPasses_marSet_self : marPasses lance (marSet lance mar a) a = true := by
  rw [marPasses, marSet, Function.update_self, decide_eq_true_eq, UInt8.or_comm]
  refine byte_or_and ?_
  rw [UInt8.and_self]
  exact marBit_ne_zero _

theorem marPasses_marSet (h : marPasses lance mar a = true) :
    marPasses lance (marSet lance mar b) a = true := by
  rw [marPasses, decide_eq_true_eq] at h ⊢
  rw [marSet]
  by_cases hbyte : marByte (marHash lance a) = marByte (marHash lance b)
  · rw [hbyte, Function.update_self]
    rw [hbyte] at h
    exact byte_or_and h
  · rwa [Function.update_of_ne hbyte]

/-- What passes before rows are filed passes afterwards. -/
theorem marPasses_foldl (rows : List McastRow) (h : marPasses lance mar a = true) :
    marPasses lance (rows.foldl
      (fun mar r ↦ if r.refs ≠ 0 then marSet lance mar r.addr else mar) mar) a = true := by
  induction rows generalizing mar with
  | nil => exact h
  | cons r rows ih =>
    rw [List.foldl_cons]
    refine ih ?_
    split_ifs
    · exact marPasses_marSet h
    · exact h

/-- Every live row passes once it is filed. -/
theorem marPasses_foldl_of_mem {rows : List McastRow} {r : McastRow} (hr : r ∈ rows)
    (hlive : r.refs ≠ 0) :
    marPasses lance (rows.foldl
      (fun mar r ↦ if r.refs ≠ 0 then marSet lance mar r.addr else mar) mar) r.addr = true := by
  induction rows generalizing mar with
  | nil => exact absurd hr List.not_mem_nil
  | cons s rows ih =>
    rw [List.foldl_cons]
    rcases List.mem_cons.mp hr with rfl | hr
    · rw [if_pos hlive]
      exact marPasses_foldl rows marPasses_marSet_self
    · exact ih hr

/-- An open filter lets every group through. -/
theorem marPasses_ones (a : EtherAddr) : marPasses lance (fun _ ↦ 0xFF) a = true := by
  have hones : ∀ x : UInt8, 0xFF &&& x = x := fun x ↦ UInt8.neg_one_and (a := x)
  rw [marPasses, decide_eq_true_eq, hones]
  exact marBit_ne_zero _

end Filter

theorem passes_rebuildFilter_wide {u : McastUnit} (h : u.allMulti ≠ 0) (a : EtherAddr) :
    marPasses u.lance (rebuildFilter u).mar a = true := by
  have hmar : (rebuildFilter u).mar = fun _ ↦ 0xFF := by
    rw [rebuildFilter]
    simp only [h, ne_eq, not_false_eq_true, decide_true, Bool.or_true, if_true]
  rw [hmar]
  exact marPasses_ones a

/-- **The rebuilt filter** lets the address of every live row through. -/
theorem passes_rebuildFilter {u : McastUnit} {r : McastRow} (hr : r ∈ u.table.rows)
    (hlive : r.refs ≠ 0) : marPasses u.lance (rebuildFilter u).mar r.addr = true := by
  by_cases hopen : (u.promisc || u.allMulti ≠ 0) = true
  · have hmar : (rebuildFilter u).mar = fun _ ↦ 0xFF := by
      rw [rebuildFilter]
      simp only [if_pos hopen]
    rw [hmar]
    exact marPasses_ones r.addr
  · have hmar : (rebuildFilter u).mar = u.table.rows.foldl
        (fun mar r ↦ if r.refs ≠ 0 then marSet u.lance mar r.addr else mar) fun _ ↦ 0 := by
      rw [rebuildFilter]
      simp only [if_neg hopen]
    rw [hmar]
    exact marPasses_foldl_of_mem hr hlive

/-! ### Histories -/

/-- How many outstanding narrow adds cover an address. -/
def McastWorld.cover (joins : List McastJoin) (a : EtherAddr) : ℕ :=
  joins.countP (McastJoin.covers a)

/-- What holds in every state of a history. -/
structure McastWorldInv (w : McastWorld) : Prop where
  table : McastInv (McastWorld.cover w.joins) w.hw.table
  wide : w.hw.allMulti = w.joins.countP McastJoin.wide
  passes : ∀ a, 0 < McastWorld.cover w.joins a → marPasses w.hw.lance w.hw.mar a = true
  passes_wide : 0 < w.joins.countP McastJoin.wide → ∀ a, marPasses w.hw.lance w.hw.mar a = true

/-- An applied command programs a filter that is right for the adds outstanding then. -/
theorem McastWorldInv.applied {u : McastUnit} {joins : List McastJoin}
    (htable : McastInv (McastWorld.cover joins) u.table)
    (hwide : u.allMulti = joins.countP McastJoin.wide) :
    McastWorldInv ⟨rebuildFilter u, joins⟩ := by
  have hlance : (rebuildFilter u).lance = u.lance := rfl
  refine ⟨htable, hwide, fun a ha ↦ ?_, fun h a ↦ ?_⟩
  · have hpos : McastWorld.cover joins a ≠ 0 := Nat.pos_iff_ne_zero.mp ha
    have hfind := htable.find_eq a
    rw [if_neg hpos] at hfind
    have hpasses := passes_rebuildFilter (UseTable.first_mem McastRow.key hfind) hpos
    simp only [hlance]
    exact hpasses
  · have hopen : u.allMulti ≠ 0 := by
      rw [hwide]
      exact Nat.pos_iff_ne_zero.mp h
    have hpasses := passes_rebuildFilter_wide hopen a
    simp only [hlance]
    exact hpasses

/-- A narrow range is the run of its addresses. -/
theorem mcastRangeCount_eq_some {lo hi : EtherAddr} {n : ℕ} (h : mcastRangeCount lo hi = some n) :
    0 < n ∧ lo.addr32 + n ≤ 2 ^ 32 ∧
      ∀ a, McastJoin.covers a (.range lo hi) = true ↔ lo.InRun n a := by
  have hhi := hi.addr32_lt
  have hsome : (mcastRangeCount lo hi).isSome = true := by rw [h]; rfl
  have hcovers : ∀ a, McastJoin.covers a (.range lo hi) = true ↔
      (lo.addr16 = a.addr16 ∧ lo.addr32 ≤ a.addr32) ∧ a.addr32 ≤ hi.addr32 := by
    intro a
    simp only [McastJoin.covers, hsome, Bool.true_and, Bool.and_eq_true, decide_eq_true_eq]
  rw [mcastRangeCount] at h
  split_ifs at h with hbad hwide
  have hn := Option.some.inj h
  simp only [not_or, not_not, Nat.not_lt] at hbad
  refine ⟨by omega, by omega, fun a ↦ ?_⟩
  rw [hcovers]
  constructor
  · rintro ⟨⟨h16, hle⟩, hle'⟩
    exact ⟨h16.symm, hle, by omega⟩
  · rintro ⟨h16, hle, hlt⟩
    exact ⟨⟨h16.symm, hle⟩, by omega⟩

theorem McastWorld.cover_cons_single (joins : List McastJoin) (addr : EtherAddr) :
    McastWorld.cover (.single addr :: joins) =
      fun a ↦ McastWorld.cover joins a + if a = addr then 1 else 0 := by
  funext a
  rw [McastWorld.cover, McastWorld.cover, List.countP_cons]
  simp only [McastJoin.covers, decide_eq_true_eq, eq_comm (a := addr)]

theorem McastWorld.cover_cons_range (joins : List McastJoin) {lo hi : EtherAddr} {n : ℕ}
    (h : mcastRangeCount lo hi = some n) :
    McastWorld.cover (.range lo hi :: joins) =
      fun a ↦ McastWorld.cover joins a + if lo.InRun n a then 1 else 0 := by
  funext a
  rw [McastWorld.cover, McastWorld.cover, List.countP_cons]
  simp only [(mcastRangeCount_eq_some h).2.2 a]

theorem McastWorld.cover_cons_wide (joins : List McastJoin) {lo hi : EtherAddr}
    (h : mcastRangeCount lo hi = none) :
    McastWorld.cover (.range lo hi :: joins) = McastWorld.cover joins := by
  funext a
  rw [McastWorld.cover, McastWorld.cover, List.countP_cons]
  simp [McastJoin.covers, h]

/-- An add that is outstanding counts beside the others. -/
theorem McastWorld.cover_erase {joins : List McastJoin} {j : McastJoin} (h : j ∈ joins) :
    McastWorld.cover joins = McastWorld.cover (j :: joins.erase j) := by
  funext a
  exact (List.perm_cons_erase h).countP_eq _

theorem countP_wide_erase {joins : List McastJoin} {j : McastJoin} (h : j ∈ joins) :
    joins.countP McastJoin.wide = (j :: joins.erase j).countP McastJoin.wide :=
  (List.perm_cons_erase h).countP_eq _

/-- A refused command changes nothing but a counter. -/
theorem mcastFinish_none (u : McastUnit) (add : Bool) :
    (mcastFinish u add none).2 ≠ .ok ∧
      ∃ n, (mcastFinish u add none).1 = { u with mcastFull := n } := by
  cases add with
  | false => exact ⟨McastReply.noConfusion, u.mcastFull, rfl⟩
  | true => exact ⟨McastReply.noConfusion, u.mcastFull + 1, rfl⟩

theorem mcastFinish_refused {u : McastUnit} {add : Bool} {applied : Option McastUnit}
    (h : (mcastFinish u add applied).2 ≠ .ok) :
    ∃ n, (mcastFinish u add applied).1 = { u with mcastFull := n } := by
  cases applied with
  | none => exact (mcastFinish_none u add).2
  | some u' => exact absurd rfl h

/-- A command keeps what holds, when its change does. -/
theorem McastWorldInv.command {w : McastWorld} {add : Bool} {bad : Prop} [Decidable bad]
    {applied : Option McastUnit} {joins : List McastJoin} {r : McastUnit × McastReply}
    (hr : r = if bad then (w.hw, .badAddress) else mcastFinish w.hw add applied)
    (h : McastWorldInv w)
    (happlied : ∀ u, applied = some u →
      McastInv (McastWorld.cover joins) u.table ∧ u.allMulti = joins.countP McastJoin.wide) :
    McastWorldInv ⟨r.1, if r.2 = .ok then joins else w.joins⟩ := by
  by_cases hbad : bad
  · rw [hr, if_pos hbad]
    exact h
  · rw [hr, if_neg hbad]
    cases applied with
    | none =>
      obtain ⟨hreply, n, hunit⟩ := mcastFinish_none w.hw add
      rw [if_neg hreply, hunit]
      exact ⟨h.table, h.wide, h.passes, h.passes_wide⟩
    | some u =>
      obtain ⟨htable, hwide⟩ := happlied u rfl
      exact McastWorldInv.applied htable hwide

section Commands

variable {w : McastWorld} {addr lo hi : EtherAddr}

theorem McastWorldInv.add (h : McastWorldInv w) :
    McastWorldInv ⟨(cmdMulticastAddress w.hw addr true).1,
      if (cmdMulticastAddress w.hw addr true).2 = .ok then .single addr :: w.joins
      else w.joins⟩ := by
  refine McastWorldInv.command (by rw [cmdMulticastAddress]) h fun u hu ↦ ?_
  obtain ⟨t, ht, rfl⟩ := Option.map_eq_some_iff.mp hu
  rw [if_pos rfl] at ht
  refine ⟨h.table.add ht ?_ fun b hb ↦ ?_, ?_⟩
  · simp [McastWorld.cover_cons_single]
  · simp [McastWorld.cover_cons_single, hb]
  · simp [McastJoin.wide, h.wide]

theorem McastWorldInv.del (h : McastWorldInv w) (hjoin : .single addr ∈ w.joins) :
    McastWorldInv ⟨(cmdMulticastAddress w.hw addr false).1,
      if (cmdMulticastAddress w.hw addr false).2 = .ok then w.joins.erase (.single addr)
      else w.joins⟩ := by
  have htable := h.table
  have hwide := h.wide
  rw [McastWorld.cover_erase hjoin, McastWorld.cover_cons_single] at htable
  rw [countP_wide_erase hjoin] at hwide
  refine McastWorldInv.command (by rw [cmdMulticastAddress]) h fun u hu ↦ ?_
  obtain ⟨t, ht, rfl⟩ := Option.map_eq_some_iff.mp hu
  obtain ⟨t', ht', hinv⟩ : ∃ t', mcastDel w.hw.table addr = some t' ∧
      McastInv (McastWorld.cover (w.joins.erase (.single addr))) t' :=
    htable.del (by simp) fun b hb ↦ by simp [hb]
  rw [if_neg (by decide), ht'] at ht
  obtain rfl := Option.some.inj ht
  exact ⟨hinv, by simpa [McastJoin.wide] using hwide⟩

theorem McastWorldInv.addRange (h : McastWorldInv w) :
    McastWorldInv ⟨(cmdMulticastRange w.hw lo hi true).1,
      if (cmdMulticastRange w.hw lo hi true).2 = .ok then .range lo hi :: w.joins
      else w.joins⟩ := by
  refine McastWorldInv.command (by rw [cmdMulticastRange]) h fun u hu ↦ ?_
  cases hcount : mcastRangeCount lo hi with
  | none =>
    simp only [hcount, if_true] at hu
    split_ifs at hu with hfull
    obtain rfl := Option.some.inj hu
    rw [McastWorld.cover_cons_wide _ hcount]
    exact ⟨h.table, by simp [McastJoin.wide, hcount, h.wide]⟩
  | some n =>
    obtain ⟨-, hfits, -⟩ := mcastRangeCount_eq_some hcount
    simp only [hcount] at hu
    obtain ⟨t, ht, rfl⟩ := Option.map_eq_some_iff.mp hu
    rw [McastWorld.cover_cons_range _ hcount]
    exact ⟨h.table.rangeApply_add hfits ht, by simp [McastJoin.wide, hcount, h.wide]⟩

theorem McastWorldInv.delRange (h : McastWorldInv w) (hjoin : .range lo hi ∈ w.joins) :
    McastWorldInv ⟨(cmdMulticastRange w.hw lo hi false).1,
      if (cmdMulticastRange w.hw lo hi false).2 = .ok then w.joins.erase (.range lo hi)
      else w.joins⟩ := by
  have htable := h.table
  have hwide := h.wide
  rw [McastWorld.cover_erase hjoin] at htable
  rw [countP_wide_erase hjoin, List.countP_cons] at hwide
  refine McastWorldInv.command (by rw [cmdMulticastRange]) h fun u hu ↦ ?_
  cases hcount : mcastRangeCount lo hi with
  | none =>
    rw [McastWorld.cover_cons_wide _ hcount] at htable
    simp only [hcount, Bool.false_eq_true, if_false] at hu
    split_ifs at hu with hfull
    obtain rfl := Option.some.inj hu
    refine ⟨htable, ?_⟩
    simp only [McastJoin.wide, hcount, Option.isNone_none, if_true] at hwide
    simp only [hwide, Nat.add_sub_cancel]
  | some n =>
    obtain ⟨hpos, hfits, -⟩ := mcastRangeCount_eq_some hcount
    rw [McastWorld.cover_cons_range _ hcount] at htable
    simp only [hcount] at hu
    obtain ⟨t, ht, rfl⟩ := Option.map_eq_some_iff.mp hu
    obtain ⟨t', ht', hinv⟩ := htable.rangeApply_del hfits hpos
    rw [ht'] at ht
    obtain rfl := Option.some.inj ht
    exact ⟨hinv, by simpa [McastJoin.wide, hcount] using hwide⟩

end Commands

theorem McastWorldInv.of_initial {w : McastWorld} (h : w.Initial) : McastWorldInv w := by
  obtain ⟨hrows, hmulti, hjoins⟩ := h
  refine ⟨⟨fun a ↦ ?_, ?_, fun r hr ↦ ?_⟩, ?_, fun a ha ↦ ?_, fun hpos ↦ ?_⟩
  · rw [hjoins]
    refine total_eq_zero_of_key_ne fun r hr hkey ↦ ?_
    exact (McastRow.key_eq_some.mp hkey).1 (hrows r hr)
  · refine List.pairwise_of_forall_mem_list fun r hr s _ hlive ↦ ?_
    exact absurd (hrows r hr) hlive
  · rw [hrows r hr]
    exact Nat.zero_le _
  · rw [hmulti, hjoins]
    rfl
  · rw [hjoins] at ha
    exact absurd ha (Nat.lt_irrefl 0)
  · rw [hjoins] at hpos
    exact absurd hpos (Nat.lt_irrefl 0)

/-- **One command** keeps the counts and the filter right. -/
theorem McastWorldInv.step {w w' : McastWorld} {e : McastEvent} (h : McastWorldInv w)
    (hstep : mcastStep w e = some w') : McastWorldInv w' := by
  cases e with
  | add addr =>
    obtain rfl := Option.some.inj hstep
    exact h.add
  | del addr =>
    rw [mcastStep] at hstep
    split_ifs at hstep with hjoin
    obtain rfl := Option.some.inj hstep
    exact h.del hjoin
  | addRange lo hi =>
    obtain rfl := Option.some.inj hstep
    exact h.addRange
  | delRange lo hi =>
    rw [mcastStep] at hstep
    split_ifs at hstep with hjoin
    obtain rfl := Option.some.inj hstep
    exact h.delRange hjoin
  | promisc on rebuild =>
    obtain rfl := Option.some.inj hstep
    cases rebuild with
    | true => exact McastWorldInv.applied h.table h.wide
    | false => exact ⟨h.table, h.wide, h.passes, h.passes_wide⟩

/-- A live row counts the adds that cover its address. -/
theorem McastInv.refs_eq {cover : EtherAddr → ℕ} {t : McastTable} (h : McastInv cover t)
    {r : McastRow} (hr : r ∈ t.rows) (hlive : r.refs ≠ 0) : r.refs = cover r.addr := by
  have hfind := h.find_eq r.addr
  split_ifs at hfind with hzero
  · have hnone := (UseTable.first_eq_none McastRow.key).mp hfind
    exact absurd (McastRow.key_eq_some.mpr ⟨hlive, rfl⟩) (hnone r hr)
  · have : Std.Symm fun r s : McastRow ↦ r.refs ≠ 0 → s.refs ≠ 0 → r.addr ≠ s.addr :=
      ⟨fun x y hxy hy hx ↦ (hxy hx hy).symm⟩
    by_contra hne
    refine h.single.forall hr (UseTable.first_mem McastRow.key hfind) (fun heq ↦ hne ?_)
      hlive hzero rfl
    rw [heq]

/-- **The multicast table over histories.** In every state a history of commands and refusals
reaches, no address has two rows, the count of a row is the number of outstanding narrow adds
that cover its address, and each covered address has a row; a range add that is refused leaves
the table, the wide count and the filter as they were; and the filter lets every covered address
through, and every address while a wide range is outstanding. -/
theorem mcast_history {w : McastWorld} (h : Reachable mcastStep McastWorld.Initial w) :
    (w.hw.table.rows.Pairwise fun r s ↦ r.refs ≠ 0 → s.refs ≠ 0 → r.addr ≠ s.addr) ∧
      (∀ r ∈ w.hw.table.rows, r.refs ≠ 0 → r.refs = w.joins.countP (McastJoin.covers r.addr)) ∧
      (∀ a, (∃ j ∈ w.joins, j.covers a) → ∃ r ∈ w.hw.table.rows, r.refs ≠ 0 ∧ r.addr = a) ∧
      (∀ lo hi, (cmdMulticastRange w.hw lo hi true).2 ≠ .ok →
        ∃ n, (cmdMulticastRange w.hw lo hi true).1 = { w.hw with mcastFull := n }) ∧
      (∀ a, (∃ j ∈ w.joins, j.covers a) → marPasses w.hw.lance w.hw.mar a = true) ∧
      ((∃ j ∈ w.joins, j.wide) → ∀ a, marPasses w.hw.lance w.hw.mar a = true) := by
  have hinv : McastWorldInv w :=
    h.invariant (fun _ ↦ McastWorldInv.of_initial) fun _ _ _ hs hstep ↦ hs.step hstep
  refine ⟨hinv.table.single, fun r hr hlive ↦ hinv.table.refs_eq hr hlive, fun a ha ↦ ?_,
    fun lo hi hrefused ↦ ?_, fun a ha ↦ hinv.passes a (List.countP_pos_iff.mpr ha),
    fun hwide ↦ hinv.passes_wide (List.countP_pos_iff.mpr hwide)⟩
  · have hpos : McastWorld.cover w.joins a ≠ 0 :=
      Nat.pos_iff_ne_zero.mp (List.countP_pos_iff.mpr ha)
    have hfind := hinv.table.find_eq a
    rw [if_neg hpos] at hfind
    exact ⟨_, UseTable.first_mem McastRow.key hfind, hpos, rfl⟩
  · by_cases hgroup : lo.isGroup = false
    · rw [cmdMulticastRange, if_pos hgroup]
      exact ⟨w.hw.mcastFull, rfl⟩
    · rw [cmdMulticastRange, if_neg hgroup] at hrefused ⊢
      exact mcastFinish_refused hrefused

/-- A unit with a free table. -/
def McastWorld.idle : McastWorld where
  hw :=
    { table := ⟨List.replicate netdevMcastMax ⟨⟨0, 0, 0, 0, 0, 0⟩, 0⟩, List.length_replicate⟩
      allMulti := 0
      mcastFull := 0
      lance := false
      promisc := false
      mar := fun _ ↦ 0 }
  joins := []

theorem McastWorld.initial_idle : McastWorld.idle.Initial :=
  ⟨fun _ hr ↦ by rw [List.eq_of_mem_replicate hr], rfl, rfl⟩

/-- A single join inside a range of four: the row of its address counts two. -/
theorem mcast_history_overlap :
    ∃ w, Reachable mcastStep McastWorld.Initial w ∧
      (∃ r ∈ w.hw.table.rows, r.refs = 2) ∧
      w.joins = [.range ⟨0x01, 0, 0x5E, 0, 0, 0xFE⟩ ⟨0x01, 0, 0x5E, 0, 1, 0x01⟩,
        .single ⟨0x01, 0, 0x5E, 0, 1, 0⟩] ∧
      (∀ r ∈ w.hw.table.rows, r.refs ≠ 0 →
        r.refs = w.joins.countP (McastJoin.covers r.addr)) ∧
      ∀ a, (∃ j ∈ w.joins, j.covers a) → marPasses w.hw.lance w.hw.mar a = true := by
  have hrun : (run mcastStep McastWorld.idle
      [.add ⟨0x01, 0, 0x5E, 0, 1, 0⟩,
        .addRange ⟨0x01, 0, 0x5E, 0, 0, 0xFE⟩ ⟨0x01, 0, 0x5E, 0, 1, 0x01⟩]).any
      (fun w ↦ decide ((∃ r ∈ w.hw.table.rows, r.refs = 2) ∧
        w.joins = [.range ⟨0x01, 0, 0x5E, 0, 0, 0xFE⟩ ⟨0x01, 0, 0x5E, 0, 1, 0x01⟩,
          .single ⟨0x01, 0, 0x5E, 0, 1, 0⟩])) = true := by
    decide +kernel
  obtain ⟨w, hw, hstate⟩ := (Option.any_eq_true _ _).mp hrun
  obtain ⟨hrow, hjoins⟩ := of_decide_eq_true hstate
  have hreach : Reachable mcastStep McastWorld.Initial w :=
    ⟨_, _, McastWorld.initial_idle, hw⟩
  obtain ⟨-, hcount, -, -, hpasses, -⟩ := mcast_history hreach
  exact ⟨w, hreach, hrow, hjoins, hcount, hpasses⟩

end AmiNetXDuo.Netdev
