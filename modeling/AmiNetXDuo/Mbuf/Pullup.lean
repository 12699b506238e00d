import AmiNetXDuo.Mbuf.Chain

/-!
# `mbuf_pullup`

`ami_mbuf_pullup` gathers the first bytes of a chain into one mbuf, the head itself where it has
room, a new one otherwise, and frees what it has emptied.  Where it fails it has freed the whole
chain.

The loop takes an mbuf without bytes for the end of the chain.  A chain with an empty mbuf in front
of the bytes asked for, such as `ami_mbuf_adj` leaves behind, is therefore freed and refused.

## Main definitions

* `Gathered` : what the loop keeps.
* `NoGap`, `Gatherable` : no empty mbuf stands in front of the bytes asked for.

## Main results

* `amiMbufPullup_spec` : the operation succeeds on the gatherable chains, and its failures.
* `amiMbufPullup_stops_at_empty` : a chain with empty mbufs.
-/

namespace AmiNetXDuo.Mbuf

/-! ### The loop -/

/-- The mbuf at an address lies apart from the bytes of another. -/
def ClearOf (a : Nat) (n : MBuf) : Prop := Apart a msize n.data n.len.toNat

theorem clearOf_of_apartFrom {a : Nat} {n : MBuf} (hn : n.Ok) (h : ApartFrom a n) :
    ClearOf a n := by
  have hstart := hn.start
  have hstop := hn.stop
  rcases h.1 with hbelow | habove
  · exact .inl (by omega)
  · exact .inr (by omega)

/-- Bytes that lie apart from the mbuf gathered into. -/
theorem chainBytes_write (mem : Mem) {a dst : Nat} (bytes : List UByte) {chain : List MBuf}
    (hclear : ∀ n ∈ chain, ClearOf a n) (hlow : a ≤ dst) (hhigh : dst + bytes.length ≤ a + msize) :
    chainBytes (Memory.write mem dst bytes) chain = chainBytes mem chain := by
  refine chainBytes_write_of_apart mem fun n hn ↦ ?_
  rcases hclear n hn with hbelow | habove
  · exact .inl (by omega)
  · exact .inr (by omega)

/-- The mbuf that the loop gathers into: its data lies inside it, with `space` bytes behind. -/
structure Target (m : MBuf) (space : Int) : Prop where
  nonneg : 0 ≤ m.len
  start : m.addr ≤ m.data
  room : (m.data : Int) + m.len + space = m.limit
  space : 0 ≤ space

/-- **One run of bytes gathered.** -/
theorem Target.take {m : MBuf} {space : Int} (hm : Target m space) {count : Int}
    (hcount : 0 < count) (hspace : count ≤ space) (mem : Mem) {src : Nat}
    (hsrc : Apart m.addr msize src count.toNat) :
    Memory.copy mem src (offsetBy m.data m.len) count.toNat =
        Memory.write mem (m.data + m.len.toNat) (Memory.read mem src count.toNat) ∧
      MBuf.bytes (Memory.write mem (m.data + m.len.toNat) (Memory.read mem src count.toNat))
          { m with len := m.len + count } =
        m.bytes mem ++ Memory.read mem src count.toNat ∧
      Target { m with len := m.len + count } (space - count) := by
  obtain ⟨hnonneg, hstart, hroom, -⟩ := hm
  have hlimit : m.limit = m.addr + msize := rfl
  have hlength := Memory.length_read mem src count.toNat
  refine ⟨?_, ?_, ⟨by simp only; omega, hstart, by simp only [MBuf.limit] at hroom ⊢; omega,
    by omega⟩⟩
  · rw [offsetBy_of_nonneg _ hnonneg]
    refine Memory.copy_eq_write mem ?_
    rcases hsrc with hbelow | habove
    · exact .inr (by omega)
    · exact .inl (by omega)
  · have htotal : (m.len + count).toNat = m.len.toNat + count.toNat := by omega
    have hwritten : Memory.read (Memory.write mem (m.data + m.len.toNat)
        (Memory.read mem src count.toNat)) (m.data + m.len.toNat) count.toNat =
        Memory.read mem src count.toNat := by
      have := Memory.read_write mem (m.data + m.len.toNat) (Memory.read mem src count.toNat)
      rwa [hlength] at this
    change Memory.read _ m.data (m.len + count).toNat = _
    rw [htotal, Memory.read_add, hwritten, Memory.read_write_of_apart (.inl (by omega))]
    rfl

/-- What the loop keeps: the bytes, the length asked for, and each mbuf of the chain, which is in
the chain still or freed. -/
structure Gathered (h : Heap) (m : MBuf) (chain : List MBuf) (len : Int)
    (r : MBuf × List MBuf × Int × Heap) : Prop where
  bytes : r.1.bytes r.2.2.2.mem ++ chainBytes r.2.2.2.mem r.2.1 =
    m.bytes h.mem ++ chainBytes h.mem chain
  asked : r.1.len + r.2.2.1 = m.len + len
  same : r.1.addr = m.addr
  freed : ∃ freed, chain.map (·.addr) = freed ++ r.2.1.map (·.addr) ∧
    r.2.2.2.avail = freed.reverse ++ h.avail

theorem Gathered.refl (h : Heap) (m : MBuf) (chain : List MBuf) (len : Int) :
    Gathered h m chain len (m, chain, len, h) :=
  ⟨rfl, rfl, rfl, [], rfl, rfl⟩

/-- One mbuf, split into the bytes taken and the rest. -/
theorem bytes_split (mem : Mem) {n : MBuf} {c : Int} (hcount : 0 ≤ c) (hle : c ≤ n.len) :
    n.bytes mem = Memory.read mem n.data c.toNat ++
      MBuf.bytes mem { n with len := n.len - c, data := n.data + c.toNat } := by
  have htotal : n.len.toNat = c.toNat + (n.len - c).toNat := by omega
  rw [MBuf.bytes, htotal, Memory.read_add]
  rfl

/-- One turn of the loop in front of the others. -/
theorem Gathered.head {h h' : Heap} {m m' : MBuf} {chain chain' : List MBuf} {len count : Int}
    {r : MBuf × List MBuf × Int × Heap} (hr : Gathered h' m' chain' (len - count) r)
    (hbytes : m'.bytes h'.mem ++ chainBytes h'.mem chain' = m.bytes h.mem ++ chainBytes h.mem chain)
    (hlen : m'.len = m.len + count) (haddr : m'.addr = m.addr) (freed : List Nat)
    (hchain : chain.map (·.addr) = freed ++ chain'.map (·.addr))
    (havail : h'.avail = freed.reverse ++ h.avail) : Gathered h m chain len r where
  bytes := hr.bytes.trans hbytes
  asked := by
    have := hr.asked
    omega
  same := hr.same.trans haddr
  freed := by
    obtain ⟨later, hlater, havail'⟩ := hr.freed
    refine ⟨freed ++ later, ?_, ?_⟩
    · rw [hchain, hlater, List.append_assoc]
    · rw [havail', havail, List.reverse_append, List.append_assoc]

/-- **The loop.**  By induction on the mbufs and bytes left: each turn moves a run of bytes to the
mbuf gathered into, and frees an mbuf once it is empty. -/
theorem pullupGather_gathered {m : MBuf} {space : Int} (hm : Target m space) {h : Heap}
    {chain : List MBuf} (hchain : ∀ n ∈ chain, 0 ≤ n.len ∧ ClearOf m.addr n) (len : Int) :
    Gathered h m chain len (pullupGather h m chain len space) := by
  induction hsize : (chain.map fun n ↦ n.len.toNat + 1).sum using Nat.strongRecOn
    generalizing h m chain len space with
  | _ size ih =>
    cases chain with
    | nil =>
        rw [pullupGather]
        exact .refl h m [] len
    | cons n rest =>
        rw [pullupGather]
        by_cases hlen : len > 0
        swap
        · rw [if_neg hlen]
          exact .refl h m (n :: rest) len
        rw [if_pos hlen]
        simp only
        generalize hcount : (if n.len > space then space else n.len) = count
        have hspace : count ≤ space ∧ count ≤ n.len := by split_ifs at hcount <;> omega
        by_cases hstop : count ≤ 0
        · rw [dif_pos hstop]
          exact .refl h m (n :: rest) len
        rw [dif_neg hstop]
        obtain ⟨hn, hclear⟩ := hchain n (by simp)
        obtain ⟨hchainLen, hclears⟩ : (∀ k ∈ rest, 0 ≤ k.len) ∧ ∀ k ∈ rest, ClearOf m.addr k :=
          ⟨fun k hk ↦ (hchain k (by simp [hk])).1, fun k hk ↦ (hchain k (by simp [hk])).2⟩
        have hsrc : Apart m.addr msize n.data count.toNat := by
          rcases hclear with hbelow | habove
          · exact .inl hbelow
          · exact .inr (by omega)
        have hrestClear : ClearOf m.addr
            { n with len := n.len - count, data := n.data + count.toNat } := by
          rcases hclear with hbelow | habove
          · exact .inl (by simp only; omega)
          · exact .inr (by simp only; omega)
        obtain ⟨hcopy, hbytes, htarget⟩ := hm.take (by omega) hspace.1 h.mem hsrc
        obtain ⟨hnonneg, hstart, hroom, -⟩ := hm
        have hlimit : m.limit = m.addr + msize := rfl
        have hlength := Memory.length_read h.mem n.data count.toNat
        -- the bytes of the chain do not change where they are
        have hkeep (ns : List MBuf) (hns : ∀ n ∈ ns, ClearOf m.addr n) :
            chainBytes (Memory.write h.mem (m.data + m.len.toNat)
              (Memory.read h.mem n.data count.toNat)) ns = chainBytes h.mem ns :=
          chainBytes_write h.mem _ hns (by omega) (by omega)
        have hsplit := bytes_split h.mem (n := n) (c := count) (by omega) hspace.2
        rw [← hcopy] at hbytes hkeep
        simp only [List.map_cons, List.sum_cons] at hsize
        by_cases hleft : n.len - count > 0
        · rw [if_pos hleft]
          have hall : ∀ k ∈ { n with len := n.len - count, data := n.data + count.toNat } :: rest,
              0 ≤ k.len ∧ ClearOf m.addr k := by
            rintro k (_ | ⟨_, hk⟩)
            · exact ⟨Int.le_of_lt hleft, hrestClear⟩
            · exact ⟨hchainLen k hk, hclears k hk⟩
          refine (ih _ ?_ htarget hall (len - count) rfl).head ?_ rfl rfl [] rfl rfl
          · simp only [List.map_cons, List.sum_cons]
            omega
          · change MBuf.bytes (Memory.copy _ _ _ _) _ ++ chainBytes (Memory.copy _ _ _ _) _ = _
            rw [hbytes, hkeep _ fun k hk ↦ (hall k hk).2, List.append_assoc]
            simp only [chainBytes, List.flatMap_cons, hsplit, List.append_assoc]
        · rw [if_neg hleft]
          have hall : ∀ k ∈ rest, 0 ≤ k.len ∧ ClearOf m.addr k :=
            fun k hk ↦ ⟨hchainLen k hk, hclears k hk⟩
          refine (ih _ ?_ htarget hall (len - count) rfl).head ?_ rfl rfl [n.addr] rfl rfl
          · omega
          · change MBuf.bytes (Memory.copy _ _ _ _) _ ++ chainBytes (Memory.copy _ _ _ _) _ = _
            have hwhole : n.bytes h.mem = Memory.read h.mem n.data count.toNat := by
              rw [MBuf.bytes, show n.len = count by omega]
            rw [hbytes, hkeep _ hclears, List.append_assoc]
            simp only [chainBytes, List.flatMap_cons, hwhole]

/-! ### When the loop gets what is asked for -/

/-- No mbuf without bytes stands in front of the last byte asked for. -/
def NoGap : List MBuf → Int → Prop
  | [], _ => True
  | n :: rest, len => 0 < len → 0 < n.len ∧ NoGap rest (len - n.len)

theorem pullupGather_of_nonpos (h : Heap) (m : MBuf) (chain : List MBuf) {len : Int} (space : Int)
    (hlen : len ≤ 0) : pullupGather h m chain len space = (m, chain, len, h) := by
  cases chain with
  | nil => rw [pullupGather]
  | cons n rest => rw [pullupGather, if_neg (by omega)]

/-- By induction on the mbufs: an mbuf is taken whole, or fills the space, which is enough, or it
is empty and the loop stops. -/
theorem pullupGather_done_iff (h : Heap) (m : MBuf) (chain : List MBuf) (len space : Int)
    (hspace : len ≤ space) (hchain : ∀ n ∈ chain, 0 ≤ n.len) (hlen : len ≤ chainLength chain) :
    (pullupGather h m chain len space).2.2.1 ≤ 0 ↔ NoGap chain len := by
  induction chain generalizing h m len space with
  | nil =>
      rw [pullupGather]
      exact iff_of_true (by simpa [chainLength] using hlen) trivial
  | cons n rest ih =>
      obtain ⟨hn, hrest⟩ := List.forall_mem_cons.mp hchain
      by_cases hpos : len > 0
      swap
      · rw [pullupGather_of_nonpos _ _ _ _ (by omega)]
        exact iff_of_true (by simp only; omega) fun hpos' ↦ absurd hpos' hpos
      have hgap : NoGap (n :: rest) len ↔ 0 < n.len ∧ NoGap rest (len - n.len) :=
        forall_prop_of_true hpos
      rw [chainLength_cons] at hlen
      rw [pullupGather, if_pos hpos, hgap]
      simp only
      by_cases hfull : n.len > space
      · rw [if_pos hfull, dif_neg (by omega), if_pos (by omega),
          pullupGather_of_nonpos _ _ _ _ (by omega)]
        refine iff_of_true (by simp only; omega) ⟨by omega, ?_⟩
        cases rest with
        | nil => trivial
        | cons k ks => exact fun hmore ↦ by omega
      · rw [if_neg hfull]
        by_cases hempty : n.len ≤ 0
        · rw [dif_pos hempty]
          exact iff_of_false (by simp only; omega) fun hgap ↦ by omega
        · rw [dif_neg hempty, if_neg (by omega),
            ih _ _ _ _ (by omega) hrest (by omega)]
          exact (and_iff_right (by omega)).symm

/-- A chain that is too short leaves something asked for. -/
theorem Gathered.short {h : Heap} {m : MBuf} {chain : List MBuf} {len : Int}
    {r : MBuf × List MBuf × Int × Heap} (hr : Gathered h m chain len r) (hm : 0 ≤ m.len)
    (hlen : (chainLength chain : Int) < len) : 0 < r.2.2.1 := by
  have hlengths := congrArg List.length hr.bytes
  simp only [List.length_append, length_chainBytes, MBuf.bytes, Memory.length_read] at hlengths
  have hasked := hr.asked
  omega

/-- **Gathering into a chosen mbuf.** -/
theorem pullupInto_spec (h : Heap) {m : MBuf} {chain : List MBuf} (len : Int)
    (hm : Target m ((m.limit : Int) - (m.data + m.len)))
    (hchain : ∀ n ∈ chain, 0 ≤ n.len ∧ ClearOf m.addr n) :
    (m.len + len ≤ (m.limit : Int) - m.data → len ≤ chainLength chain →
      ((∃ m' chain', (pullupInto h m chain len).1 = some (m' :: chain') ∧
        chainBytes (pullupInto h m chain len).2.mem (m' :: chain') =
          m.bytes h.mem ++ chainBytes h.mem chain ∧ m.len + len ≤ m'.len) ↔ NoGap chain len)) ∧
      ((chainLength chain : Int) < len → (pullupInto h m chain len).1 = none) ∧
      ((pullupInto h m chain len).1 = none →
        (pullupInto h m chain len).2.avail.Perm (m.addr :: chain.map (·.addr) ++ h.avail)) := by
  have hspace : (m.limit : Int) - offsetBy m.data m.len = m.limit - (m.data + m.len) := by
    have := hm.nonneg
    rw [offsetBy_of_nonneg _ hm.nonneg]
    omega
  have hr := pullupGather_gathered hm (h := h) hchain len
  have hdone (hspace) := pullupGather_done_iff h m chain len (m.limit - (m.data + m.len)) hspace
    fun n hn ↦ (hchain n hn).1
  unfold pullupInto
  simp only [hspace]
  generalize pullupGather h m chain len ((m.limit : Int) - (m.data + m.len)) = r at hr hdone
  refine ⟨fun hfits hlen ↦ ?_, fun hshort ↦ ?_, fun hnone ↦ ?_⟩
  · rw [← hdone (by omega) hlen]
    have hasked := hr.asked
    constructor
    · rintro ⟨m', chain', hsome, -⟩
      by_contra hleft
      rw [if_pos (by omega)] at hsome
      cases hsome
    · intro hgot
      rw [if_neg (by omega)]
      exact ⟨_, _, rfl, hr.bytes, by omega⟩
  · rw [if_pos (hr.short hm.nonneg hshort)]
  · by_cases hleft : r.2.2.1 > 0
    · obtain ⟨freed, hfreed, havail⟩ := hr.freed
      rw [if_pos hleft, amiMbufFreem_avail, havail, List.map_cons, hr.same, hfreed]
      have hturn : ((m.addr :: r.2.1.map (·.addr)).reverse ++ (freed.reverse ++ h.avail)).Perm
          (m.addr :: r.2.1.map (·.addr) ++ (freed ++ h.avail)) :=
        (List.reverse_perm _).append ((List.reverse_perm _).append_right _)
      have hswap : (m.addr :: (r.2.1.map (·.addr) ++ freed ++ h.avail)).Perm
          (m.addr :: (freed ++ r.2.1.map (·.addr) ++ h.avail)) :=
        (List.perm_append_comm.append_right _).cons _
      exact hturn.trans (by simpa using hswap)
    · rw [if_neg hleft] at hnone
      cases hnone

/-! ### The operation -/

/-- What a new mbuf can take of a chain with this head. -/
def roomFor (n : MBuf) : Int := if n.flags.pkthdr then mhlen else mlen

/-- The head takes the run itself. -/
def GathersInHead (n : MBuf) (rest : List MBuf) (len : Int) : Prop :=
  ¬n.flags.ext ∧ rest ≠ [] ∧ (n.data + len.toNat) % 2 ^ 32 ≤ n.limit

instance (n : MBuf) (rest : List MBuf) (len : Int) : Decidable (GathersInHead n rest len) :=
  inferInstanceAs (Decidable (_ ∧ _ ∧ _))

/-- **No empty mbuf stands in front of the bytes asked for**, but the head that takes the run. -/
def Gatherable (n : MBuf) (rest : List MBuf) (len : Int) : Prop :=
  n.len < len → (0 < n.len ∨ GathersInHead n rest len) ∧ NoGap rest (len - n.len)

theorem MBuf.Ok.target {m : MBuf} (h : m.Ok) (hint : m.flags.ext = false) :
    Target m ((m.limit : Int) - (m.data + m.len)) := by
  have hstart := h.start
  have hstop := h.stop
  have hnonneg := h.nonneg
  have hbase : m.addr ≤ m.base ∧ m.base ≤ m.limit := by
    unfold MBuf.base MBuf.limit offPktdat offDat msize
    split_ifs <;> omega
  simp only [MBuf.storage, MBuf.room, hint, Bool.false_eq_true, if_false] at hstart hstop
  exact ⟨hnonneg, by omega, by omega, by omega⟩

/-- The new mbuf that takes over the head of a chain. -/
theorem takeOver_target (a : Nat) (n : MBuf) :
    Target (takeOver (freshMbuf a) n) (((takeOver (freshMbuf a) n).limit : Int) -
        ((takeOver (freshMbuf a) n).data + (takeOver (freshMbuf a) n).len)) ∧
      ((takeOver (freshMbuf a) n).limit : Int) - (takeOver (freshMbuf a) n).base = roomFor n ∧
      (takeOver (freshMbuf a) n).data = (takeOver (freshMbuf a) n).base ∧
      (takeOver (freshMbuf a) n).len = 0 ∧ (takeOver (freshMbuf a) n).addr = a := by
  unfold takeOver roomFor
  split_ifs with hpkthdr
  · refine ⟨⟨?_, ?_, ?_, ?_⟩, ?_, ?_, rfl, rfl⟩
    all_goals simp [freshMbuf, MBuf.base, MBuf.limit, offPktdat, msize, mhlen, hpkthdr]
    all_goals omega
  · refine ⟨⟨?_, ?_, ?_, ?_⟩, ?_, ?_, rfl, rfl⟩
    all_goals simp [freshMbuf, MBuf.base, MBuf.limit, offDat, msize, mlen, Flags.clear]
    all_goals omega

/-- The head of the chain behind a new mbuf has its bytes where they were. -/
theorem handOver_same (n : MBuf) : (if n.flags.pkthdr then dropPkthdr n else n).len = n.len ∧
    (if n.flags.pkthdr then dropPkthdr n else n).data = n.data ∧
    (if n.flags.pkthdr then dropPkthdr n else n).addr = n.addr := by
  split_ifs <;> exact ⟨rfl, rfl, rfl⟩

/-- **`mbuf_pullup`.**  With an mbuf left, a run of bytes that the chain has and one mbuf can take
is gathered, with the bytes of the chain unchanged, if and only if no empty mbuf stands in front of
the bytes asked for.  A run that the chain does not have is refused; and whenever one is, each mbuf
of the chain has been freed once. -/
theorem amiMbufPullup_spec (h : Heap) (n : MBuf) (rest : List MBuf) (len : Int)
    (hwf : WellFormed h (n :: rest)) :
    (len ≤ chainLength (n :: rest) → len ≤ roomFor n → h.avail ≠ [] →
      ((∃ m chain, (amiMbufPullup h (n :: rest) len).1 = some (m :: chain) ∧
        chainBytes (amiMbufPullup h (n :: rest) len).2.mem (m :: chain) =
          chainBytes h.mem (n :: rest) ∧ len ≤ m.len) ↔ 0 ≤ len ∧ Gatherable n rest len)) ∧
      ((chainLength (n :: rest) : Int) < len → (amiMbufPullup h (n :: rest) len).1 = none) ∧
      ((amiMbufPullup h (n :: rest) len).1 = none →
        (amiMbufPullup h (n :: rest) len).2.avail.Perm
          ((n :: rest).map (·.addr) ++ h.avail)) := by
  have hn := hwf.ok n (by simp)
  have hnonneg := hn.nonneg
  have hfreed : (amiMbufFreem h (n :: rest)).avail.Perm ((n :: rest).map (·.addr) ++ h.avail) := by
    rw [amiMbufFreem_avail]
    exact (List.reverse_perm _).append_right _
  rw [chainLength_cons]
  unfold amiMbufPullup
  by_cases hneg : len < 0
  · simp only [if_pos hneg]
    refine ⟨fun _ _ _ ↦ iff_of_false ?_ fun h ↦ by omega, fun _ ↦ trivial, fun _ ↦ hfreed⟩
    rintro ⟨m, chain, hsome, -⟩
    cases hsome
  have hle : 0 ≤ len := by omega
  simp only [if_neg hneg]
  by_cases hthere : len = 0 ∨ n.len ≥ len
  · simp only [if_pos hthere]
    exact ⟨fun _ _ _ ↦ iff_of_true ⟨n, rest, rfl, rfl, by omega⟩ ⟨hle, fun hmore ↦ by omega⟩,
      fun hshort ↦ by omega, fun hnone ↦ by cases hnone⟩
  simp only [if_neg hthere]
  have hgather : Gatherable n rest len ↔
      (0 < n.len ∨ GathersInHead n rest len) ∧ NoGap rest (len - n.len) :=
    forall_prop_of_true (by omega)
  by_cases hhead : ¬n.flags.ext ∧ rest ≠ [] ∧ (n.data + len.toNat) % 2 ^ 32 ≤ n.limit
  · -- the head has room: the rest is gathered into it
    obtain ⟨hint, hne, hfits⟩ := hhead
    have htarget := hn.target (by simpa using hint)
    have hclear : ∀ k ∈ rest, 0 ≤ k.len ∧ ClearOf n.addr k := fun k hk ↦
      ⟨(hwf.ok k (by simp [hk])).nonneg, clearOf_of_apartFrom (hwf.ok k (by simp [hk]))
        ((List.pairwise_cons.mp hwf.separate).1 k hk).1⟩
    have hwithin (hroom : len ≤ roomFor n) :
        n.len + (len - n.len) ≤ (n.limit : Int) - n.data := by
      have hsmall : len ≤ 108 := by
        unfold roomFor mhlen mlen at hroom
        split_ifs at hroom <;> omega
      have hmemory := hn.inMemory
      have hend := htarget.room
      have hspace := htarget.space
      have hmsize : msize = 128 := rfl
      rw [Nat.mod_eq_of_lt (by omega)] at hfits
      omega
    obtain ⟨hgot, hshort, hnone⟩ := pullupInto_spec h (len - n.len) htarget hclear
    rw [if_pos ⟨hint, hne, hfits⟩]
    refine ⟨fun hlen hroom _ ↦ ?_, fun hlen ↦ hshort (by omega), hnone⟩
    · have hroom' := hwithin hroom
      rw [and_iff_right hle, hgather, and_iff_right (.inr ⟨hint, hne, hfits⟩)]
      rw [Int.add_comm, Int.sub_add_cancel] at hgot hroom'
      exact hgot hroom' (by clear hgot; omega)
  · rw [if_neg hhead]
    cases havail : h.avail with
    | nil =>
        simp only [amiMbufGet, havail]
        rw [havail] at hfreed
        exact ⟨fun _ _ hspare ↦ absurd rfl hspare, fun _ ↦ trivial, fun _ ↦ hfreed⟩
    | cons a avail =>
        simp only [amiMbufGet, havail]
        -- a new mbuf takes the place of the head
        obtain ⟨htarget, hroomEq, hdata, hlen0, haddr⟩ := takeOver_target a n
        obtain ⟨hlenN, hdataN, haddrN⟩ := handOver_same n
        generalize takeOver (freshMbuf a) n = m at htarget hroomEq hdata hlen0 haddr
        generalize (if n.flags.pkthdr then dropPkthdr n else n) = n' at hlenN hdataN haddrN
        by_cases hbig : len > (m.limit : Int) - m.base
        · simp only [if_pos hbig]
          refine ⟨fun _ hroom ↦ by omega, fun _ ↦ trivial, fun _ ↦ ?_⟩
          rw [amiMbufFreem_avail]
          simp only [List.map_cons, haddr, haddrN]
          exact ((List.reverse_perm _).append_right _).trans List.perm_middle.symm
        · simp only [if_neg hbig]
          have hspare := hwf.spare a (by simp [havail])
          have hclear : ∀ k ∈ n' :: rest, 0 ≤ k.len ∧ ClearOf m.addr k := by
            rw [haddr]
            rintro k (_ | ⟨_, hk⟩)
            · refine ⟨by omega, ?_⟩
              rw [ClearOf, hlenN, hdataN]
              exact clearOf_of_apartFrom hn (hspare n (by simp))
            · have hmem : k ∈ n :: rest := List.mem_cons_of_mem _ hk
              exact ⟨(hwf.ok k hmem).nonneg, clearOf_of_apartFrom (hwf.ok k hmem) (hspare k hmem)⟩
          obtain ⟨hgot, hshort, hnone⟩ :=
            pullupInto_spec { h with avail := avail } len htarget hclear
          rw [chainLength_cons, hlenN] at hgot hshort
          refine ⟨fun hlen _ _ ↦ ?_, fun hlen ↦ hshort (by omega), fun hfail ↦ ?_⟩
          · have hgap : NoGap (n' :: rest) len ↔ 0 < n.len ∧ NoGap rest (len - n.len) := by
              rw [← hlenN]
              exact forall_prop_of_true (by omega)
            have hnew : m.bytes h.mem = [] := by rw [MBuf.bytes, hlen0]; rfl
            have hbytes : chainBytes h.mem (n' :: rest) = chainBytes h.mem (n :: rest) := by
              simp only [chainBytes, List.flatMap_cons, MBuf.bytes, hlenN, hdataN]
            have hgot' := hgot (by omega) (by omega)
            rw [hnew, List.nil_append, hbytes, hlen0, Int.zero_add, hgap] at hgot'
            rw [and_iff_right hle, hgather, or_iff_left (show ¬GathersInHead n rest len from hhead)]
            exact hgot'
          · refine (hnone hfail).trans ?_
            rw [haddr, List.map_cons, haddrN]
            exact List.perm_middle.symm

/-- **What an empty mbuf behind the head does.**  The loop takes it for the end of the chain, and
everything is freed. -/
theorem amiMbufPullup_of_empty (h : Heap) {n k : MBuf} {rest : List MBuf} {len : Int}
    (hpos : 0 < len) (hlen : n.len < len) (hhead : GathersInHead n (k :: rest) len)
    (hk : k.len = 0) :
    amiMbufPullup h (n :: k :: rest) len = (none, amiMbufFreem h (n :: k :: rest)) := by
  have hstop (space : Int) : pullupGather h n (k :: rest) (len - n.len) space =
      (n, k :: rest, len - n.len, h) := by
    rw [pullupGather, if_pos (by omega)]
    exact dif_pos (by rw [hk]; split_ifs <;> omega)
  unfold amiMbufPullup
  simp only [if_neg (show ¬len < 0 by omega), if_neg (show ¬(len = 0 ∨ n.len ≥ len) by omega)]
  obtain ⟨hint, hne, hfits⟩ := hhead
  rw [if_pos ⟨hint, hne, hfits⟩, pullupInto]
  simp only [hstop]
  rw [if_pos (by omega)]

/-- Three mbufs of four, three and five bytes. -/
def threeMbufs : List MBuf :=
  [{ freshMbuf 4096 with len := 4 }, { freshMbuf 4224 with len := 3 },
    { freshMbuf 4352 with len := 5 }]

/-- Memory that counts, with one mbuf left. -/
def oneLeft : Heap := ⟨fun a ↦ BitVec.ofNat 8 a, [8192]⟩

theorem wellFormed_threeMbufs : WellFormed oneLeft threeMbufs where
  ok := by decide
  separate := by decide
  spare := by decide
  spares := by decide
  spareInMemory := by decide

theorem amiMbufPullup_spec_threeMbufs :
    ∃ m chain, (amiMbufPullup oneLeft threeMbufs 9).1 = some (m :: chain) ∧
      chainBytes (amiMbufPullup oneLeft threeMbufs 9).2.mem (m :: chain) =
        chainBytes oneLeft.mem threeMbufs ∧ 9 ≤ m.len := by
  refine ((amiMbufPullup_spec oneLeft _ _ 9 wellFormed_threeMbufs).1 (by decide) (by decide)
    (by decide)).mpr ⟨by decide, ?_⟩
  intro _
  exact ⟨.inl (by decide), fun _ ↦ ⟨by decide, fun _ ↦ ⟨by decide, trivial⟩⟩⟩

/-- **An empty mbuf ends the loop.**  `mbuf_adj` takes seven bytes off the front of a chain of
twelve and leaves two empty mbufs there; four of the five bytes behind them cannot be pulled up, and
the chain is gone. -/
theorem amiMbufPullup_stops_at_empty :
    ∃ chain, amiMbufAdj threeMbufs 7 = some chain ∧ WellFormed oneLeft chain ∧
      chainLength chain = 5 ∧ (amiMbufPullup oneLeft chain 4).1 = none ∧
      (amiMbufPullup oneLeft chain 4).2.avail = [4352, 4224, 4096, 8192] := by
  refine ⟨[{ freshMbuf 4096 with len := 0 }, { freshMbuf 4224 with len := 0 },
    { freshMbuf 4352 with len := 5 }], by decide,
    ⟨by decide, by decide, by decide, by decide, by decide⟩, by decide, ?_⟩
  rw [amiMbufPullup_of_empty oneLeft (by decide) (by decide) (by decide) (by decide)]
  decide

end AmiNetXDuo.Mbuf
