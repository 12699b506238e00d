import AmiNetXDuo.Netstack.RouterAdvert
import Mathlib.Data.List.Induction

/-!
# The order in which default gateways are tried

One IPv4 default gateway serves the whole machine. When the interface that owns it goes, the others
are tried in the order `ami_ns_gateway_candidates` writes: one pass over the table for every
priority, the highest first, and in each pass the preferred interface before the others.

## Main definitions

* `gatewayOffer`, `nextLevel`, `gatewayLevels`, `gatewayCandidates` : the code.
* `Eligible`, `Before` : what is written, and in which order.

## Main results

* `gatewayLevels_order` : the passes from one level on.
* `gatewayCandidates_order` : the whole result.
-/

namespace AmiNetXDuo.Netstack

/-- `AmiNsGatewayIface`. -/
structure GatewayIface where
  present : Bool
  gateway : UInt32
  priority : ℤ
  deriving DecidableEq, Repr

/-- `AmiNsGatewayCandidate`. -/
structure GatewayCandidate where
  gateway : UInt32
  iface : ℕ
  deriving DecidableEq, Repr

/-- `ami_ns_gateway_offer`: the interface goes behind what is written, once and if there is room. -/
def gatewayOffer (iface : ℕ → GatewayIface) (max index : ℕ) (out : List GatewayCandidate) :
    List GatewayCandidate :=
  if (iface index).present = false ∨ (iface index).gateway = 0 ∨ max ≤ out.length then out
  else if ∃ c ∈ out, c.gateway = (iface index).gateway ∧ c.iface = index then out
  else out ++ [⟨(iface index).gateway, index⟩]

section

variable (iface : ℕ → GatewayIface) (count preferred skip max : ℕ)

/-- An interface that may be written. -/
def Eligible (i : ℕ) : Prop :=
  i < count ∧ (iface i).present = true ∧ (iface i).gateway ≠ 0 ∧ i ≠ skip

instance (i : ℕ) : Decidable (Eligible iface count skip i) :=
  inferInstanceAs (Decidable (_ ∧ _))

/-- The interfaces whose turn is after `level`, which is none before the first pass. -/
def Pending (level : Option ℤ) (i : ℕ) : Prop :=
  Eligible iface count skip i ∧ ∀ l ∈ level, (iface i).priority < l

instance (level : Option ℤ) (i : ℕ) : Decidable (Pending iface count skip level i) :=
  inferInstanceAs (Decidable (_ ∧ _))

/-- A later interface replaces what the scan has found if it is higher. -/
def raiseLevel (level next : Option ℤ) (i : ℕ) : Option ℤ :=
  if Pending iface count skip level i ∧ ∀ n ∈ next, n < (iface i).priority then
    some (iface i).priority
  else next

/-- The highest priority below the last level served. -/
def nextLevel (level : Option ℤ) : Option ℤ :=
  (List.range count).foldl (raiseLevel iface count skip level) none

/-- One pass: the preferred interface, then the others while there is room. -/
def gatewayPass (level : ℤ) (out : List GatewayCandidate) : List GatewayCandidate :=
  let out := if preferred < count ∧ preferred ≠ skip ∧ (iface preferred).priority = level then
    gatewayOffer iface max preferred out else out
  (List.range count).foldl (fun out i ↦
    if out.length < max ∧ i ≠ preferred ∧ i ≠ skip ∧ (iface i).priority = level then
      gatewayOffer iface max i out else out) out

/-- What a scan finds is pending, and nothing pending is above it. -/
theorem nextLevel_spec (level : Option ℤ) :
    (∀ l ∈ nextLevel iface count skip level,
        ∃ i, Pending iface count skip level i ∧ (iface i).priority = l) ∧
      ∀ i, Pending iface count skip level i →
        ∃ l ∈ nextLevel iface count skip level, (iface i).priority ≤ l := by
  suffices ∀ is : List ℕ, (∀ l ∈ is.foldl (raiseLevel iface count skip level) none,
        ∃ i, Pending iface count skip level i ∧ (iface i).priority = l) ∧
      ∀ i ∈ is, Pending iface count skip level i →
        ∃ l ∈ is.foldl (raiseLevel iface count skip level) none, (iface i).priority ≤ l from
    ⟨(this _).1, fun i hi ↦ (this _).2 i (List.mem_range.mpr hi.1.1) hi⟩
  intro is
  induction is using List.reverseRecOn with
  | nil => simp
  | append_singleton is i ih =>
    rw [List.foldl_append, List.foldl_cons, List.foldl_nil]
    generalize is.foldl (raiseLevel iface count skip level) none = found at ih
    unfold raiseLevel
    split_ifs with hraise
    · refine ⟨fun l hl ↦ ⟨i, hraise.1, Option.some.inj hl⟩, fun j hj hpending ↦ ⟨_, rfl, ?_⟩⟩
      rcases List.mem_append.mp hj with hj | hj
      · obtain ⟨l, hl, hle⟩ := ih.2 j hj hpending
        exact hle.trans (hraise.2 l hl).le
      · rw [List.mem_singleton.mp hj]
    · refine ⟨ih.1, fun j hj hpending ↦ ?_⟩
      rcases List.mem_append.mp hj with hj | hj
      · exact ih.2 j hj hpending
      · obtain rfl := List.mem_singleton.mp hj
        simp only [not_and, not_forall, not_lt] at hraise
        obtain ⟨l, hl, hle⟩ := hraise hpending
        exact ⟨l, hl, hle⟩

/-- A pass takes the pending interfaces of its level out. -/
theorem pending_nextLevel_lt {level : Option ℤ} {next : ℤ}
    (h : nextLevel iface count skip level = some next) :
    ((List.range count).filter (Pending iface count skip (some next))).length <
      ((List.range count).filter (Pending iface count skip level)).length := by
  obtain ⟨i, hi, hprio⟩ := (nextLevel_spec iface count skip level).1 next h
  have hlower : ∀ j, Pending iface count skip (some next) j → Pending iface count skip level j := by
    intro j hj
    refine ⟨hj.1, fun l hl ↦ (hj.2 next rfl).trans ?_⟩
    exact hprio ▸ hi.2 l hl
  have hsub := List.monotone_filter_right (List.range count) (p := fun j ↦
    decide (Pending iface count skip (some next) j)) (q := fun j ↦
    decide (Pending iface count skip level j)) (by simpa using hlower)
  refine lt_of_le_of_ne hsub.length_le fun heq ↦ ?_
  have hmem : i ∈ (List.range count).filter (Pending iface count skip (some next)) := by
    rw [hsub.eq_of_length heq]
    simpa using ⟨hi.1.1, hi⟩
  have hnot : ¬ Pending iface count skip (some next) i := fun hp ↦ by
    have := hp.2 next rfl
    omega
  simp [hnot] at hmem

/-- The passes after `level`. -/
def gatewayLevels (level : Option ℤ) (out : List GatewayCandidate) : List GatewayCandidate :=
  match _hnext : nextLevel iface count skip level with
  | none => out
  | some next =>
    gatewayLevels (some next) (gatewayPass iface count preferred skip max next out)
termination_by ((List.range count).filter (Pending iface count skip level)).length
decreasing_by exact pending_nextLevel_lt iface count skip _hnext

end

/-- `ami_ns_gateway_candidates`: what is written to `out`, whose room is `max`. A null table or a
null `out` is `none`. -/
def gatewayCandidates (iface : Option (ℕ → GatewayIface)) (count preferred skip : ℕ)
    (max : Option ℕ) : List GatewayCandidate :=
  match iface, max with
  | some iface, some max =>
    gatewayLevels iface (min count cfgMaxAttached) preferred skip max none []
  | _, _ => []

/-! ### The order -/

section

variable (iface : ℕ → GatewayIface) (count preferred skip max : ℕ)

/-- The interface as it is written. -/
def candidate (i : ℕ) : GatewayCandidate :=
  ⟨(iface i).gateway, i⟩

/-- One interface is tried before another. -/
def Before (i j : ℕ) : Prop :=
  (iface j).priority < (iface i).priority ∨ (iface i).priority = (iface j).priority ∧
    (i = preferred ∧ j ≠ preferred ∨ i ≠ preferred ∧ j ≠ preferred ∧ i < j)

variable {iface count preferred skip max}

/-- An interface that is not yet written is written where it is eligible and there is room. -/
theorem gatewayOffer_eq {order : List ℕ} {i : ℕ} (hnew : i ∉ order) :
    gatewayOffer iface max i ((order.take max).map (candidate iface)) =
      ((order ++ if (iface i).present = true ∧ (iface i).gateway ≠ 0 then [i] else []).take
        max).map (candidate iface) := by
  have hfresh : ¬ ∃ c ∈ (order.take max).map (candidate iface),
      c.gateway = (iface i).gateway ∧ c.iface = i := by
    rintro ⟨c, hc, -, rfl⟩
    obtain ⟨j, hj, rfl⟩ := List.mem_map.mp hc
    exact hnew (List.mem_of_mem_take hj)
  unfold gatewayOffer
  rw [if_neg hfresh, List.length_map, List.length_take]
  by_cases hfits : (iface i).present = true ∧ (iface i).gateway ≠ 0
  · rw [if_pos hfits]
    by_cases hroom : max ≤ order.length
    · rw [if_pos (by omega), List.take_append_of_le_length hroom]
    · have hall : (order ++ [i]).length ≤ max := by
        rw [List.length_append, List.length_singleton]
        omega
      rw [if_neg (by simp [hfits]; omega), List.take_of_length_le hall,
        List.take_of_length_le (by omega), List.map_append]
      rfl
  · rw [if_neg hfits, if_pos (by grind), List.append_nil]

/-- The interfaces of one level, in the order of a pass. -/
def levelOrder (iface : ℕ → GatewayIface) (count preferred skip : ℕ) (level : ℤ) : List ℕ :=
  (preferred :: (List.range count).filter (· ≠ preferred)).filter fun i ↦
    Eligible iface count skip i ∧ (iface i).priority = level

theorem mem_levelOrder {level : ℤ} {i : ℕ} : i ∈ levelOrder iface count preferred skip level ↔
    Eligible iface count skip i ∧ (iface i).priority = level := by
  simp only [levelOrder, List.mem_filter, List.mem_cons, List.mem_range, decide_eq_true_eq]
  refine and_iff_right_of_imp fun h ↦ ?_
  by_cases hi : i = preferred
  · exact .inl hi
  · exact .inr ⟨h.1.1, hi⟩

theorem pairwise_levelOrder (level : ℤ) :
    (levelOrder iface count preferred skip level).Pairwise (Before iface preferred) := by
  have hvisit : (preferred :: (List.range count).filter (· ≠ preferred)).Pairwise fun i j ↦
      i = preferred ∧ j ≠ preferred ∨ i ≠ preferred ∧ j ≠ preferred ∧ i < j := by
    refine List.pairwise_cons.mpr ⟨fun j hj ↦ .inl ⟨rfl, ?_⟩, ?_⟩
    · simpa using (List.mem_filter.mp hj).2
    refine (List.pairwise_lt_range.filter _).imp_of_mem fun hi hj hlt ↦ .inr ⟨?_, ?_, hlt⟩
    · simpa using (List.mem_filter.mp hi).2
    · simpa using (List.mem_filter.mp hj).2
  refine (hvisit.filter _).imp_of_mem fun hi hj hbefore ↦ .inr ⟨?_, hbefore⟩
  exact (mem_levelOrder.mp hi).2.trans (mem_levelOrder.mp hj).2.symm

/-- The interfaces of a pass other than the preferred one. -/
theorem foldl_gatewayOffer {level : ℤ} {is order : List ℕ} (hcount : ∀ i ∈ is, i < count)
    (hnodup : is.Nodup) (hnew : ∀ i ∈ is, i ≠ preferred → (iface i).priority = level → i ∉ order) :
    is.foldl (fun out i ↦
        if out.length < max ∧ i ≠ preferred ∧ i ≠ skip ∧ (iface i).priority = level then
          gatewayOffer iface max i out else out) ((order.take max).map (candidate iface)) =
      ((order ++ (is.filter (· ≠ preferred)).filter fun i ↦
        Eligible iface count skip i ∧ (iface i).priority = level).take max).map
          (candidate iface) := by
  induction is generalizing order with
  | nil => simp
  | cons i is ih =>
    obtain ⟨hi, hnodup⟩ := List.nodup_cons.mp hnodup
    have hcount' : ∀ j ∈ is, j < count := fun j hj ↦ hcount j (List.mem_cons_of_mem i hj)
    have hnew' : ∀ j ∈ is, j ≠ preferred → (iface j).priority = level → j ∉ order :=
      fun j hj ↦ hnew j (List.mem_cons_of_mem i hj)
    rw [List.foldl_cons]
    by_cases hturn : i ≠ preferred ∧ i ≠ skip ∧ (iface i).priority = level
    · have hstep : (if ((order.take max).map (candidate iface)).length < max ∧ i ≠ preferred ∧
            i ≠ skip ∧ (iface i).priority = level then
          gatewayOffer iface max i ((order.take max).map (candidate iface))
          else (order.take max).map (candidate iface)) =
          gatewayOffer iface max i ((order.take max).map (candidate iface)) := by
        split_ifs with hroom
        · rfl
        · rw [gatewayOffer, if_pos (.inr (.inr (by grind)))]
      rw [hstep, gatewayOffer_eq (hnew i List.mem_cons_self hturn.1 hturn.2.2),
        ih hcount' hnodup (by grind)]
      have hbound := hcount i List.mem_cons_self
      congr 2
      grind [Eligible]
    · rw [if_neg fun h ↦ hturn h.2, ih hcount' hnodup hnew']
      congr 2
      grind [Eligible]

/-- One pass writes its level behind the levels above it. -/
theorem gatewayPass_eq {level : ℤ} {order : List ℕ}
    (hnew : ∀ i ∈ order, (iface i).priority ≠ level) :
    gatewayPass iface count preferred skip max level ((order.take max).map (candidate iface)) =
      ((order ++ levelOrder iface count preferred skip level).take max).map (candidate iface) := by
  have hfirst : (if preferred < count ∧ preferred ≠ skip ∧ (iface preferred).priority = level then
      gatewayOffer iface max preferred ((order.take max).map (candidate iface))
      else (order.take max).map (candidate iface)) =
      ((order ++ [preferred].filter fun i ↦ Eligible iface count skip i ∧
        (iface i).priority = level).take max).map (candidate iface) := by
    split_ifs with hturn
    · rw [gatewayOffer_eq fun hmem ↦ hnew _ hmem hturn.2.2]
      congr 2
      grind [Eligible]
    · congr 2
      grind [Eligible]
  unfold gatewayPass
  rw [hfirst, foldl_gatewayOffer (fun i hi ↦ List.mem_range.mp hi) List.nodup_range (by grind),
    List.append_assoc, ← List.filter_append]
  rfl

/-- **The passes from one level on** write the interfaces pending there, in order. -/
theorem gatewayLevels_order (iface : ℕ → GatewayIface) (count preferred skip max : ℕ)
    (level : Option ℤ) (order : List ℕ) (hdone : ∀ i ∈ order, ∃ l ∈ level, l ≤ (iface i).priority) :
    ∃ rest, gatewayLevels iface count preferred skip max level
        ((order.take max).map (candidate iface)) =
          ((order ++ rest).take max).map (candidate iface) ∧
      (∀ i, i ∈ rest ↔ Pending iface count skip level i) ∧
      rest.Pairwise (Before iface preferred) := by
  obtain ⟨hfound, hall⟩ := nextLevel_spec iface count skip level
  rw [gatewayLevels]
  split
  · next hnone =>
    rw [hnone] at hall
    exact ⟨[], by rw [List.append_nil], by simpa using hall, .nil⟩
  · next next hnext =>
    have hbelow : ∀ l ∈ level, next < l := by
      obtain ⟨i, hi, rfl⟩ := hfound next hnext
      exact hi.2
    have hmem : ∀ i, Pending iface count skip level i ↔
        (Eligible iface count skip i ∧ (iface i).priority = next) ∨
          Pending iface count skip (some next) i := by
      intro i
      refine ⟨fun hi ↦ ?_, ?_⟩
      · obtain ⟨l, hl, hle⟩ := hall i hi
        obtain rfl := Option.some.inj (hnext.symm.trans hl)
        refine hle.eq_or_lt.imp (⟨hi.1, ·⟩) fun hlt ↦ ⟨hi.1, fun l hl ↦ ?_⟩
        exact Option.some.inj hl ▸ hlt
      · rintro (⟨hi, rfl⟩ | hi)
        · exact ⟨hi, hbelow⟩
        · exact ⟨hi.1, fun l hl ↦ (hi.2 next rfl).trans (hbelow l hl)⟩
    have hnew : ∀ i ∈ order, (iface i).priority ≠ next := by
      intro i hi heq
      obtain ⟨l, hl, hle⟩ := hdone i hi
      exact absurd (hbelow l hl) (not_lt.mpr (hle.trans heq.le))
    -- The levels above and this one are done when the passes below it begin.
    obtain ⟨rest, hrest, hpending, hpairwise⟩ := gatewayLevels_order iface count preferred skip max
      (some next) (order ++ levelOrder iface count preferred skip next) fun i hi ↦ by
        refine ⟨next, rfl, ?_⟩
        rcases List.mem_append.mp hi with hi | hi
        · obtain ⟨l, hl, hle⟩ := hdone i hi
          exact (hbelow l hl).le.trans hle
        · exact (mem_levelOrder.mp hi).2.ge
    refine ⟨levelOrder iface count preferred skip next ++ rest, ?_, fun i ↦ ?_, ?_⟩
    · rw [gatewayPass_eq hnew, hrest, List.append_assoc]
    · rw [List.mem_append, mem_levelOrder, hpending, hmem]
    · refine List.pairwise_append.mpr ⟨pairwise_levelOrder next, hpairwise, fun i hi j hj ↦ .inl ?_⟩
      rw [(mem_levelOrder.mp hi).2]
      exact ((hpending j).mp hj).2 next rfl
termination_by ((List.range count).filter (Pending iface count skip level)).length
decreasing_by exact pending_nextLevel_lt iface count skip (by assumption)

end

/-- **The candidates.** They are the eligible interfaces, each once, by descending priority, the
preferred one first among equals and then by index, cut to the room there is. -/
theorem gatewayCandidates_order (iface : ℕ → GatewayIface) (count preferred skip max : ℕ) :
    ∃ order : List ℕ,
      gatewayCandidates (some iface) count preferred skip (some max) =
        (order.take max).map (candidate iface) ∧
      (∀ i, i ∈ order ↔ Eligible iface (min count cfgMaxAttached) skip i) ∧
      order.Nodup ∧ order.Pairwise (Before iface preferred) := by
  obtain ⟨order, hresult, hmem, hbefore⟩ := gatewayLevels_order iface
    (min count cfgMaxAttached) preferred skip max none [] (by simp)
  have hpending : ∀ i, Pending iface (min count cfgMaxAttached) skip none i ↔
      Eligible iface (min count cfgMaxAttached) skip i :=
    fun i ↦ ⟨And.left, fun hi ↦ ⟨hi, by simp⟩⟩
  refine ⟨order, by simpa [gatewayCandidates] using hresult, fun i ↦ (hmem i).trans (hpending i),
    ?_, hbefore⟩
  refine hbefore.imp fun h ↦ ?_
  rintro rfl
  rcases h with hlt | ⟨-, ⟨heq, hne⟩ | ⟨-, -, hlt⟩⟩
  · exact lt_irrefl _ hlt
  · exact hne heq
  · exact lt_irrefl _ hlt

end AmiNetXDuo.Netstack
