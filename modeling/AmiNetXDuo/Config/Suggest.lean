import AmiNetXDuo.Config.Interface
import AmiNetXDuo.Lib.EditDistance
import Mathlib.Data.List.Infix

/-!
# The keyword a misspelt word is taken for

For a keyword of an interface file that is not in the table, the parser asks the user whether
another one was meant (`suggest_if_keyword`). It takes the keyword with the least edit distance,
which `edit_distance` computes with two rows of a table: the row for the letters of the word read
so far, and the one being filled.

## Main definitions

* `editCells`, `editRows`, `editDistance` : one row, all of them, and the distance.
* `nearestLoop`, `suggestIfKeyword` : the loop over the table.
* `IsFirstNearest` : what the loop looks for.

## Main results

* `editDistance_eq` : the two rows compute the Levenshtein distance of the word in small letters.
* `nearestLoop_cases` : the loop finds the first of the nearest, or nothing is near enough.
* `suggestIfKeyword_nearest` : both together, over the keywords of interface files.
-/

namespace AmiNetXDuo.Config

open AmiNetXDuo.Lib
open AmiNetXDuo.Netstack (domainFold)

/-- `CFG_SUGGEST_MAX`. -/
def cfgSuggestMax : ℕ := 24

/-! ### The two rows -/

/-- The value of a cell: the least of the three, by comparing one after the other. -/
def editBest (sub del ins : ℕ) : ℕ :=
  let best := sub
  let best := if del < best then del else best
  if ins < best then ins else best

theorem editBest_eq (sub del ins : ℕ) : editBest sub del ins = min sub (min del ins) := by
  simp only [editBest]
  split_ifs <;> omega

/-- The loop over `j`, which fills `curr[1..lb]` with `left` for `curr[j - 1]`. -/
def editCells (ca : UInt8) : ℕ → List ℕ → List UInt8 → List ℕ
  | left, corner :: above :: prev, c :: b =>
    let sub := corner + if ca = c then 0 else 1
    let del := above + 1
    let ins := left + 1
    let best := editBest sub del ins
    best :: editCells ca best (above :: prev) b
  | _, _, _ => []

/-- The loop over `i`, from the letters of the word that are left on. -/
def editRows (b : List UInt8) : ℕ → List UInt8 → List ℕ → List ℕ
  | _, [], prev => prev
  | i, ca :: a, prev =>
    editRows b (i + 1) a ((i + 1) :: editCells (domainFold ca) (i + 1) prev b)

/-- `edit_distance`. -/
def editDistance (a b : List UInt8) : ℕ :=
  if cfgSuggestMax < a.length ∨ cfgSuggestMax < b.length then cfgSuggestMax + 1
  else (editRows b 0 a (List.range (b.length + 1))).getD b.length 0

theorem inits_eq (v : List UInt8) : v.inits = [] :: v.inits.tail := by
  cases v with
  | nil => rfl
  | cons c v => simp

/-- One row, behind the letters `u` of the keyword: it holds the distances of the word with one
letter more to the beginnings of the keyword. -/
theorem editCells_eq (ca : UInt8) (w u v : List UInt8) :
    editCells ca (levenshtein (w ++ [ca]) u) (v.inits.map fun t ↦ levenshtein w (u ++ t)) v =
      v.inits.tail.map fun t ↦ levenshtein (w ++ [ca]) (u ++ t) := by
  induction v generalizing u with
  | nil => simp [editCells]
  | cons c v ih =>
    have hbest := levenshtein_concat ca c w u
    have hnext := ih (u ++ [c])
    simp only [List.append_assoc, List.singleton_append] at hnext
    simp only [List.inits_cons, List.map_cons, List.map_map, List.append_nil, List.tail_cons]
    rw [inits_eq v] at hnext ⊢
    simp only [List.map_cons, Function.comp_def, List.tail_cons, editCells] at hnext ⊢
    rw [← hnext]
    have hcell := editBest_eq (levenshtein w u + if ca = c then 0 else 1)
      (levenshtein w (u ++ [c]) + 1) (levenshtein (w ++ [ca]) u + 1)
    rw [hcell, ← hbest]

/-- The rows of the letters `a`, behind the letters `w`. -/
theorem editRows_eq (b w a : List UInt8) :
    editRows b w.length a (b.inits.map (levenshtein w)) =
      b.inits.map (levenshtein (w ++ a.map domainFold)) := by
  induction a generalizing w with
  | nil => simp [editRows]
  | cons ca a ih =>
    have hrow : (w.length + 1) :: editCells (domainFold ca) (w.length + 1)
        (b.inits.map (levenshtein w)) b = b.inits.map (levenshtein (w ++ [domainFold ca])) := by
      have hcells := editCells_eq (domainFold ca) w [] b
      simp only [levenshtein_nil_right, List.length_append, List.length_singleton,
        List.nil_append] at hcells
      rw [hcells]
      conv_rhs => rw [inits_eq b]
      simp
    have hnext := ih (w ++ [domainFold ca])
    rw [List.length_append, List.length_singleton, List.append_assoc, List.singleton_append]
      at hnext
    rw [editRows, hrow, hnext, List.map_cons]

theorem inits_map_length (b : List UInt8) :
    b.inits.map List.length = List.range (b.length + 1) := by
  apply List.ext_getElem
  · simp
  · intro i hi _
    have hle : i ≤ b.length := by simpa [Nat.lt_succ_iff] using hi
    simp [Nat.min_eq_left hle]

/-- **The distance of a word and a keyword.** -/
theorem editDistance_eq {a b : List UInt8} (ha : a.length ≤ cfgSuggestMax)
    (hb : b.length ≤ cfgSuggestMax) :
    editDistance a b = levenshtein (a.map domainFold) b := by
  have hstart : List.range (b.length + 1) = b.inits.map (levenshtein []) := by
    rw [← inits_map_length]
    exact List.map_congr_left fun t _ ↦ (levenshtein_nil_left t).symm
  have hrows := editRows_eq b [] a
  rw [List.length_nil, List.nil_append] at hrows
  have hlast : b.length < (b.inits.map (levenshtein (a.map domainFold))).length := by simp
  rw [editDistance, if_neg (by omega), hstart, hrows, List.getD_eq_getElem _ _ hlast]
  simp

/-! ### The loop over the table -/

/-- The loop of `suggest_if_keyword` with the distance of a keyword for `d`. -/
def nearestLoop {κ : Type} (d : κ → ℕ) : List κ → Option κ → ℕ → Option κ
  | [], best, _ => best
  | keyword :: table, best, bestd =>
    if d keyword < bestd then nearestLoop d table (some keyword) (d keyword)
    else nearestLoop d table best bestd

/-- `suggest_if_keyword`. -/
def suggestIfKeyword (name : List UInt8) : Option String :=
  nearestLoop (fun keyword ↦ editDistance name (bytes keyword)) (ifKeywords.map Prod.fst) none 3

/-- `k` stands in the table, nothing in front of it is as near and nothing behind it is nearer. -/
def IsFirstNearest {κ : Type} (d : κ → ℕ) (table : List κ) (k : κ) : Prop :=
  ∃ before behind, table = before ++ k :: behind ∧ (∀ j ∈ before, d k < d j) ∧
    ∀ j ∈ behind, d k ≤ d j

/-- What the loop keeps: the best so far, until something nearer comes. -/
theorem nearestLoop_cases {κ : Type} (d : κ → ℕ) (table : List κ) (best : Option κ) (bestd : ℕ) :
    (nearestLoop d table best bestd = best ∧ ∀ j ∈ table, bestd ≤ d j) ∨
      ∃ k, nearestLoop d table best bestd = some k ∧ IsFirstNearest d table k ∧ d k < bestd := by
  induction table generalizing best bestd with
  | nil => exact .inl ⟨rfl, by simp⟩
  | cons j table ih =>
    rw [nearestLoop]
    by_cases hj : d j < bestd
    · rw [if_pos hj]
      right
      obtain ⟨hsame, hfar⟩ | ⟨k, hk, ⟨before, behind, rfl, hbefore, hbehind⟩, hlt⟩ :=
        ih (some j) (d j)
      · exact ⟨j, hsame, ⟨[], table, rfl, by simp, hfar⟩, hj⟩
      · exact ⟨k, hk, ⟨j :: before, behind, rfl, by simpa using ⟨hlt, hbefore⟩, hbehind⟩,
          hlt.trans hj⟩
    · rw [if_neg hj]
      obtain ⟨hsame, hfar⟩ | ⟨k, hk, ⟨before, behind, rfl, hbefore, hbehind⟩, hlt⟩ := ih best bestd
      · exact .inl ⟨hsame, by simpa using ⟨Nat.le_of_not_lt hj, hfar⟩⟩
      · have hjk : d k < d j := hlt.trans_le (Nat.le_of_not_lt hj)
        exact .inr ⟨k, hk, ⟨j :: before, behind, rfl, by simpa using ⟨hjk, hbefore⟩, hbehind⟩, hlt⟩

/-- No keyword of the table is longer than the rows. -/
theorem ifKeywords_length_le :
    ∀ keyword ∈ ifKeywords.map Prod.fst, (bytes keyword).length ≤ cfgSuggestMax := by
  decide +kernel

theorem IsFirstNearest.congr {κ : Type} {d e : κ → ℕ} {table : List κ} {k : κ}
    (h : IsFirstNearest d table k) (hde : ∀ j ∈ table, d j = e j) : IsFirstNearest e table k := by
  obtain ⟨before, behind, rfl, hbefore, hbehind⟩ := h
  have hk : d k = e k := hde k (by simp)
  refine ⟨before, behind, rfl, fun j hj ↦ ?_, fun j hj ↦ ?_⟩
  · rw [← hk, ← hde j (by simp [hj])]
    exact hbefore j hj
  · rw [← hk, ← hde j (by simp [hj])]
    exact hbehind j hj

/-- **The suggestion for a misspelt keyword.** The distance is the Levenshtein distance of the word
in small letters to the keyword, and the suggestion is the first keyword of the table at the least
distance, when that is below three. -/
theorem suggestIfKeyword_nearest (name : List UInt8) (hname : name.length ≤ cfgSuggestMax) :
    (∀ keyword : List UInt8, keyword.length ≤ cfgSuggestMax →
      editDistance name keyword = levenshtein (name.map domainFold) keyword) ∧
    ((suggestIfKeyword name = none ∧ ∀ keyword ∈ ifKeywords.map Prod.fst,
        3 ≤ levenshtein (name.map domainFold) (bytes keyword)) ∨
      ∃ keyword, suggestIfKeyword name = some keyword ∧
        IsFirstNearest (fun k ↦ levenshtein (name.map domainFold) (bytes k))
          (ifKeywords.map Prod.fst) keyword ∧
        levenshtein (name.map domainFold) (bytes keyword) < 3) := by
  have hdist : ∀ keyword ∈ ifKeywords.map Prod.fst,
      editDistance name (bytes keyword) = levenshtein (name.map domainFold) (bytes keyword) :=
    fun keyword hmem ↦ editDistance_eq hname (ifKeywords_length_le keyword hmem)
  refine ⟨fun keyword hkeyword ↦ editDistance_eq hname hkeyword, ?_⟩
  obtain ⟨hnone, hfar⟩ | ⟨keyword, hsome, hfirst, hlt⟩ :=
    nearestLoop_cases (fun k ↦ editDistance name (bytes k)) (ifKeywords.map Prod.fst) none 3
  · exact .inl ⟨hnone, fun keyword hmem ↦ hdist keyword hmem ▸ hfar keyword hmem⟩
  · have hmem : keyword ∈ ifKeywords.map Prod.fst := by
      obtain ⟨before, behind, htable, -, -⟩ := hfirst
      rw [htable]
      simp
    exact .inr ⟨keyword, hsome, hfirst.congr hdist, hdist keyword hmem ▸ hlt⟩

/-- The word `DEVCIE`, two edits from `device`. -/
theorem suggestIfKeyword_nearest_devcie :
    (bytes "DEVCIE").length ≤ cfgSuggestMax ∧ suggestIfKeyword (bytes "DEVCIE") = some "device" ∧
      editDistance (bytes "DEVCIE") (bytes "device") =
        levenshtein ((bytes "DEVCIE").map domainFold) (bytes "device") := by
  have hlength : (bytes "DEVCIE").length ≤ cfgSuggestMax := by decide +kernel
  exact ⟨hlength, by decide +kernel,
    (suggestIfKeyword_nearest (bytes "DEVCIE") hlength).1 (bytes "device") (by decide +kernel)⟩

end AmiNetXDuo.Config
