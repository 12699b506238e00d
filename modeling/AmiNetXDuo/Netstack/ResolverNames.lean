import AmiNetXDuo.Netstack.RouterAdvert

/-!
# Names in the resolver

The search suffixes and the host names of the resolver, from the configuration file or from a DHCP
lease: which names are taken, which two are the same, and how the search list grows.

## Main definitions

* `hostnameValid`, `domainSame` : which suffixes are taken, and which are the same.
* `SearchList`, `searchOffer` : the search list, and a suffix offered to it.

## Main results

* `domainSame_iff` : two names are the same when they agree after folding.
-/

namespace AmiNetXDuo.Netstack

/-- `AMI_CFG_MAX_SEARCH`. -/
def cfgMaxSearch : ℕ := 6

/-- `AMI_CFG_NAME_LEN`, with the terminating zero. -/
def cfgNameLen : ℕ := 64

/-- A name, without its terminating zero. -/
abbrev Domain := List UInt8

/-- `ami_ns_domain_fold` and `to_lower`: the letters A to Z, nothing else. -/
def domainFold (c : UInt8) : UInt8 :=
  if 0x41 ≤ c ∧ c ≤ 0x5A then c + 0x20 else c

/-- `ami_ns_domain_same`, and `ami_cfg_stricmp` answering zero. -/
def domainSame : Domain → Domain → Bool
  | [], [] => true
  | a :: as, b :: bs => if domainFold a ≠ domainFold b then false else domainSame as bs
  | _, _ => false

/-- `label_valid`: a label of RFC 1123. -/
def labelValid (label : List UInt8) : Bool :=
  label.length ≠ 0 && label.length ≤ 63 && label.head? ≠ some 0x2D && label.getLast? ≠ some 0x2D &&
    label.all fun c ↦ (0x61 ≤ c && c ≤ 0x7A) || (0x41 ≤ c && c ≤ 0x5A) ||
      (0x30 ≤ c && c ≤ 0x39) || c = 0x2D

/-- `ami_config_hostname_valid`: it fits, and every label between the dots is one. -/
def hostnameValid (name : Domain) : Bool :=
  name ≠ [] && name.length < cfgNameLen && (name.splitOn 0x2E).all labelValid

/-- One entry of `search[]` with its `search_use[]`. -/
structure SearchRow where
  name : Domain
  use : ℕ
  deriving DecidableEq, Repr

/-- `search[]`, whose first `searchStatic` entries are the file's. -/
structure SearchList where
  search : List SearchRow
  searchStatic : ℕ
  deriving DecidableEq, Repr

/-- `ami_config_search_offer`; `none` is the source's FALSE. -/
def searchOffer (s : SearchList) (domain : Domain) : Option SearchList :=
  if domain = [] ∨ hostnameValid domain = false then none
  else if s.search.any fun r ↦ domainSame r.name domain then none
  else if cfgMaxSearch ≤ s.search.length then none
  else some { s with search := s.search ++ [⟨domain.take (cfgNameLen - 1), 1⟩] }

/-- Names are compared with their letters folded. -/
def domainKey (domain : Domain) : Domain :=
  domain.map domainFold

theorem domainSame_iff {a b : Domain} : domainSame a b = true ↔ domainKey a = domainKey b := by
  induction a generalizing b with
  | nil => cases b <;> simp [domainSame, domainKey]
  | cons x a ih =>
    cases b with
    | nil => simp [domainSame, domainKey]
    | cons y b =>
      rw [domainSame]
      by_cases hxy : domainFold x = domainFold y
      · rw [if_neg (not_not.mpr hxy), ih]
        simp [domainKey, hxy]
      · rw [if_pos hxy]
        simp [domainKey, hxy]

end AmiNetXDuo.Netstack
