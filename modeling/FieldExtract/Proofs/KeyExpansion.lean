import FieldExtract.Proofs.CanonicalText
import Mathlib.Algebra.BigOperators.Group.List.Basic
import Mathlib.Data.List.Forall2

/-!
# The expansion of a key

A key expands into one key for each way to pick a value from every selector. The expansion counts:
the place of a key in it has one digit for each selector, the last changing fastest, and the digit
says which value was picked. So a key of single values expands into itself alone, and no other key
does.
-/

namespace FieldExtract.Key

/-- One value of a selector, under the name of the selector. -/
def Picks (chosen offered : String × Selector) : Prop :=
  chosen.1 = offered.1 ∧ ∃ v ∈ offered.2.values, chosen.2 = .single v

theorem mem_choices_iff {pairs chosen : List (String × Selector)} :
    chosen ∈ choices pairs ↔ List.Forall₂ Picks chosen pairs := by
  induction pairs generalizing chosen with
  | nil => rw [choices, List.mem_singleton, List.forall₂_nil_right_iff]
  | cons p rest ih =>
    simp only [choices, List.mem_flatMap, List.mem_map]
    constructor
    · rintro ⟨v, hv, tail, hTail, rfl⟩
      exact .cons ⟨rfl, v, hv, rfl⟩ (ih.mp hTail)
    · rintro (_ | ⟨⟨hName, v, hv, hValue⟩, hTail⟩)
      refine ⟨v, hv, _, ih.mpr hTail, ?_⟩
      rw [← hName, ← hValue]

theorem names_of_picks {pairs chosen : List (String × Selector)}
    (h : List.Forall₂ Picks chosen pairs) : chosen.map Prod.fst = pairs.map Prod.fst := by
  induction h with
  | nil => rfl
  | cons hHead _ ih => rw [List.map_cons, List.map_cons, hHead.1, ih]

variable {k one : Key} {pairs chosen other : List (String × Selector)} {i j : Nat}

theorem pairs_ofList_of_mem (h : chosen ∈ choices k.pairs) : (ofList chosen).pairs = chosen := by
  apply ofList_pairs
  rw [names_of_picks (mem_choices_iff.mp h)]
  exact k.selectors.distinct

theorem ofList_pairs_self (k : Key) : ofList k.pairs = k :=
  congrArg Key.mk (OrderedMap.ofList_entries k.selectors)

/-- A key stands for those keys that pick one value of each of its selectors, in its order. -/
theorem mem_expand_iff : one ∈ k.expand ↔ List.Forall₂ Picks one.pairs k.pairs := by
  rw [expand, List.mem_map]
  constructor
  · rintro ⟨chosen, hChosen, rfl⟩
    rw [pairs_ofList_of_mem hChosen]
    exact mem_choices_iff.mp hChosen
  · intro h
    exact ⟨one.pairs, mem_choices_iff.mpr h, ofList_pairs_self one⟩

theorem picked_of_mem (h : List.Forall₂ Picks chosen pairs) :
    ∀ p ∈ chosen, ∃ q ∈ pairs, Picks p q := by
  induction h with
  | nil => exact fun p hp => absurd hp List.not_mem_nil
  | cons hHead _ ih =>
    rintro p (_ | ⟨_, hp⟩)
    · exact ⟨_, List.mem_cons_self, hHead⟩
    · obtain ⟨q, hq, hPicks⟩ := ih p hp
      exact ⟨q, List.mem_cons_of_mem _ hq, hPicks⟩

theorem single_of_mem_expand (hOne : one ∈ k.expand) : one.Single := by
  rw [single_iff]
  intro p hp
  obtain ⟨_, _, _, v, _, hValue⟩ := picked_of_mem (mem_expand_iff.mp hOne) p hp
  exact ⟨v, hValue⟩

theorem choices_of_single (h : ∀ p ∈ pairs, ∃ v, p.2 = .single v) : choices pairs = [pairs] := by
  induction pairs with
  | nil => rfl
  | cons p rest ih =>
    obtain ⟨hHead, hRest⟩ := List.forall_mem_cons.mp h
    obtain ⟨name, selector⟩ := p
    obtain ⟨v, rfl⟩ := hHead
    rw [choices, ih hRest]
    rfl

theorem expand_eq_self_iff : k.expand = [k] ↔ k.Single := by
  constructor
  · intro h
    exact single_of_mem_expand (h ▸ List.mem_singleton_self k)
  · intro h
    rw [expand, choices_of_single h.exists_value, List.map_singleton, ofList_pairs_self]

/-- One pass over the keys made so far: each is continued with every value of the selector. -/
def extendAll (made : List Key) (p : String × Selector) : List Key :=
  made.flatMap fun k => p.2.values.map fun v => k.select p.1 (.single v)

theorem foldl_extendAll (made : List Key) (pairs : List (String × Selector)) :
    pairs.foldl extendAll made =
      made.flatMap fun k => (choices pairs).map fun chosen => ⟨k.selectors.insertMany chosen⟩ := by
  induction pairs generalizing made with
  | nil => simp [choices, OrderedMap.insertMany]
  | cons p rest ih =>
    rw [List.foldl_cons, ih, extendAll, List.flatMap_assoc]
    congr 1
    funext k
    rw [choices, List.flatMap_map, List.map_flatMap]
    simp only [List.map_map]
    rfl

/-- The same keys come of one pass for each selector, in the order of the selectors. -/
theorem expand_eq_foldl (k : Key) : k.expand = k.pairs.foldl extendAll [empty] := by
  rw [foldl_extendAll, List.flatMap_singleton]
  rfl

/-- Rows of equal length, one after the other: a quotient finds the row, a remainder the place. -/
theorem getElem?_flatMap_map {α β γ : Type} (f : α → β → γ) (xs : List α) (ys : List β) (i : Nat) :
    (xs.flatMap fun x => ys.map (f x))[i]? =
      xs[i / ys.length]?.bind fun x => ys[i % ys.length]?.map (f x) := by
  induction xs generalizing i with
  | nil => rfl
  | cons x xs ih =>
    rw [List.flatMap_cons, List.getElem?_append, List.length_map]
    split
    · next hRow =>
      rw [Nat.div_eq_of_lt hRow, Nat.mod_eq_of_lt hRow, List.getElem?_map]
      rfl
    · next hLater =>
      have hLe := Nat.le_of_not_lt hLater
      -- Rows may have no length, and then there is nothing to find in any.
      rcases Nat.eq_zero_or_pos ys.length with hNone | hSome
      · rw [ih, List.length_eq_zero_iff.mp hNone]
        simp
      · rw [ih, Nat.div_eq_sub_div hSome hLe, Nat.mod_eq_sub_mod hLe, List.getElem?_cons_succ]

/-- How many choices there are. -/
def volume (pairs : List (String × Selector)) : Nat := (pairs.map fun p => p.2.cardinality).prod

theorem length_choices_eq_volume (pairs : List (String × Selector)) :
    (choices pairs).length = volume pairs := by
  rw [length_choices, volume, List.prod_eq_foldr]

theorem volume_cons (p : String × Selector) (rest : List (String × Selector)) :
    volume (p :: rest) = p.2.cardinality * volume rest := by
  rw [volume, List.map_cons, List.prod_cons, volume]

/-- How many choices one value of the selector at this place lasts for. -/
def stride (pairs : List (String × Selector)) (j : Nat) : Nat := volume (pairs.drop (j + 1))

/-- From each selector the value is picked that its digit of the number counts to. -/
structure CountsTo (pairs : List (String × Selector)) (i : Nat)
    (chosen : List (String × Selector)) : Prop where
  length_eq : chosen.length = pairs.length
  digit : ∀ j name selector, pairs[j]? = some (name, selector) →
    ∃ v, selector.values[i / stride pairs j % selector.cardinality]? = some v ∧
      chosen[j]? = some (name, .single v)

theorem volume_eq_stride_mul {p : String × Selector} (h : pairs[j]? = some p) :
    ∃ n, volume pairs = stride pairs j * (p.2.cardinality * n) := by
  induction pairs generalizing j with
  | nil => cases h
  | cons q rest ih =>
    cases j with
    | zero =>
      cases h
      refine ⟨1, ?_⟩
      rw [volume_cons, Nat.mul_one, Nat.mul_comm]
      rfl
    | succ j =>
      obtain ⟨n, hRest⟩ := ih h
      refine ⟨q.2.cardinality * n, ?_⟩
      rw [volume_cons, hRest, Nat.mul_left_comm p.2.cardinality, Nat.mul_left_comm]
      rfl

/-- Whole rounds through all choices do not show in a digit. -/
theorem digit_mod_volume {p : String × Selector} (h : pairs[j]? = some p) :
    i % volume pairs / stride pairs j % p.2.cardinality =
      i / stride pairs j % p.2.cardinality := by
  obtain ⟨n, hVolume⟩ := volume_eq_stride_mul h
  rw [hVolume, Nat.mod_mul_right_div_self, Nat.mod_mul_right_mod]

theorem countsTo_of_getElem? (h : (choices pairs)[i]? = some chosen) : CountsTo pairs i chosen := by
  induction pairs generalizing i chosen with
  | nil =>
    have hMem := List.mem_of_getElem? h
    rw [choices, List.mem_singleton] at hMem
    subst hMem
    exact ⟨rfl, fun j name selector hAt => by cases hAt⟩
  | cons p rest ih =>
    rw [choices, getElem?_flatMap_map, Option.bind_eq_some_iff] at h
    obtain ⟨v, hValue, hPicked⟩ := h
    obtain ⟨tail, hTail, rfl⟩ := Option.map_eq_some_iff.mp hPicked
    have hRest := ih hTail
    rw [length_choices_eq_volume] at hValue
    refine ⟨congrArg (· + 1) hRest.length_eq, fun j name selector hAt => ?_⟩
    cases j with
    | zero =>
      cases hAt
      -- The first digit is never taken past its base, so the remainder changes nothing.
      have hDigit : i / volume rest < selector.cardinality :=
        (List.getElem?_eq_some_iff.mp hValue).1
      refine ⟨v, ?_, rfl⟩
      rw [← hValue, ← Nat.mod_eq_of_lt hDigit]
      rfl
    | succ j =>
      -- The other digits are those of the place within the row.
      rw [List.getElem?_cons_succ] at hAt
      obtain ⟨w, hDigit, hPlace⟩ := hRest.digit j name selector hAt
      have hSame : i % volume rest / stride rest j % selector.cardinality =
          i / stride rest j % selector.cardinality := digit_mod_volume hAt
      rw [length_choices_eq_volume, hSame] at hDigit
      exact ⟨w, hDigit, hPlace⟩

theorem CountsTo.unique (h : CountsTo pairs i chosen) (h' : CountsTo pairs i other) :
    chosen = other := by
  apply List.ext_getElem? fun j => ?_
  cases hAt : pairs[j]? with
  | none =>
    have hLe := List.getElem?_eq_none_iff.mp hAt
    rw [List.getElem?_eq_none (h.length_eq ▸ hLe), List.getElem?_eq_none (h'.length_eq ▸ hLe)]
  | some p =>
    obtain ⟨v, hValue, hPlace⟩ := h.digit j p.1 p.2 hAt
    obtain ⟨w, hValue', hPlace'⟩ := h'.digit j p.1 p.2 hAt
    cases hValue.symm.trans hValue'
    rw [hPlace, hPlace']

theorem getElem?_choices_iff :
    (choices pairs)[i]? = some chosen ↔ i < volume pairs ∧ CountsTo pairs i chosen := by
  rw [← length_choices_eq_volume]
  constructor
  · intro h
    exact ⟨(List.getElem?_eq_some_iff.mp h).1, countsTo_of_getElem? h⟩
  · rintro ⟨hLt, hCounts⟩
    have hAt := List.getElem?_eq_getElem hLt
    rw [hAt, (countsTo_of_getElem? hAt).unique hCounts]

theorem getElem?_expand_iff : k.expand[i]? = some one ↔ (choices k.pairs)[i]? = some one.pairs := by
  rw [expand, List.getElem?_map, Option.map_eq_some_iff]
  constructor
  · rintro ⟨chosen, hAt, rfl⟩
    rwa [pairs_ofList_of_mem (List.mem_of_getElem? hAt)]
  · intro hAt
    exact ⟨one.pairs, hAt, ofList_pairs_self one⟩

theorem cardinality_eq_volume (k : Key) : k.cardinality = volume k.pairs := by
  rw [cardinality, volume, List.prod_eq_foldr]

/-- There are as many keys as the selectors have values, multiplied. Each has the names of the key
and single values, and the one at a place is the one that the digits of the place count to. It
stands for itself alone, which of all keys only those without a list of values do. -/
theorem expand_counts (k : Key) :
    (k.expand.length = k.cardinality ∧
      k.cardinality = (k.pairs.map fun p => p.2.cardinality).prod) ∧
    (∀ one ∈ k.expand, one.selectors.names = k.selectors.names ∧
      ∀ p ∈ one.pairs, ∃ v, p.2 = .single v) ∧
    (∀ i one, k.expand[i]? = some one ↔ i < k.cardinality ∧ CountsTo k.pairs i one.pairs) ∧
    (∀ one ∈ k.expand, one.expand = [one]) ∧
    (k.expand = [k] ↔ k.isMultiValued = false) := by
  refine ⟨⟨?_, cardinality_eq_volume k⟩, fun one hOne => ⟨?_, ?_⟩, fun i one => ?_,
    fun one hOne => ?_, expand_eq_self_iff⟩
  · rw [expand, List.length_map, length_choices_eq_volume, cardinality_eq_volume]
  · exact names_of_picks (mem_expand_iff.mp hOne)
  · exact (single_of_mem_expand hOne).exists_value
  · rw [getElem?_expand_iff, getElem?_choices_iff, cardinality_eq_volume]
  · exact expand_eq_self_iff.mpr (single_of_mem_expand hOne)

/-- Five has the digits 0, 2 and 1 here: a list of one value and a value written twice count like
any others. -/
theorem expand_counts_of_three_lists :
    let k := ofList [("a", .multi ["x"]), ("b", .multi ["0", "0", "1"]), ("c", .multi ["p", "q"])]
    let one := ofList [("a", .single "x"), ("b", .single "1"), ("c", .single "q")]
    k.expand.length = 6 ∧ one ∈ k.expand ∧ CountsTo k.pairs 5 one.pairs ∧
      one.selectors.names = k.selectors.names ∧ one.expand = [one] ∧ k.expand ≠ [k] := by
  intro k one
  obtain ⟨⟨hLength, _⟩, hNames, hCounts, hAlone, hSelf⟩ := expand_counts k
  have hAt : k.expand[5]? = some one := by decide +kernel
  have hMem : one ∈ k.expand := List.mem_of_getElem? hAt
  refine ⟨hLength.trans (by decide), hMem, ((hCounts 5 one).mp hAt).2, (hNames one hMem).1,
    hAlone one hMem, fun h => ?_⟩
  exact absurd (hSelf.mp h) (by decide)

end FieldExtract.Key
