import FieldExtract.Axes
import FieldExtract.Proofs.FirstSeen

/-!
# Axes folded from pairs

An engine may report a name in several pairs and a value under it several times. The axes keep each
name where it first occurs and each of its values where that first occurs among all that is reported
for the name, and nothing besides. No other axes do, so they can be folded from what they hold
already and the pairs to come, and axes that are written out and folded again are the same.
-/

namespace FieldExtract

namespace Axes

/-- All that pairs report under a name, pair after pair. -/
def reported (name : String) (pairs : List (String × List String)) : List String :=
  (pairs.filter fun p => p.1 = name).flatMap Prod.snd

section

variable {name : String} {pairs more : List (String × List String)} {p : String × List String}

theorem reported_append :
    reported name (pairs ++ more) = reported name pairs ++ reported name more := by
  rw [reported, List.filter_append, List.flatMap_append]
  rfl

theorem reported_singleton : reported name [p] = if p.1 = name then p.2 else [] := by
  unfold reported
  split
  · next h => simp [h]
  · next h => simp [h]

theorem reported_eq_nil_iff : reported name pairs = [] ↔ ∀ p ∈ pairs, p.1 = name → p.2 = [] := by
  simp [reported]

theorem reported_of_not_mem (h : name ∉ pairs.map Prod.fst) : reported name pairs = [] := by
  rw [reported_eq_nil_iff]
  rintro p hp rfl
  exact absurd (List.mem_map_of_mem hp) h

theorem reported_of_mem (hNames : (pairs.map Prod.fst).Nodup) (hp : p ∈ pairs) :
    reported p.1 pairs = p.2 := by
  obtain ⟨before, after, rfl⟩ := List.append_of_mem hp
  rw [List.map_append, List.map_cons, List.nodup_middle, List.nodup_cons, List.mem_append,
    not_or] at hNames
  obtain ⟨⟨hBefore, hAfter⟩, _⟩ := hNames
  rw [← List.singleton_append, reported_append, reported_append, reported_singleton, if_pos rfl,
    reported_of_not_mem hBefore, reported_of_not_mem hAfter, List.nil_append, List.append_nil]

end

/-- The map holds what the pairs report, and under another name nothing. -/
structure Groups (m : OrderedMap String (OrderedSet String)) (pairs : List (String × List String)) :
    Prop where
  names : FirstSeen m.names (pairs.map Prod.fst)
  values : ∀ name, FirstSeen ((m.get? name).getD OrderedSet.empty).toList (reported name pairs)

section

variable {m n : OrderedMap String (OrderedSet String)} {pairs : List (String × List String)}

theorem groups_empty : Groups OrderedMap.empty [] :=
  ⟨firstSeen_self List.nodup_nil, fun _ => firstSeen_self List.nodup_nil⟩

theorem Groups.addPair (h : Groups m pairs) (p : String × List String) :
    Groups (addPair m p) (pairs ++ [p]) where
  names := by
    rw [List.map_append]
    exact OrderedMap.firstSeen_insert h.names p.1 _
  values name := by
    rw [Axes.addPair, OrderedMap.get?_insert, reported_append, reported_singleton]
    by_cases hName : name = p.1
    · subst hName
      rw [if_pos rfl, if_pos rfl]
      exact OrderedSet.firstSeen_insertMany (h.values p.1) p.2
    · rw [if_neg hName, if_neg (Ne.symm hName), List.append_nil]
      exact h.values name

theorem Groups.foldl_addPair (h : Groups m pairs) (more : List (String × List String)) :
    Groups (more.foldl Axes.addPair m) (pairs ++ more) := by
  induction more generalizing m pairs with
  | nil => rwa [List.append_nil]
  | cons p more ih =>
    have hRest := ih (h.addPair p)
    rwa [List.append_assoc] at hRest

/-- The pairs leave no choice of names, of values or of their order. -/
theorem Groups.eq (h : Groups m pairs) (hOther : Groups n pairs) : m = n := by
  have hNames : m.names = n.names := h.names.eq hOther.names
  apply OrderedMap.ext_get? hNames
  intro name
  have hValues := (h.values name).eq (hOther.values name)
  cases hFound : m.get? name with
  | none =>
    have hAbsent : name ∉ n.names := hNames ▸ OrderedMap.get?_eq_none_iff.mp hFound
    exact (OrderedMap.get?_eq_none_iff.mpr hAbsent).symm
  | some s =>
    cases hFound' : n.get? name with
    | none =>
      have hAbsent : name ∉ m.names := hNames ▸ OrderedMap.get?_eq_none_iff.mp hFound'
      cases (OrderedMap.get?_eq_none_iff.mpr hAbsent).symm.trans hFound
    | some t =>
      rw [hFound, hFound'] at hValues
      exact congrArg some (OrderedSet.ext_toList hValues)

end

theorem names_eq_map (found : Axes) : found.names = found.pairs.map Prod.fst := by
  rw [Axes.pairs, List.map_map]
  rfl

theorem get?_eq_some_iff {found : Axes} {name : String} {values : List String} :
    found.get? name = some values ↔ (name, values) ∈ found.pairs := by
  simp only [get?, Option.map_eq_some_iff, OrderedMap.get?_eq_some_iff, Axes.pairs, List.mem_map,
    Prod.mk.injEq, Prod.exists]
  constructor
  · rintro ⟨seen, hSeen, rfl⟩
    exact ⟨name, seen, hSeen, rfl, rfl⟩
  · rintro ⟨_, seen, hSeen, rfl, rfl⟩
    exact ⟨seen, hSeen, rfl⟩

/-- Each name once and where it first occurs, and under it each value once and where it first occurs
among all that is reported for the name. -/
structure Folds (found : Axes) (level : Nat) (pairs : List (String × List String)) : Prop where
  level_eq : found.level = level
  names : FirstSeen (found.pairs.map Prod.fst) (pairs.map Prod.fst)
  values : ∀ p ∈ found.pairs, FirstSeen p.2 (reported p.1 pairs)

section

variable {found : Axes} {level : Nat} {pairs : List (String × List String)}

theorem Groups.folds (h : Groups found.axes pairs) : found.Folds found.level pairs where
  level_eq := rfl
  names := found.names_eq_map ▸ h.names
  values p hp := by
    obtain ⟨s, hFound, hValues⟩ := Option.map_eq_some_iff.mp (get?_eq_some_iff.mpr hp)
    have hSeen := h.values p.1
    rwa [hFound, Option.getD_some, hValues] at hSeen

theorem Folds.groups (h : found.Folds level pairs) : Groups found.axes pairs where
  names := by
    have hNames := h.names
    rwa [← names_eq_map] at hNames
  values name := by
    cases hFound : found.axes.get? name with
    | none =>
      have hAbsent : name ∉ found.pairs.map Prod.fst :=
        found.names_eq_map ▸ OrderedMap.get?_eq_none_iff.mp hFound
      rw [reported_of_not_mem fun hMem => hAbsent ((h.names.mem_iff name).mpr hMem)]
      exact firstSeen_self List.nodup_nil
    | some s =>
      have hPair : (name, s.toList) ∈ found.pairs :=
        get?_eq_some_iff.mp (Option.map_eq_some_iff.mpr ⟨s, hFound, rfl⟩)
      exact h.values (name, s.toList) hPair

theorem folds_ofPairs (level : Nat) (pairs : List (String × List String)) :
    (ofPairs level pairs).Folds level pairs :=
  (groups_empty.foldl_addPair pairs).folds

theorem Folds.eq_ofPairs (h : found.Folds level pairs) : found = ofPairs level pairs := by
  have hSame := h.groups.eq (folds_ofPairs level pairs).groups
  obtain ⟨hLevel, _, _⟩ := h
  subst hLevel
  exact congrArg (Axes.mk found.level) hSame

/-- Names and values that are written out have no repetitions left. -/
theorem folds_self (found : Axes) : found.Folds found.level found.pairs where
  level_eq := rfl
  names := firstSeen_self (found.names_eq_map ▸ found.axes.distinct)
  values p hp := by
    rw [reported_of_mem (found.names_eq_map ▸ found.axes.distinct) hp]
    obtain ⟨e, _, rfl⟩ := List.mem_map.mp hp
    exact firstSeen_self e.2.distinct

theorem ofPairs_pairs (found : Axes) : ofPairs found.level found.pairs = found :=
  found.folds_self.eq_ofPairs.symm

/-- Pairs with different names, and different values in each, are kept as they are. -/
theorem pairs_ofPairs (hNames : (pairs.map Prod.fst).Nodup) (hValues : ∀ p ∈ pairs, p.2.Nodup) :
    (ofPairs level pairs).pairs = pairs := by
  let entries := pairs.map fun p => (p.1, OrderedSet.ofList p.2)
  have hDistinct : (entries.map Prod.fst).Nodup := by
    rw [List.map_map]
    exact hNames
  let written : Axes := ⟨level, entries, hDistinct⟩
  have hWritten : written.pairs = pairs := by
    have hBack : ∀ p ∈ pairs, (p.1, (OrderedSet.ofList p.2).toList) = p := fun p hp => by
      rw [OrderedSet.toList_ofList (hValues p hp)]
    rw [Axes.pairs, List.map_map]
    exact (List.map_congr_left hBack).trans pairs.map_id
  have hFolded := written.ofPairs_pairs
  rw [hWritten] at hFolded
  rw [hFolded, hWritten]

/-- A name stands without values if no pair has any for it. -/
theorem mem_pairs_nil_iff (h : found.Folds level pairs) (name : String) :
    (name, []) ∈ found.pairs ↔
      name ∈ pairs.map Prod.fst ∧ ∀ p ∈ pairs, p.1 = name → p.2 = [] := by
  rw [← reported_eq_nil_iff]
  constructor
  · intro hPair
    refine ⟨(h.names.mem_iff name).mp (List.mem_map_of_mem hPair), ?_⟩
    exact List.eq_nil_iff_forall_not_mem.mpr fun v hv =>
      List.not_mem_nil (((h.values _ hPair).mem_iff v).mpr hv)
  · rintro ⟨hName, hNone⟩
    obtain ⟨⟨_, values⟩, hPair, rfl⟩ := List.mem_map.mp ((h.names.mem_iff name).mpr hName)
    have hSeen := h.values _ hPair
    rw [hNone] at hSeen
    have hValues : values = [] := hSeen.eq (firstSeen_self List.nodup_nil)
    rwa [hValues] at hPair

theorem ofPairs_append (level : Nat) (pairs more : List (String × List String)) :
    ofPairs level (pairs ++ more) = ofPairs level ((ofPairs level pairs).pairs ++ more) := by
  have hBack : (ofPairs level pairs).pairs.foldl addPair OrderedMap.empty =
      pairs.foldl addPair OrderedMap.empty :=
    congrArg Axes.axes (ofPairs_pairs (ofPairs level pairs))
  rw [ofPairs, ofPairs, List.foldl_append, List.foldl_append, hBack]

/-- The axes are the only ones that fold the pairs. Every name that is reported is among theirs,
with values or without; more pairs can be folded in later, and writing them out loses nothing. -/
theorem ofPairs_lossless (level : Nat) (pairs : List (String × List String)) :
    (∀ found : Axes, found.Folds level pairs ↔ found = ofPairs level pairs) ∧
    (∀ name, (name, []) ∈ (ofPairs level pairs).pairs ↔
      name ∈ pairs.map Prod.fst ∧ ∀ p ∈ pairs, p.1 = name → p.2 = []) ∧
    (∀ more, ofPairs level (pairs ++ more) = ofPairs level ((ofPairs level pairs).pairs ++ more)) ∧
    ∀ found : Axes, ofPairs found.level found.pairs = found := by
  have hFolds := folds_ofPairs level pairs
  refine ⟨fun found => ⟨Folds.eq_ofPairs, ?_⟩, mem_pairs_nil_iff hFolds, ofPairs_append level pairs,
    ofPairs_pairs⟩
  rintro rfl
  exact hFolds

example : (ofPairs 2 [("step", ["6", "0"]), ("param", []), ("step", ["0", "12", "6"])]).pairs =
    [("step", ["6", "0", "12"]), ("param", [])] := by decide

end

end Axes

end FieldExtract
