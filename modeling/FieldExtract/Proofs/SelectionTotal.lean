import FieldExtract.Proofs.Traversal
import FieldExtract.Selection.Mask

/-!
# How much a mask and a list of points select

The runs of a mask add up to its set bits and the ranges of points to the number of points. A
caller who can hold the mask or the points can therefore count what they select.
-/

namespace FieldExtract.Selection

theorem total_cons (r : Range) (s : Selection) : total (r :: s) = r.len + s.total := rfl

theorem total_of_units {s : Selection} (h : ∀ r ∈ s, r.len = 1) : s.total = s.length := by
  induction s with
  | nil => rfl
  | cons r s ih =>
    rw [total_cons, h r List.mem_cons_self, ih fun q hq => h q (List.mem_cons_of_mem r hq),
      List.length_cons, Nat.add_comm]

/-- A point is accepted by itself, so the points are if each of them is. -/
theorem ofPoints_eq_ok_iff {points : List Nat} {s : Selection} :
    ofPoints points = .ok s ↔
      points ≠ [] ∧ (∀ p ∈ points, p < maxPosition) ∧ s = points.map Range.unit := by
  unfold ofPoints
  split
  · next hNone =>
    simp only [reduceCtorEq, false_iff, not_and]
    exact fun hSome => absurd (List.isEmpty_iff.mp hNone) hSome
  · next hSome =>
    have hUnit : ∀ (i p : Nat) (r : Range),
        (if p < maxPosition then .ok (Range.unit p) else .error (.pointOverflow i p)) =
          (.ok r : Except RangeError Range) ↔ p < maxPosition ∧ Range.unit p = r := by
      intro i p r
      split
      · next hp => simp only [Except.ok.injEq, hp, true_and]
      · next hp => simp only [reduceCtorEq, hp, false_and]
    rw [collectFrom_eq_ok_iff hUnit, List.forall₂_and_left,
      ← List.forall₂_map_left_iff (R := fun q r => q = r), List.forall₂_eq_eq_eq]
    have hNil : points ≠ [] := by simpa using hSome
    simp only [ne_eq, hNil, not_false_eq_true, true_and, eq_comm]

theorem ofPoints_of_lt {points : List Nat} (hSome : points ≠ [])
    (h : ∀ p ∈ points, p < maxPosition) : ofPoints points = .ok (points.map Range.unit) :=
  ofPoints_eq_ok_iff.mpr ⟨hSome, h, rfl⟩

theorem len_of_mem_units {points : List Nat} {r : Range} (h : r ∈ points.map Range.unit) :
    r.len = 1 := by
  obtain ⟨p, _, rfl⟩ := List.mem_map.mp h
  exact Nat.add_sub_cancel_left p 1

theorem ofPoints_sound {points : List Nat} {s : Selection} (h : ofPoints points = .ok s) :
    s ≠ [] ∧ s.total = points.length := by
  obtain ⟨hSome, _, rfl⟩ := ofPoints_eq_ok_iff.mp h
  refine ⟨by rwa [Ne, List.map_eq_nil_iff], ?_⟩
  rw [total_of_units fun r => len_of_mem_units, List.length_map]

theorem total_append (s t : Selection) : total (s ++ t) = s.total + t.total := by
  induction s with
  | nil => exact (Nat.zero_add _).symm
  | cons r s ih => rw [List.cons_append, total_cons, total_cons, ih, Nat.add_assoc]

theorem total_toList (opened : Option Range) :
    total opened.toList = (opened.map Range.len).getD 0 := by
  cases opened <;> rfl

/-- The run that is still open counts with the length that it has so far. -/
theorem total_runsFrom (p : Nat) (opened : Option Range) (mask : List Bool) :
    (runsFrom p opened mask).total = (opened.map Range.len).getD 0 + mask.count true := by
  induction mask generalizing p opened with
  | nil => rw [runsFrom, total_toList, List.count_nil, Nat.add_zero]
  | cons bit mask ih =>
    cases bit with
    | false =>
      rw [runsFrom, total_append, ih, total_toList, List.count_cons_of_ne (by decide)]
      simp
    | true =>
      rw [runsFrom, ih, List.count_cons_self]
      cases opened with
      | none =>
        simp only [Option.map_none, Option.map_some, Option.getD_none, Option.getD_some, Range.unit,
          Range.len]
        omega
      | some r =>
        have := r.lo_lt_hi
        simp only [Option.map_some, Option.getD_some, Range.extend, Range.len]
        omega

theorem ofMask_sound {mask : List Bool} {s : Selection} (h : ofMask mask = .ok s) :
    s ≠ [] ∧ s.total = mask.count true := by
  unfold ofMask at h
  split at h
  · cases h
  · next hSome =>
    cases h
    refine ⟨by simpa using hSome, ?_⟩
    rw [runs, total_runsFrom]
    exact Nat.zero_add _

end FieldExtract.Selection
