import FieldExtract.Proofs.MaskCover

/-!
# Points as ranges of length one

Points and ranges name the same thing in two ways. A list of points is turned into unit ranges and
read back as it was, with its order and its repetitions, unless one of the points has no position
behind it. A selection is taken apart into unit ranges that name its positions and have its masks;
these are the selection itself only if nothing had to be taken apart.
-/

namespace FieldExtract

namespace Range

theorem points_unit (p : Nat) : (unit p).points = [p] := by
  rw [points, len, unit, Nat.add_sub_cancel_left, List.range'_one]

theorem eq_unit_of_len {r : Range} (h : r.len = 1) : r = unit r.lo := by
  obtain ⟨lo, hi, hLt⟩ := r
  simp only [len] at h
  simp only [unit, mk.injEq, true_and]
  omega

end Range

namespace Selection

variable {s : Selection} {points : List Nat}

theorem points_map_unit (points : List Nat) :
    Selection.points (points.map Range.unit) = points := by
  rw [Selection.points, List.flatMap_map]
  simp only [Range.points_unit, List.flatMap_singleton']

theorem ofPoints_of_refused {before after : List Nat} {p : Nat}
    (hBefore : ∀ q ∈ before, q < maxPosition) (hp : maxPosition ≤ p) :
    ofPoints (before ++ p :: after) = .error (.pointOverflow before.length p) := by
  rw [ofPoints, if_neg (by simp)]
  refine collectFrom_eq_error_iff.mpr ⟨before, p, after, before.map Range.unit, rfl, ?_, ?_⟩
  · exact collectFrom_of_ok fun _ q hq => if_pos (hBefore q hq)
  · rw [Nat.zero_add]
    exact if_neg (Nat.not_lt_of_le hp)

/-- Among positions only the largest has none behind it, and its first occurrence is refused. -/
theorem ofPoints_of_mem (hPoints : ∀ p ∈ points, p ≤ maxPosition) (h : maxPosition ∈ points) :
    ofPoints points = .error (.pointOverflow (points.idxOf maxPosition) maxPosition) := by
  obtain ⟨before, after, rfl, hFirst⟩ := List.eq_append_cons_of_mem h
  rw [List.idxOf_append_of_notMem hFirst, List.idxOf_cons_self, Nat.add_zero]
  apply ofPoints_of_refused _ (Nat.le_refl _)
  intro q hq
  refine Nat.lt_of_le_of_ne (hPoints q (List.mem_append_left _ hq)) ?_
  rintro rfl
  exact hFirst hq

theorem ofPoints_of_not_mem (hPoints : ∀ p ∈ points, p ≤ maxPosition) (hSome : points ≠ [])
    (h : maxPosition ∉ points) : ofPoints points = .ok (points.map Range.unit) := by
  apply ofPoints_of_lt hSome
  intro p hp
  refine Nat.lt_of_le_of_ne (hPoints p hp) ?_
  rintro rfl
  exact h hp

theorem map_unit_points_eq_iff : s.points.map Range.unit = s ↔ ∀ r ∈ s, r.len = 1 := by
  constructor
  · intro h r hr
    rw [← h] at hr
    exact len_of_mem_units hr
  · intro h
    have hUnits : s = (s.map Range.lo).map Range.unit := by
      rw [List.map_map]
      exact (List.map_id s).symm.trans
        (List.map_congr_left fun r hr => Range.eq_unit_of_len (h r hr))
    rw [hUnits, points_map_unit]

theorem lt_of_mem_points (hBounds : ∀ r ∈ s, r.hi ≤ maxPosition) {p : Nat} (hp : p ∈ s.points) :
    p < maxPosition := by
  obtain ⟨r, hr, _, hHi⟩ := mem_points_iff.mp hp
  exact Nat.lt_of_lt_of_le hHi (hBounds r hr)

theorem points_ne_nil (hNil : s ≠ []) : s.points ≠ [] := by
  obtain ⟨r, hr⟩ := List.exists_mem_of_ne_nil s hNil
  exact List.ne_nil_of_mem (mem_points_iff.mpr ⟨r, hr, Nat.le_refl _, r.lo_lt_hi⟩)

/-- One range of length one for each position of a selection, in its order. -/
structure UnitsOf (s units : Selection) : Prop where
  length_eq : units.length = s.total
  len_eq : ∀ r ∈ units, r.len = 1
  points_eq : units.points = s.points
  toMask_eq : ∀ len, units.toMask len = s.toMask len
  eq_iff : units = s ↔ ∀ r ∈ s, r.len = 1

theorem unitsOf_map_unit (s : Selection) : UnitsOf s (s.points.map Range.unit) where
  length_eq := by rw [List.length_map, length_points]
  len_eq _ := len_of_mem_units
  points_eq := points_map_unit s.points
  toMask_eq := toMask_of_points fun p => by rw [points_map_unit]
  eq_iff := map_unit_points_eq_iff

/-- Points that are positions are refused if there are none, or where the largest position first
occurs, and otherwise they are read back from their ranges. The positions of a selection are never
refused, and their ranges differ from it just by being units. -/
theorem ofPoints_lossless :
    (∀ points : List Nat, (∀ p ∈ points, p ≤ maxPosition) →
      (ofPoints points = .error .empty ↔ points = []) ∧
      (ofPoints points = .error (.pointOverflow (points.idxOf maxPosition) maxPosition) ↔
        maxPosition ∈ points) ∧
      (points ≠ [] → maxPosition ∉ points →
        ∃ s, ofPoints points = .ok s ∧ s.points = points)) ∧
    ∀ s : Selection, s ≠ [] → (∀ r ∈ s, r.hi ≤ maxPosition) →
      ∃ units, ofPoints s.points = .ok units ∧ UnitsOf s units := by
  constructor
  · intro points hPoints
    refine ⟨⟨fun h => ?_, ?_⟩, ⟨fun h => ?_, ofPoints_of_mem hPoints⟩, fun hSome hMax =>
      ⟨_, ofPoints_of_not_mem hPoints hSome hMax, points_map_unit points⟩⟩
    · by_contra hSome
      by_cases hMax : maxPosition ∈ points
      · cases (ofPoints_of_mem hPoints hMax).symm.trans h
      · cases (ofPoints_of_not_mem hPoints hSome hMax).symm.trans h
    · rintro rfl
      rfl
    · by_contra hMax
      by_cases hSome : points = []
      · subst hSome
        cases h
      · cases (ofPoints_of_not_mem hPoints hSome hMax).symm.trans h
  · intro s hNil hBounds
    have hUnits := ofPoints_of_lt (points_ne_nil hNil) fun p => lt_of_mem_points hBounds
    exact ⟨_, hUnits, unitsOf_map_unit s⟩

/-- Two ranges out of order that share a position, and points of which two are the largest. -/
theorem ofPoints_lossless_of_overlap :
    let s : Selection := [⟨5, 8, by decide⟩, ⟨7, 9, by decide⟩]
    let points := [3, maxPosition, 3, maxPosition]
    ofPoints points = .error (.pointOverflow 1 maxPosition) ∧
      (∃ t, ofPoints [30, 10, 10] = .ok t ∧ t.points = [30, 10, 10]) ∧
      ∃ units, ofPoints s.points = .ok units ∧ UnitsOf s units ∧ units.length = 5 ∧
        units.points = [5, 6, 7, 7, 8] ∧ units ≠ s := by
  intro s points
  obtain ⟨hPoints, hRanges⟩ := ofPoints_lossless
  obtain ⟨_, hLargest, _⟩ := hPoints points (by decide)
  obtain ⟨_, _, hRead⟩ := hPoints [30, 10, 10] (by decide)
  obtain ⟨units, hUnits, hOf⟩ := hRanges s (by decide) (by decide)
  refine ⟨hLargest.mpr (by decide), hRead (by decide) (by decide), units, hUnits, hOf,
    hOf.length_eq, hOf.points_eq, fun h => ?_⟩
  exact absurd (hOf.eq_iff.mp h) (by decide)

end Selection

end FieldExtract
