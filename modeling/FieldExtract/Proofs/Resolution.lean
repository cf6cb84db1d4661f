import FieldExtract.Archive
import FieldExtract.Proofs.Decoding
import FieldExtract.Proofs.Traversal

/-!
# What an archive makes of one job

A job can be served if its target is archived, on a grid that its hash does not contradict, and no
range leaves the field; otherwise the first of these that fails decides the status. What is handed
out for a job that can be served are the blocks of its ranges, each packed on its own.
-/

namespace FieldExtract

/-- A sample is archived at this position, and it is not missing. -/
def presentAt (samples : List Sample) (p : Nat) : Bool := samples[p]?.any fun s => !s.isMissing

namespace Range

variable {r : Range} {samples : List Sample}

def slice (samples : List Sample) (r : Range) : List Sample := (samples.drop r.lo).take r.len

theorem length_slice (h : r.hi ≤ samples.length) : (r.slice samples).length = r.len := by
  rw [slice, List.length_take, List.length_drop, len]
  omega

theorem map_some_slice (h : r.hi ≤ samples.length) :
    (r.slice samples).map some = r.points.map fun p => samples[p]? := by
  apply List.ext_getElem
  · rw [List.length_map, length_slice h, List.length_map, points, List.length_range']
  · intro i hi _
    rw [List.length_map, length_slice h] at hi
    have hAt : r.lo + i < samples.length := by
      rw [len] at hi
      omega
    simp only [slice, points, List.getElem_map, List.getElem_take, List.getElem_drop,
      List.getElem_range', Nat.one_mul]
    exact (List.getElem?_eq_getElem hAt).symm

theorem validity_slice (h : r.hi ≤ samples.length) :
    validity (r.slice samples) = r.points.map (presentAt samples) := by
  calc
    validity (r.slice samples) =
        ((r.slice samples).map some).map fun s => s.any fun s => !s.isMissing := by
      rw [List.map_map]
      rfl
    _ = r.points.map (presentAt samples) := by
      rw [map_some_slice h, List.map_map]
      rfl

end Range

/-- The samples of one range with their validity, packed from the first bit of a word on. -/
def Block.ofRange (samples : List Sample) (r : Range) : Block where
  samples := r.slice samples
  bits := validity (r.slice samples)
  words := BitMask.pack (validity (r.slice samples))
  length_eq := by rw [validity, List.length_map]
  encodes := BitMask.encodes_pack _

namespace Selection

variable {s : Selection} {samples : List Sample}

def blocks (samples : List Sample) (s : Selection) : List Block := s.map (Block.ofRange samples)

theorem shape_blocks (h : ∀ r ∈ s, r.hi ≤ samples.length) :
    Block.shape (s.blocks samples) = s.shape := by
  rw [Block.shape, blocks, List.map_map, shape]
  congr 1
  exact List.map_congr_left fun r hr => Range.length_slice (h r hr)

theorem samples_blocks : (s.blocks samples).map Block.samples = s.map (Range.slice samples) := by
  rw [blocks, List.map_map]
  rfl

theorem flatten_slices (samples : List Sample) (s : Selection) :
    (s.map (Range.slice samples)).flatten = (s.blocks samples).flatMap Block.samples := by
  rw [blocks, List.flatMap_map]
  rfl

theorem flatMap_pack_slices (samples : List Sample) (s : Selection) :
    ((s.map (Range.slice samples)).flatMap fun slice => BitMask.pack (validity slice)) =
      (s.blocks samples).flatMap Block.words := by
  rw [blocks, List.flatMap_map, List.flatMap_map]
  rfl

theorem bits_blocks (h : ∀ r ∈ s, r.hi ≤ samples.length) :
    (s.blocks samples).map Block.bits = s.map fun r => r.points.map (presentAt samples) := by
  rw [blocks, List.map_map]
  exact List.map_congr_left fun r hr => Range.validity_slice (h r hr)

theorem count_blocks (h : ∀ r ∈ s, r.hi ≤ samples.length) :
    ((s.blocks samples).map fun b => b.bits.count true).sum =
      s.points.countP (presentAt samples) := by
  have hRange : ∀ r : Range, (r.points.map (presentAt samples)).count true =
      r.points.countP (presentAt samples) := by
    intro r
    rw [List.count_eq_countP, List.countP_map]
    exact List.countP_congr fun p _ => by simp
  calc
    ((s.blocks samples).map fun b => b.bits.count true).sum =
        (((s.blocks samples).map Block.bits).map (List.count true)).sum := by
      rw [List.map_map]
      rfl
    _ = (s.map fun r => r.points.countP (presentAt samples)).sum := by
      rw [bits_blocks h, List.map_map]
      congr 1
      exact List.map_congr_left fun r _ => hRange r
    _ = s.points.countP (presentAt samples) := by
      rw [points, List.countP_flatMap]
      rfl

end Selection

namespace Archive

/-- What is archived for a target, and the hash of its grid. -/
def stored (a : Archive) : Target → Option (List Sample × Option String)
  | .key canonical => (a.fields.get? canonical).map fun f => (f.samples, f.gridHash)
  | .file path offset => (a.files.get? (path, offset)).map fun s => (s, none)

def gridsDiffer : Option String → Option String → Bool
  | some wanted, some actual => wanted != actual
  | _, _ => false

/-- What keeps a job from being served: the grid counts only for an archived target, the ranges
only on a grid that agrees. -/
def defect (a : Archive) (target : Target) (ranges : Selection) (gridHash : Option String) :
    Option Status :=
  match a.stored target with
  | none => some .notFound
  | some (samples, actual) =>
    if gridsDiffer gridHash actual then some .gridHashMismatch
    else if ranges.any fun r => decide (samples.length < r.hi) then some .outOfRange
    else none

theorem defect_eq_none_iff {a : Archive} {target : Target} {ranges : Selection}
    {gridHash : Option String} :
    a.defect target ranges gridHash = none ↔
      ∃ samples actual, a.stored target = some (samples, actual) ∧
        gridsDiffer gridHash actual = false ∧ ∀ r ∈ ranges, r.hi ≤ samples.length := by
  unfold defect
  cases hStored : a.stored target with
  | none => simp
  | some found =>
    obtain ⟨samples, actual⟩ := found
    simp only [Option.some.injEq, Prod.mk.injEq]
    constructor
    · intro h
      cases hGrid : gridsDiffer gridHash actual with
      | true => simp [hGrid] at h
      | false => exact ⟨samples, actual, ⟨rfl, rfl⟩, hGrid, by simpa [hGrid] using h⟩
    · rintro ⟨_, _, ⟨rfl, rfl⟩, hGrid, hRanges⟩
      simpa [hGrid] using hRanges

theorem find_of_stored {a : Archive} {target : Target} {found : List Sample × Option String}
    (h : a.stored target = some found) : a.find target = .ok found := by
  cases target with
  | key canonical =>
    obtain ⟨field, hField, rfl⟩ := Option.map_eq_some_iff.mp h
    simp only [find, hField]
  | file path offset =>
    obtain ⟨samples, hSamples, rfl⟩ := Option.map_eq_some_iff.mp h
    simp only [find, hSamples]

theorem find_of_not_stored {a : Archive} {target : Target} (h : a.stored target = none) :
    ∃ e, a.find target = .error e ∧ e.status? = some .notFound := by
  cases target with
  | key canonical =>
    have hNone := Option.map_eq_none_iff.mp h
    exact ⟨_, by simp only [find, hNone],
      EngineError.status?_ofStatus "next" .notFound ("no field for '" ++ canonical ++ "'")⟩
  | file path offset =>
    have hNone := Option.map_eq_none_iff.mp h
    exact ⟨_, by simp only [find, hNone],
      EngineError.status?_ofStatus "next" .notFound
        ("nothing at " ++ path ++ ":" ++ toString offset)⟩

theorem stored_of_find {a : Archive} {target : Target} {found : List Sample × Option String}
    (h : a.find target = .ok found) : a.stored target = some found := by
  cases hStored : a.stored target with
  | none =>
    obtain ⟨e, hFind, _⟩ := find_of_not_stored hStored
    cases hFind.symm.trans h
  | some other =>
    cases (find_of_stored hStored).symm.trans h
    rfl

theorem checkGrid_of_agree {wanted actual : Option String}
    (h : gridsDiffer wanted actual = false) : checkGrid wanted actual = .ok () := by
  cases wanted with
  | none => rfl
  | some w =>
    cases actual with
    | none => rfl
    | some g => exact if_pos (by simpa [gridsDiffer] using h)

theorem checkGrid_of_differ {wanted actual : Option String}
    (h : gridsDiffer wanted actual = true) :
    ∃ e, checkGrid wanted actual = .error e ∧ e.status? = some .gridHashMismatch := by
  cases wanted with
  | none => cases h
  | some w =>
    cases actual with
    | none => cases h
    | some g =>
      have hNe : w ≠ g := by simpa [gridsDiffer] using h
      exact ⟨_, if_neg hNe, EngineError.status?_ofStatus _ _ _⟩

theorem slice_of_le {samples : List Sample} {r : Range} (h : r.hi ≤ samples.length) :
    slice samples r.bounds = .ok (r.slice samples) :=
  if_pos ⟨Nat.le_of_lt r.lo_lt_hi, h⟩

theorem slice_of_lt {samples : List Sample} {r : Range} (h : samples.length < r.hi) :
    ∃ e, slice samples r.bounds = .error e ∧ e.status? = some .outOfRange :=
  ⟨_, if_neg fun hIn => Nat.not_le_of_lt h hIn.2, EngineError.status?_ofStatus _ _ _⟩

theorem mapM_slice_of_le {samples : List Sample} {ranges : Selection}
    (h : ∀ r ∈ ranges, r.hi ≤ samples.length) :
    ranges.bounds.mapM (slice samples) = .ok (ranges.map (Range.slice samples)) := by
  rw [Selection.bounds, List.mapM_map]
  exact mapM_of_ok fun r hr => slice_of_le (h r hr)

theorem mapM_slice_of_lt {samples : List Sample} {ranges : Selection}
    (h : ∃ r ∈ ranges, samples.length < r.hi) :
    ∃ e, ranges.bounds.mapM (slice samples) = .error e ∧ e.status? = some .outOfRange := by
  obtain ⟨r, hr, hLt⟩ := h
  obtain ⟨e, hSlice, _⟩ := slice_of_lt hLt
  rw [Selection.bounds, List.mapM_map]
  apply mapM_of_refusal ⟨r, hr, e, hSlice⟩
  intro q _ e hRefused
  rcases Nat.lt_or_ge samples.length q.hi with hLt | hLe
  · obtain ⟨_, hSlice, hStatus⟩ := slice_of_lt hLt
    cases hSlice.symm.trans hRefused
    exact hStatus
  · cases (slice_of_le hLe).symm.trans hRefused

/-- The blocks of the ranges, less what the archive cuts off the end of the samples. -/
theorem resolve_of_sound {a : Archive} {target : Target} {ranges : Selection}
    {gridHash : Option String} (h : a.defect target ranges gridHash = none) :
    ∃ samples actual, a.stored target = some (samples, actual) ∧
      (∀ r ∈ ranges, r.hi ≤ samples.length) ∧
      a.resolve ⟨target, ranges.bounds, gridHash⟩ =
        .ok (Handle.ofBuffers
          (((ranges.blocks samples).flatMap Block.samples).take
            (((ranges.blocks samples).flatMap Block.samples).length - a.faults.truncate))
          ((ranges.blocks samples).flatMap Block.words)) := by
  obtain ⟨samples, actual, hStored, hGrid, hRanges⟩ := defect_eq_none_iff.mp h
  refine ⟨samples, actual, hStored, hRanges, ?_⟩
  simp only [resolve, find_of_stored hStored, checkGrid_of_agree hGrid, mapM_slice_of_le hRanges,
    bind, Except.bind, pure, Except.pure, Selection.flatten_slices, Selection.flatMap_pack_slices]

theorem resolve_of_defect {a : Archive} {target : Target} {ranges : Selection}
    {gridHash : Option String} {status : Status}
    (h : a.defect target ranges gridHash = some status) :
    ∃ e, a.resolve ⟨target, ranges.bounds, gridHash⟩ = .error e ∧ e.status? = some status := by
  unfold defect at h
  cases hStored : a.stored target with
  | none =>
    rw [hStored] at h
    cases h
    obtain ⟨e, hFind, hStatus⟩ := find_of_not_stored hStored
    exact ⟨e, by simp only [resolve, hFind, bind, Except.bind], hStatus⟩
  | some found =>
    obtain ⟨samples, actual⟩ := found
    rw [hStored] at h
    simp only at h
    split at h
    · next hGrid =>
      cases h
      obtain ⟨e, hCheck, hStatus⟩ := checkGrid_of_differ hGrid
      exact ⟨e, by simp only [resolve, find_of_stored hStored, hCheck, bind, Except.bind], hStatus⟩
    · next hGrid =>
      split at h
      · next hRanges =>
        cases h
        obtain ⟨e, hSlices, hStatus⟩ := mapM_slice_of_lt (by simpa using hRanges)
        have hCheck := checkGrid_of_agree (Bool.eq_false_iff.mpr hGrid)
        refine ⟨e, ?_, hStatus⟩
        simp only [resolve, find_of_stored hStored, hCheck, hSlices, bind, Except.bind]
      · cases h

end Archive

end FieldExtract
