import FieldExtract.Proofs.Admission
import FieldExtract.Proofs.UnitRanges

/-!
# Extraction of points

An archive without injected faults takes no notice of how positions are grouped into ranges: the
positions alone decide whether a field can be read, and the samples, the validity and the number of
valid samples that come back are those at the positions, in their order. So the runs of a mask and
the unit ranges of its set bits extract the same data, though their shapes and the words of their
masks are different.
-/

namespace FieldExtract

namespace Range

theorem slice_eq_filterMap {r : Range} {samples : List Sample} (h : r.hi ≤ samples.length) :
    r.slice samples = r.points.filterMap fun p => samples[p]? := by
  calc
    r.slice samples = ((r.slice samples).map some).filterMap id := by
      rw [List.filterMap_map, Function.id_comp, List.filterMap_some]
    _ = r.points.filterMap fun p => samples[p]? := by
      rw [map_some_slice h, List.filterMap_map]
      rfl

end Range

namespace Selection

variable {s : Selection} {samples : List Sample}

theorem inside_iff : (∀ r ∈ s, r.hi ≤ samples.length) ↔ ∀ p ∈ s.points, p < samples.length := by
  constructor
  · intro h p hp
    obtain ⟨r, hr, _, hHi⟩ := mem_points_iff.mp hp
    exact Nat.lt_of_lt_of_le hHi (h r hr)
  · intro h r hr
    have := r.lo_lt_hi
    have hLast := h (r.hi - 1) (mem_points_iff.mpr ⟨r, hr, by omega, by omega⟩)
    omega

theorem flatMap_samples_blocks (h : ∀ r ∈ s, r.hi ≤ samples.length) :
    (s.blocks samples).flatMap Block.samples = s.points.filterMap fun p => samples[p]? := by
  rw [blocks, List.flatMap_map, points, List.filterMap_flatMap]
  exact List.flatMap_congr fun r hr => Range.slice_eq_filterMap (h r hr)

theorem flatten_bits_blocks (h : ∀ r ∈ s, r.hi ≤ samples.length) :
    ((s.blocks samples).map Block.bits).flatten = s.points.map (presentAt samples) := by
  rw [bits_blocks h, points, List.map_flatMap, List.flatMap]

end Selection

namespace Result

/-- Whatever has been read before, the result holds the samples at these positions of a field. -/
structure Gathers (r : Result) (samples : List Sample) (points : List Nat) : Prop where
  inside : ∀ p ∈ points, p < samples.length
  values : ∀ history,
    (r.after history).flatValues.answer = .ok (points.filterMap fun p => samples[p]?)
  bits : ∀ history, (r.after history).boolMasks.answer.map List.flatten =
    .ok (points.map (presentAt samples))
  valid : ∀ history, (r.after history).countValid.answer = .ok (points.countP (presentAt samples))

theorem gathers_ofHandle {samples : List Sample} {s : Selection}
    (h : ∀ r ∈ s, r.hi ≤ samples.length) :
    (ofHandle (Block.handle (s.blocks samples)) s.shape).Gathers samples s.points := by
  have hServes := serves_blocks h
  refine ⟨Selection.inside_iff.mp h, ?_, ?_, ?_⟩
  · intro history
    rw [(hServes history).flatValues_answer, Selection.flatMap_samples_blocks h]
  · intro history
    rw [(hServes history).boolMasks_answer]
    exact congrArg Except.ok (Selection.flatten_bits_blocks h)
  · intro history
    rw [(hServes history).countValid_answer, Selection.count_blocks h]

end Result

namespace Archive

/-- What keeps the samples at these positions of a field from being extracted. -/
def pointDefect (a : Archive) (target : Target) (points : List Nat) (gridHash : Option String) :
    Option Status :=
  match a.stored target with
  | none => some .notFound
  | some (samples, actual) =>
    if gridsDiffer gridHash actual then some .gridHashMismatch
    else if points.any fun p => decide (samples.length ≤ p) then some .outOfRange
    else none

theorem defect_eq_pointDefect (a : Archive) (target : Target) (s : Selection)
    (gridHash : Option String) :
    a.defect target s gridHash = a.pointDefect target s.points gridHash := by
  have hRanges : ∀ samples : List Sample, (s.any fun r => decide (samples.length < r.hi)) =
      s.points.any fun p => decide (samples.length ≤ p) := by
    intro samples
    rw [Bool.eq_iff_iff, ← not_iff_not]
    simp only [List.any_eq_true, decide_eq_true_eq, not_exists, not_and, Nat.not_lt, Nat.not_le]
    exact Selection.inside_iff
  unfold defect pointDefect
  cases a.stored target with
  | none => rfl
  | some found => simp only [hRanges]

/-- The answers of an iterator over the fields of some keys, up to and after the first field that
does not hold the positions. -/
structure Yields (a : Archive) (keys : List Key) (points : List Nat) (gridHash : Option String)
    (it : ResultIterator) : Prop where
  served : ∀ n key, keys[n]? = some key →
    (∀ k ∈ keys.take (n + 1), a.pointDefect (keyTarget k) points gridHash = none) →
    ∃ samples actual r, a.stored (keyTarget key) = some (samples, actual) ∧
      it.item n = some (.ok r) ∧ r.Gathers samples points
  refused : ∀ n key status, keys[n]? = some key →
    (∀ k ∈ keys.take n, a.pointDefect (keyTarget k) points gridHash = none) →
    a.pointDefect (keyTarget key) points gridHash = some status →
    ∃ e, it.item n = some (.error (.engine e)) ∧ e.status? = some status ∧
      ∀ m > n, it.item m = none
  ended : (∀ k ∈ keys, a.pointDefect (keyTarget k) points gridHash = none) →
    ∀ n ≥ keys.length, it.item n = none

/-- Two answers at one position that a caller who reads samples, validity and number cannot tell
apart: results that hold the same positions of the same field, or failures of one status. -/
inductive SameData (a : Archive) (key : Option Key) (points : List Nat) :
    Option (Except ClientError Result) → Option (Except ClientError Result) → Prop
  | read (k : Key) (samples : List Sample) (actual : Option String) (r s : Result)
      (hKey : key = some k) (hStored : a.stored (keyTarget k) = some (samples, actual))
      (hFirst : r.Gathers samples points) (hSecond : s.Gathers samples points) :
    SameData a key points (some (.ok r)) (some (.ok s))
  | refused (e f : EngineError) (status : Status) (hFirst : e.status? = some status)
      (hSecond : f.status? = some status) :
    SameData a key points (some (.error (.engine e))) (some (.error (.engine f)))
  | silent : SameData a key points none none

section

variable {a : Archive} {keys : List Key} {points : List Nat} {gridHash : Option String}

/-- Either no field has a defect, or one does and none before it. -/
theorem first_defect (a : Archive) (keys : List Key) (points : List Nat)
    (gridHash : Option String) :
    (∀ k ∈ keys, a.pointDefect (keyTarget k) points gridHash = none) ∨
      ∃ n key status, keys[n]? = some key ∧
        (∀ k ∈ keys.take n, a.pointDefect (keyTarget k) points gridHash = none) ∧
        a.pointDefect (keyTarget key) points gridHash = some status := by
  induction keys with
  | nil => exact .inl fun k hk => absurd hk List.not_mem_nil
  | cons key keys ih =>
    cases hHead : a.pointDefect (keyTarget key) points gridHash with
    | some status => exact .inr ⟨0, key, status, rfl, by simp, hHead⟩
    | none =>
      rcases ih with hAll | ⟨n, k, status, hAt, hBefore, hDefect⟩
      · exact .inl (List.forall_mem_cons.mpr ⟨hHead, hAll⟩)
      · exact .inr ⟨n + 1, k, status, hAt, List.forall_mem_cons.mpr ⟨hHead, hBefore⟩, hDefect⟩

theorem Yields.sameData {it other : ResultIterator} (h : a.Yields keys points gridHash it)
    (hOther : a.Yields keys points gridHash other) (n : Nat) :
    a.SameData keys[n]? points (it.item n) (other.item n) := by
  have hServed : ∀ key, keys[n]? = some key →
      (∀ k ∈ keys.take (n + 1), a.pointDefect (keyTarget k) points gridHash = none) →
      a.SameData keys[n]? points (it.item n) (other.item n) := by
    intro key hAt hSound
    obtain ⟨samples, actual, r, hStored, hItem, hReads⟩ := h.served n key hAt hSound
    obtain ⟨_, _, s, hStored', hItem', hReads'⟩ := hOther.served n key hAt hSound
    cases hStored.symm.trans hStored'
    rw [hItem, hItem']
    exact .read key samples actual r s hAt hStored hReads hReads'
  have hSilent : it.item n = none → other.item n = none →
      a.SameData keys[n]? points (it.item n) (other.item n) := by
    intro hItem hItem'
    rw [hItem, hItem']
    exact .silent
  rcases first_defect a keys points gridHash with hAll | ⟨m, key, status, hAt, hBefore, hDefect⟩
  · rcases Nat.lt_or_ge n keys.length with hn | hn
    · apply hServed keys[n] (List.getElem?_eq_getElem hn)
      exact fun k hk => hAll k (List.mem_of_mem_take hk)
    · exact hSilent (h.ended hAll n hn) (hOther.ended hAll n hn)
  · obtain ⟨e, hItem, hStatus, hAfter⟩ := h.refused m key status hAt hBefore hDefect
    obtain ⟨f, hItem', hStatus', hAfter'⟩ := hOther.refused m key status hAt hBefore hDefect
    rcases Nat.lt_trichotomy n m with hn | rfl | hn
    · have hm := (List.getElem?_eq_some_iff.mp hAt).1
      apply hServed keys[n] (List.getElem?_eq_getElem (Nat.lt_trans hn hm))
      exact fun k hk => hBefore k (List.mem_of_mem_take
        (by rwa [List.take_take, Nat.min_eq_left hn]))
    · rw [hItem, hItem']
      exact .refused e f status hStatus hStatus'
    · exact hSilent (hAfter n hn) (hAfter' n hn)

end

end Archive

namespace Request

/-- One request for each target, all for the same ranges. -/
def each {τ : Type} (ranges : Selection) (hNil : ranges ≠ []) (hTotal : ranges.total ≤ maxPosition)
    (gridHash : Option String) (targets : List τ) : List (Request τ) :=
  targets.map fun target => ⟨target, ranges, gridHash, hNil, hTotal⟩

end Request

namespace Archive

variable {a : Archive} {keys : List Key} {ranges : Selection} {gridHash : Option String}
  {hNil : ranges ≠ []} {hTotal : ranges.total ≤ maxPosition}

theorem defectOf_each (gridHash : Option String) (n : Nat) :
    (∀ q ∈ (Request.each ranges hNil hTotal gridHash keys).take n,
        a.defectOf keyTarget q = none) ↔
      ∀ k ∈ keys.take n, a.pointDefect (keyTarget k) ranges.points gridHash = none := by
  rw [Request.each, ← List.map_take, List.forall_mem_map]
  simp only [defectOf, defect_eq_pointDefect]

theorem yields_of_each (action : Action) (hFaults : a.faults = ⟨none, none, 0⟩) :
    a.Yields keys ranges.points gridHash
      (.start (a.source ((Request.each ranges hNil hTotal gridHash keys).map
          (jobOf keyTarget))).toSource
        (.perRequest ((Request.each ranges hNil hTotal gridHash keys).map Request.shape))
        action) := by
  have hAnswers : a.Answers keyTarget (Request.each ranges hNil hTotal gridHash keys) _ :=
    answers_of_no_fault (Request.each ranges hNil hTotal gridHash keys) action hFaults
  have hAt : ∀ (n : Nat) (key : Key), keys[n]? = some key →
      (Request.each ranges hNil hTotal gridHash keys)[n]? =
        some (⟨key, ranges, gridHash, hNil, hTotal⟩ : KeyRequest) := by
    intro n key hKey
    rw [Request.each, List.getElem?_map, hKey, Option.map_some]
  refine ⟨?_, ?_, ?_⟩
  · intro n key hKey hSound
    obtain ⟨samples, actual, hStored, hRanges, hItem⟩ :=
      item_of_sound action hFaults (hAt n key hKey) ((defectOf_each gridHash (n + 1)).mpr hSound)
    exact ⟨samples, actual, _, hStored, hItem, Result.gathers_ofHandle hRanges⟩
  · intro n key status hKey hSound hDefect
    apply hAnswers.refused n _ status (hAt n key hKey) ((defectOf_each gridHash n).mpr hSound)
    rwa [← defect_eq_pointDefect] at hDefect
  · intro hSound n hn
    apply hAnswers.complete _ n
    · rwa [Request.each, List.length_map]
    · have hAll : ∀ q ∈ (Request.each ranges hNil hTotal gridHash keys).take keys.length,
          a.defectOf keyTarget q = none :=
        (defectOf_each gridHash keys.length).mpr (by rwa [List.take_length])
      rwa [List.take_of_length_le (by rw [Request.each, List.length_map])] at hAll

end Archive

namespace Client

variable {keys : List Key} {ranges : Selection}

/-- One selection for some keys opens an iterator over the jobs of one request for each key. -/
theorem extractMany_yields {a : Archive} (c : Client) (gridHash : Option String)
    (context : Option Context) (hFaults : a.faults = ⟨none, none, 0⟩) (hKeys : keys ≠ [])
    (hNil : ranges ≠ []) (hTotal : ranges.total ≤ maxPosition) :
    ∃ it, (c.extractMany keys (.ok ranges) gridHash context a).answer = .ok it ∧
      a.Yields keys ranges.points (c.sentHash gridHash) it.toResultIterator := by
  have hSome : Request.each ranges hNil hTotal gridHash keys ≠ [] := by
    rwa [Request.each, Ne, List.map_eq_nil_iff]
  have hSent : (Request.each ranges hNil hTotal gridHash keys).map c.sentRequest =
      Request.each ranges hNil hTotal (c.sentHash gridHash) keys := by
    rw [Request.each, List.map_map]
    rfl
  have hAnswer := extract_answer c context (by rw [hFaults]) hSome
  rw [hSent] at hAnswer
  rw [extractMany, Request.mapM_ofSelection hNil hTotal]
  exact ⟨_, hAnswer, Archive.yields_of_each _ hFaults⟩

/-- The runs of a mask and its set bits as points, extracted from the same fields. -/
theorem extractFromMask_agrees (c : Client) (a : Archive) (keys : List Key) (mask : List Bool)
    (gridHash : Option String) (context other : Option Context)
    (hFaults : a.faults = ⟨none, none, 0⟩) (hKeys : keys ≠ []) (hMask : true ∈ mask)
    (hLength : mask.length ≤ maxPosition) :
    ∃ byMask byPoints,
      (c.extractFromMask keys mask gridHash context a).answer = .ok byMask ∧
      (c.extractFromPoints keys (setPositions mask) gridHash other a).answer = .ok byPoints ∧
      a.Yields keys (setPositions mask) (c.sentHash gridHash) byMask.toResultIterator ∧
      a.Yields keys (setPositions mask) (c.sentHash gridHash) byPoints.toResultIterator ∧
      ∀ n, a.SameData keys[n]? (setPositions mask) (byMask.item n) (byPoints.item n) := by
  have hPoints := Selection.points_runs mask
  have hRuns := Selection.ofMask_of_mem hMask
  have hUnits := Selection.ofPoints_of_lt (setPositions_ne_nil hMask) fun p hp =>
    Nat.lt_of_lt_of_le (lt_of_mem_setPositions hp) hLength
  obtain ⟨hRunsNil, hRunsTotal⟩ := Selection.ofMask_sound hRuns
  obtain ⟨hUnitsNil, hUnitsTotal⟩ := Selection.ofPoints_sound hUnits
  have hCount : mask.count true ≤ mask.length := List.count_le_length
  have hSame : (setPositions mask).length = mask.count true := by
    rw [← hPoints, Selection.length_points, hRunsTotal]
  obtain ⟨byMask, hByMask, hMaskYields⟩ := extractMany_yields c gridHash context hFaults hKeys
    hRunsNil (by omega)
  obtain ⟨byPoints, hByPoints, hPointsYields⟩ := extractMany_yields c gridHash other hFaults hKeys
    hUnitsNil (by omega)
  rw [hPoints] at hMaskYields
  rw [Selection.points_map_unit] at hPointsYields
  refine ⟨byMask, byPoints, ?_, ?_, hMaskYields, hPointsYields,
    hMaskYields.sameData hPointsYields⟩
  · rw [extractFromMask, hRuns, hByMask]
  · rw [extractFromPoints, hUnits, hByPoints]

/-- Two runs, of which the first key's field holds both and the second key's only one. -/
theorem extractFromMask_agrees_of_short_field :
    let long := Key.ofList [("step", .single "0")]
    let short := Key.ofList [("step", .single "6")]
    let a := (Archive.empty.addField long [⟨0⟩, Sample.missing, ⟨1⟩, ⟨2⟩] none).addField short
      [⟨3⟩, ⟨4⟩] none
    let c := Client.new ⟨"user", "host"⟩
    let mask := [true, true, false, true]
    a.faults = ⟨none, none, 0⟩ ∧ [long, short] ≠ [] ∧ true ∈ mask ∧ mask.length ≤ maxPosition ∧
      setPositions mask = [0, 1, 3] ∧
      ∃ byMask byPoints,
        (c.extractFromMask [long, short] mask none none a).answer = .ok byMask ∧
        (c.extractFromPoints [long, short] [0, 1, 3] none none a).answer = .ok byPoints ∧
        (∃ r s, byMask.item 0 = some (.ok r) ∧ byPoints.item 0 = some (.ok s) ∧
          r.flatValues.answer = .ok [⟨0⟩, Sample.missing, ⟨2⟩] ∧
          s.flatValues.answer = .ok [⟨0⟩, Sample.missing, ⟨2⟩]) ∧
        a.SameData (some short) [0, 1, 3] (byMask.item 1) (byPoints.item 1) := by
  intro long short a c mask
  have hPositions : setPositions mask = [0, 1, 3] := by decide
  obtain ⟨byMask, byPoints, hMask, hPoints, hMaskYields, hPointsYields, hSame⟩ :=
    extractFromMask_agrees c a [long, short] mask none none none rfl (by simp) (by decide)
      (by decide)
  rw [hPositions] at hPoints hMaskYields hPointsYields hSame
  have hStored : a.stored (Archive.keyTarget long) =
      some ([⟨0⟩, Sample.missing, ⟨1⟩, ⟨2⟩], none) := by decide +kernel
  have hSound : ∀ k ∈ [long, short].take 1,
      a.pointDefect (Archive.keyTarget k) [0, 1, 3] (c.sentHash none) = none := by
    decide +kernel
  obtain ⟨_, _, r, hFound, hItem, hReads⟩ := hMaskYields.served 0 long rfl hSound
  obtain ⟨_, _, s, hFound', hItem', hReads'⟩ := hPointsYields.served 0 long rfl hSound
  cases hStored.symm.trans hFound
  cases hStored.symm.trans hFound'
  exact ⟨rfl, by simp, by decide, by decide, hPositions, byMask, byPoints, hMask, hPoints,
    ⟨r, s, hItem, hItem', hReads.values [], hReads'.values []⟩, hSame 1⟩

end Client

end FieldExtract
