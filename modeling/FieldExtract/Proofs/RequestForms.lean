import FieldExtract.Proofs.Admission
import FieldExtract.Proofs.MaskRuns
import FieldExtract.Proofs.ValidBounds

/-!
# Ways to build a request

Pairs of bounds, a selection, a mask, points and a text are checked at different times and for
different faults. What comes of each, if anything, is a request on whose counts the reading of a
result can rely, and it is the one that the bounds of the same ranges would have made.
-/

namespace FieldExtract

namespace Shape

theorem totalMaskWords_le_total (s : Shape) : s.totalMaskWords ≤ s.total := by
  obtain ⟨lens⟩ := s
  induction lens with
  | nil => exact Nat.le_refl _
  | cons n lens ih =>
    have hWords : BitMask.wordCount n ≤ n := by
      unfold BitMask.wordCount
      omega
    exact Nat.add_le_add hWords ih

end Shape

namespace Selection

variable {s : Selection}

theorem selects_of_ofPoints {points : List Nat} (h : ofPoints points = .ok s) :
    (∀ p ∈ points, p < maxPosition) ∧ s.bounds = points.map fun p => (p, p + 1) := by
  obtain ⟨_, hBounded, rfl⟩ := ofPoints_eq_ok_iff.mp h
  refine ⟨hBounded, ?_⟩
  rw [bounds, List.map_map]
  rfl

theorem runsOf_of_ofMask {mask : List Bool} (h : ofMask mask = .ok s) :
    true ∈ mask ∧ RunsOf mask s := by
  obtain ⟨hNil, hRuns⟩ := ofMask_eq_ok_iff.mp h
  obtain ⟨r, hr⟩ := List.exists_mem_of_ne_nil _ hNil
  have hBit := (hRuns.mem_points_iff r.lo).mp
    (mem_points_iff.mpr ⟨r, hr, Nat.le_refl _, r.lo_lt_hi⟩)
  exact ⟨List.mem_of_getElem? hBit, hRuns⟩

end Selection

namespace Request

variable {τ : Type}

theorem ofSelection_of_overflow {target : τ} {s : Selection} {gridHash : Option String}
    {e : RangeError} (hNil : s ≠ []) (h : s.checkedTotal = .error e) :
    ofSelection target s gridHash = .error e := by
  rw [ofSelection, dif_neg hNil]
  split
  · next hError =>
    cases h.symm.trans hError
    rfl
  · next hTotal => cases h.symm.trans hTotal

/-- It makes no difference that pairs of bounds are checked before and a selection only now. -/
theorem ofPairs_bounds (target : τ) (s : Selection) (gridHash : Option String) :
    ofPairs target s.bounds gridHash = ofSelection target s gridHash := by
  by_cases hNil : s = []
  · subst hNil
    rfl
  · cases hTotal : s.checkedTotal with
    | error e =>
      rw [ofSelection_of_overflow hNil hTotal, ofPairs_of_refusal]
      rw [Selection.validate_bounds hNil, hTotal]
      rfl
    | ok n =>
      rw [ofPairs, Selection.validate_bounds hNil, hTotal]
      rfl

/-- All that the reading of a result takes for granted about the request. -/
structure WellFormed (r : Request τ) : Prop where
  nonempty : r.ranges ≠ []
  ordered : ∀ range ∈ r.ranges, range.lo < range.hi
  lens_eq : ∀ i : Nat, r.shape.lens[i]? = r.ranges[i]?.map fun range : Range => range.hi - range.lo
  total_eq : r.shape.total = r.points.length
  total_le : r.shape.total ≤ maxPosition
  maskWords_le : r.shape.totalMaskWords ≤ r.shape.total
  bounds_eq : Archive.pairUp r.flatBounds = some r.ranges.bounds

theorem wellFormed (r : Request τ) : r.WellFormed where
  nonempty := r.nonempty
  ordered range _ := range.lo_lt_hi
  lens_eq _ := List.getElem?_map
  total_eq := (Selection.length_points r.ranges).symm
  total_le := r.total_le
  maskWords_le := r.shape.totalMaskWords_le_total
  bounds_eq := Archive.pairUp_flatBounds r.ranges

/-- What a request is built from, besides its target. -/
inductive Form
  | pairs (pairs : List (Nat × Nat)) (gridHash : Option String)
  | bare (pairs : List (Nat × Nat))
  | selection (ranges : Selection) (gridHash : Option String)
  | mask (mask : List Bool) (gridHash : Option String)
  | points (points : List Nat) (gridHash : Option String)
  | text (text : String) (gridHash : Option String)

namespace Form

def build (target : τ) : Form → Except RangeError (Request τ)
  | pairs ps gridHash => ofPairs target ps gridHash
  | bare ps => ofPairs target ps none
  | selection ranges gridHash => ofSelection target ranges gridHash
  | mask bits gridHash => ofMask target bits gridHash
  | points ps gridHash => ofPoints target ps gridHash
  | text s gridHash => ofText target s gridHash

def gridHash : Form → Option String
  | pairs _ hash | selection _ hash | mask _ hash | points _ hash | text _ hash => hash
  | bare _ => none

/-- The ranges that the form is another way to write. -/
def Selects (s : Selection) : Form → Prop
  | pairs ps _ | bare ps => s.bounds = ps
  | selection ranges _ => s = ranges
  | mask bits _ => true ∈ bits ∧ Selection.RunsOf bits s
  | points ps _ => (∀ p ∈ ps, p < maxPosition) ∧ s.bounds = ps.map fun p => (p, p + 1)
  | text written _ => Selection.parse written = .ok s

/-- What is built has the target and the hash that were given, and the ranges of the form. -/
structure Built (form : Form) (target : τ) (r : Request τ) : Prop where
  target_eq : r.target = target
  gridHash_eq : r.gridHash = form.gridHash
  selects : form.Selects r.ranges
  wellFormed : r.WellFormed
  unhashed : r.withoutGridHash.WellFormed

/-- The form builds what the bounds of the ranges build: a request if they can be counted, and
otherwise the fault of the range with which they cannot. -/
structure Agrees (form : Form) (target : τ) (s : Selection) : Prop where
  build_eq : form.build target = ofPairs target s.bounds form.gridHash
  accepted : s ≠ [] → s.total ≤ maxPosition → ∃ r, form.build target = .ok r ∧ r.ranges = s
  overflow : maxPosition < s.total → ∃ i, s.OverflowsAt i ∧
    form.build target = .error (.totalOverflow i) ∧
    ofPairs target s.bounds form.gridHash = .error (.totalOverflow i)

variable {form : Form} {target : τ}

theorem build_of_selects {s : Selection} (h : form.Selects s) :
    form.build target = ofPairs target s.bounds form.gridHash := by
  cases form with
  | pairs ps hash =>
    cases h
    rfl
  | bare ps =>
    cases h
    rfl
  | selection ranges hash =>
    cases h
    exact (ofPairs_bounds target s hash).symm
  | mask bits hash =>
    -- The bits leave no choice between runs, so these are the ones that are looked for.
    obtain ⟨hBit, hRuns⟩ := h
    rw [hRuns.eq (Selection.runs_runsOf bits), ofPairs_bounds, build, ofMask,
      Selection.ofMask_of_mem hBit]
    rfl
  | points ps hash =>
    obtain ⟨hBounded, hBounds⟩ := h
    by_cases hNil : ps = []
    · subst hNil
      rw [hBounds]
      rfl
    · have hUnits : s.bounds = Selection.bounds (ps.map Range.unit) := by
        rw [hBounds, Selection.bounds, List.map_map]
        rfl
      rw [hUnits, ofPairs_bounds, build, ofPoints, Selection.ofPoints_of_lt hNil hBounded]
      rfl
  | text written hash =>
    have hParse : Selection.parse written = .ok s := h
    rw [ofPairs_bounds, build, ofText, hParse]
    rfl

/-- The ranges are collected first, and only a selection of them is made a request. -/
theorem exists_selects {r : Request τ} (h : form.build target = .ok r) :
    ∃ s, form.Selects s ∧ ofSelection target s form.gridHash = .ok r := by
  cases form with
  | pairs ps hash =>
    obtain ⟨s, hRanges, hBuilt⟩ := bind_eq_ok_iff.mp h
    exact ⟨s, Selection.bounds_of_validate hRanges, hBuilt⟩
  | bare ps =>
    obtain ⟨s, hRanges, hBuilt⟩ := bind_eq_ok_iff.mp h
    exact ⟨s, Selection.bounds_of_validate hRanges, hBuilt⟩
  | selection ranges hash => exact ⟨ranges, rfl, h⟩
  | mask bits hash =>
    obtain ⟨s, hRanges, hBuilt⟩ := bind_eq_ok_iff.mp h
    exact ⟨s, Selection.runsOf_of_ofMask hRanges, hBuilt⟩
  | points ps hash =>
    obtain ⟨s, hRanges, hBuilt⟩ := bind_eq_ok_iff.mp h
    exact ⟨s, Selection.selects_of_ofPoints hRanges, hBuilt⟩
  | text written hash => exact bind_eq_ok_iff.mp h

theorem agrees_of_selects {s : Selection} (h : form.Selects s) : form.Agrees target s := by
  have hBuild : form.build target = ofPairs target s.bounds form.gridHash := build_of_selects h
  have hSelection := hBuild.trans (ofPairs_bounds target s form.gridHash)
  refine ⟨hBuild, ?_, ?_⟩
  · intro hNil hTotal
    exact ⟨⟨target, s, form.gridHash, hNil, hTotal⟩,
      hSelection.trans (ofSelection_eq_ok_iff.mpr ⟨rfl, rfl, rfl⟩), rfl⟩
  · intro hTotal
    obtain ⟨i, hOverflow, hError⟩ := Selection.checkedTotal_overflow hTotal
    have hNil : s ≠ [] := List.ne_nil_of_length_pos (Nat.zero_lt_of_lt hOverflow.inside)
    have hRefused := hSelection.trans (ofSelection_of_overflow hNil hError)
    exact ⟨i, hOverflow, hRefused, hBuild.symm.trans hRefused⟩

theorem built_of_build {r : Request τ} (h : form.build target = .ok r) : form.Built target r := by
  obtain ⟨s, hSelects, hBuilt⟩ := exists_selects h
  obtain ⟨hTarget, rfl, hHash⟩ := ofSelection_eq_ok_iff.mp hBuilt
  exact ⟨hTarget, hHash, hSelects, r.wellFormed, r.withoutGridHash.wellFormed⟩

end Form

/-- What is built can be relied on, whatever it is built from, and every way to write the same
ranges builds the same. -/
theorem forms_agree (target : τ) :
    (∀ (form : Form) (r : Request τ), form.build target = .ok r → form.Built target r) ∧
    ∀ (form : Form) (s : Selection), form.Selects s → form.Agrees target s := by
  constructor
  · intro form r
    exact Form.built_of_build
  · intro form s
    exact Form.agrees_of_selects

/-- A mask of two runs, and a text of two ranges that are each short enough. -/
theorem forms_agree_of_two_ranges :
    let k := Key.ofList [("step", .single "0")]
    let mask := Form.mask [true, true, false, true] (some "g")
    let runs : Selection := [⟨0, 2, by decide⟩, ⟨3, 4, by decide⟩]
    let text := Form.text "0-18446744073709551615, 1-18446744073709551615" none
    let long : Selection := [⟨0, maxPosition, by decide⟩, ⟨1, maxPosition, by decide⟩]
    mask.Selects runs ∧ mask.build k = ofPairs k [(0, 2), (3, 4)] (some "g") ∧
      (∃ r, mask.build k = .ok r ∧ mask.Built k r) ∧ text.Selects long ∧
      ∃ i, long.OverflowsAt i ∧ text.build k = .error (.totalOverflow i) ∧
        ofPairs k long.bounds none = .error (.totalOverflow i) := by
  intro k mask runs text long
  obtain ⟨hBuilt, hAgrees⟩ := forms_agree k
  have hMask : mask.Selects runs := ⟨by decide, Selection.runs_runsOf _⟩
  have hText : Selection.parse "0-18446744073709551615, 1-18446744073709551615" = .ok long := by
    decide +kernel
  obtain ⟨r, hBuild, _⟩ := (hAgrees mask runs hMask).accepted (by decide) (by decide)
  exact ⟨hMask, (hAgrees mask runs hMask).build_eq, ⟨r, hBuild, hBuilt mask r hBuild⟩, hText,
    (hAgrees text long hText).overflow (by decide)⟩

end Request

end FieldExtract
