import FieldExtract.Proofs.RequestForms
import FieldExtract.Proofs.SelectionText

/-!
# Selections whose positions can be counted

Pairs of bounds are turned into a selection only if its positions can be counted, and a mask or a
list of points selects no more than it is long. A text makes the exception: each of its ranges is
checked and what they add up to is not, so it may be read as a selection that its own bounds would
not make. That is noticed where the positions are counted, at the latest by the request.
-/

namespace FieldExtract.Selection

variable {s : Selection}

/-- Whoever counts the positions, one by one, by ranges or by the shape, can count them. -/
structure Fits (s : Selection) : Prop where
  checked : s.checkedTotal = .ok s.total
  total_le : s.total ≤ maxPosition
  points_le : s.points.length ≤ maxPosition
  shape_le : s.shape.total ≤ maxPosition

theorem fits_of_total_le (h : s.total ≤ maxPosition) : s.Fits where
  checked := checkedTotal_eq_ok_iff.mpr ⟨rfl, h⟩
  total_le := h
  points_le := (length_points s).symm ▸ h
  shape_le := h

/-- The positions become too many with this range. The bounds are refused for it, and so is a
request for the selection. -/
structure Exceeds (s : Selection) (i : Nat) : Prop where
  overflows : s.OverflowsAt i
  uncounted : s.checkedTotal = .error (.totalOverflow i)
  refused : validate s.bounds = .error (.totalOverflow i)
  unrequested : ∀ (k : Key) (gridHash : Option String),
    Request.ofSelection k s gridHash = .error (.totalOverflow i)

theorem Exceeds.not_fits {i : Nat} (h : s.Exceeds i) : ¬s.Fits := fun hFits =>
  Nat.not_le_of_lt h.overflows.total_lt hFits.total_le

theorem exceeds_of_total_lt (h : maxPosition < s.total) : ∃ i, s.Exceeds i := by
  obtain ⟨i, hOverflows, hError⟩ := checkedTotal_overflow h
  have hNil : s ≠ [] := List.ne_nil_of_length_pos (Nat.zero_lt_of_lt hOverflows.inside)
  refine ⟨i, hOverflows, hError, ?_, fun k gridHash => ?_⟩
  · rw [validate_bounds hNil, hError]
    rfl
  · exact Request.ofSelection_of_overflow hNil hError

theorem validate_of_fits (hNil : s ≠ []) (h : s.Fits) : validate s.bounds = .ok s :=
  validate_bounds_of_le hNil h.total_le

/-- What a selection is made from. -/
inductive Origin
  | pairs (pairs : List (Nat × Nat))
  | mask (mask : List Bool)
  | points (points : List Nat)
  | text (text : String)

namespace Origin

def select : Origin → Except RangeError Selection
  | pairs ps => validate ps
  | mask bits => ofMask bits
  | points ps => ofPoints ps
  | text written => parse written

def length : Origin → Nat
  | pairs ps => ps.length
  | mask bits => bits.length
  | points ps => ps.length
  | text written => written.utf8ByteSize

/-- Only what is read from a text may still have more positions than can be counted. -/
def Counted (s : Selection) : Origin → Prop
  | text _ => s.total ≤ maxPosition
  | pairs _ | mask _ | points _ => True

variable {origin : Origin}

theorem select_sound (hLength : origin.length ≤ maxPosition) (h : origin.select = .ok s) :
    s ≠ [] ∧ (origin.Counted s → s.total ≤ maxPosition) := by
  cases origin with
  | pairs ps =>
    obtain ⟨hNil, hTotal⟩ := validate_sound h
    exact ⟨hNil, fun _ => hTotal⟩
  | mask bits =>
    obtain ⟨hNil, hTotal⟩ := ofMask_sound h
    exact ⟨hNil, fun _ => hTotal ▸ Nat.le_trans List.count_le_length hLength⟩
  | points ps =>
    obtain ⟨hNil, hTotal⟩ := ofPoints_sound h
    exact ⟨hNil, fun _ => hTotal ▸ hLength⟩
  | text written =>
    have hRead : parse written = .ok s := h
    exact ⟨(bounded_of_parse hRead).1, id⟩

theorem counted_of_fits (h : s.Fits) (origin : Origin) : origin.Counted s := by
  cases origin with
  | text written => exact h.total_le
  | pairs ps => trivial
  | mask bits => trivial
  | points ps => trivial

end Origin

/-- Of the selections that are made of bounds, a mask or points, all fit. One that is read from a
text may not, and then its bounds are refused though the text was not. -/
theorem fits_unless_read {origin : Origin} (hLength : origin.length ≤ maxPosition)
    (h : origin.select = .ok s) :
    (s.Fits ↔ origin.Counted s) ∧ (s.Fits ↔ validate s.bounds = .ok s) ∧
      (¬s.Fits ↔ ∃ i, s.Exceeds i) := by
  obtain ⟨hNil, hTotal⟩ := Origin.select_sound hLength h
  refine ⟨⟨?_, fun hCounted => fits_of_total_le (hTotal hCounted)⟩,
    ⟨validate_of_fits hNil, fun hValid => fits_of_total_le (validate_sound hValid).2⟩,
    ⟨fun hBeyond => ?_, fun ⟨_, hExceeds⟩ => hExceeds.not_fits⟩⟩
  · intro hFits
    exact Origin.counted_of_fits hFits origin
  · apply exceeds_of_total_lt
    by_contra hLe
    exact hBeyond (fits_of_total_le (Nat.le_of_not_lt hLe))

/-- One position more than can be counted, in two ranges that are each short enough. -/
theorem parse_beyond_count :
    let s : Selection := [⟨0, maxPosition, by decide⟩, ⟨0, 1, by decide⟩]
    parse "0-18446744073709551615,0-1" = .ok s ∧ ¬s.Fits ∧ s.total = maxPosition + 1 ∧
      s.checkedTotal = .error (.totalOverflow 1) ∧
      validate s.bounds = .error (.totalOverflow 1) := by
  intro s
  have hText : parse "0-18446744073709551615,0-1" = .ok s := by decide +kernel
  have hTotal : s.total = maxPosition + 1 := by decide
  have hBeyond : ¬s.Fits := fun hFits => absurd (hTotal ▸ hFits.total_le) (Nat.not_succ_le_self _)
  exact ⟨hText, hBeyond, hTotal, by decide, by decide⟩

/-- As many positions as can be counted and one more, in texts; a mask and some points. -/
theorem fits_unless_read_of_longest :
    let longest : Selection := [⟨7, maxPosition, by decide⟩, ⟨0, 7, by decide⟩]
    let first : Selection := [⟨0, 1, by decide⟩]
    let twice : Selection := [⟨7, 8, by decide⟩, ⟨7, 8, by decide⟩]
    let beyond : Selection := [⟨0, maxPosition, by decide⟩, ⟨0, 1, by decide⟩]
    ((Origin.text "7-18446744073709551615, 0-7").select = .ok longest ∧ longest.Fits ∧
        validate longest.bounds = .ok longest) ∧
      ((Origin.mask [true, false]).select = .ok first ∧ first.Fits) ∧
      ((Origin.points [7, 7]).select = .ok twice ∧ twice.Fits) ∧
      (Origin.text "0-18446744073709551615,0-1").select = .ok beyond ∧ ∃ i, beyond.Exceeds i := by
  intro longest first twice beyond
  have hLongest : (Origin.text "7-18446744073709551615, 0-7").select = .ok longest := by
    decide +kernel
  have hBeyond : (Origin.text "0-18446744073709551615,0-1").select = .ok beyond := by
    decide +kernel
  have hFirst : (Origin.mask [true, false]).select = .ok first := by decide
  have hTwice : (Origin.points [7, 7]).select = .ok twice := by decide
  obtain ⟨hText, hValid, _⟩ := fits_unless_read (by decide) hLongest
  obtain ⟨hMask, _⟩ := fits_unless_read (by decide) hFirst
  obtain ⟨hPoints, _⟩ := fits_unless_read (by decide) hTwice
  obtain ⟨_, _, hExceeds⟩ := fits_unless_read (by decide) hBeyond
  have hTotal : longest.total ≤ maxPosition := by decide
  have hFits : longest.Fits := hText.mpr hTotal
  refine ⟨⟨hLongest, hFits, hValid.mp hFits⟩, ⟨hFirst, hMask.mpr trivial⟩,
    ⟨hTwice, hPoints.mpr trivial⟩, hBeyond, hExceeds.mp fun hFits => ?_⟩
  exact absurd hFits.total_le (by decide)

end FieldExtract.Selection
