import FieldExtract.Proofs.Numerals
import FieldExtract.Proofs.Traversal
import FieldExtract.Selection.Text

/-!
# Selections written as text

A text of a selection is one or more parts with commas between, and a part is two numerals with a
hyphen between; blanks may stand around the text, a part and a numeral. Such a text is read as the
ranges of its parts, and any other is refused for the first part that is at fault. What is written
for a selection is a text of it, so writing and reading undo each other.
-/

namespace FieldExtract.Selection

open Text.Numeral (Writes Fails)

variable {part side left right : String} {index lo hi n : Nat} {r : Range} {e : RangeError}
  {s : Selection}

/-- The pieces between the commas, without the blanks around the text and around each piece. -/
def parts (text : String) : List String := (Text.cut ',' (Text.trim text)).map Text.trim

/-- The two sides of the first hyphen. -/
structure Splits (part left right : String) : Prop where
  joins : part.toList = left.toList ++ '-' :: right.toList
  first : '-' ∉ left.toList

/-- Blanks aside, this side of a part is a numeral of a position. -/
structure WritesBound (side : String) (n : Nat) : Prop where
  writes : Writes (Text.trim side).toList n
  le : n ≤ maxPosition

/-- The sides of the part are the bounds of the range. -/
def WritesRange (part : String) (r : Range) : Prop :=
  ∃ left right, Splits part left right ∧ WritesBound left r.lo ∧ WritesBound right r.hi

def badBound (part side : String) (f : Text.Numeral.Fault) : RangeError :=
  .malformed part ("bad bound '" ++ side ++ "': " ++ f.message)

/-- Why a part is refused: the lower bound comes before the upper, and both before their order. -/
inductive Refuses (index : Nat) (part : String) : RangeError → Prop
  | unsplit (h : '-' ∉ part.toList) : Refuses index part (.malformed part "expected 'lo-hi'")
  | lower {left right : String} {f : Text.Numeral.Fault} (hSplit : Splits part left right)
      (h : Fails maxPosition (Text.trim left).toList f) : Refuses index part (badBound part left f)
  | upper {left right : String} {lo : Nat} {f : Text.Numeral.Fault}
      (hSplit : Splits part left right) (hLower : WritesBound left lo)
      (h : Fails maxPosition (Text.trim right).toList f) :
      Refuses index part (badBound part right f)
  | inverted {left right : String} {lo hi : Nat} (hSplit : Splits part left right)
      (hLower : WritesBound left lo) (hUpper : WritesBound right hi) (h : hi ≤ lo) :
      Refuses index part (.inverted index lo hi)

theorem parseBound_of_writes (h : WritesBound side n) : parseBound part side = .ok n := by
  have hRead : Text.Numeral.read maxPosition (Text.trim side) = .ok n :=
    Text.Numeral.readChars_eq_ok_iff.mpr ⟨h.writes, h.le⟩
  rw [parseBound, hRead]

theorem parseBound_of_fails {f : Text.Numeral.Fault}
    (h : Fails maxPosition (Text.trim side).toList f) :
    parseBound part side = .error (badBound part side f) := by
  have hRead : Text.Numeral.read maxPosition (Text.trim side) = .error f :=
    Text.Numeral.readChars_eq_error_iff.mpr h
  rw [parseBound, hRead]
  rfl

theorem writes_or_fails (side : String) :
    (∃ n, WritesBound side n) ∨ ∃ f, Fails maxPosition (Text.trim side).toList f := by
  cases hRead : Text.Numeral.readChars maxPosition (Text.trim side).toList with
  | ok n =>
    obtain ⟨hWrites, hLe⟩ := Text.Numeral.readChars_eq_ok_iff.mp hRead
    exact .inl ⟨n, hWrites, hLe⟩
  | error f => exact .inr ⟨f, Text.Numeral.readChars_eq_error_iff.mp hRead⟩

theorem parsePart_of_splits (h : Splits part left right) :
    parsePart index part =
      (parseBound part left >>= fun lo =>
        parseBound part right >>= fun hi => Range.ofBounds index lo hi) := by
  rw [parsePart, Text.cutFirst_eq_some_iff.mpr ⟨h.joins, h.first⟩]

theorem parsePart_of_bounds (h : Splits part left right) (hLower : WritesBound left lo)
    (hUpper : WritesBound right hi) : parsePart index part = Range.ofBounds index lo hi := by
  rw [parsePart_of_splits h, parseBound_of_writes hLower, parseBound_of_writes hUpper]
  rfl

theorem parsePart_of_writes (h : WritesRange part r) : parsePart index part = .ok r := by
  obtain ⟨left, right, hSplit, hLower, hUpper⟩ := h
  rw [parsePart_of_bounds hSplit hLower hUpper]
  exact Range.ofBounds_eq_ok_iff.mpr rfl

theorem parsePart_of_refuses (h : Refuses index part e) : parsePart index part = .error e := by
  cases h with
  | unsplit h => rw [parsePart, Text.cutFirst_eq_none_iff.mpr h]
  | lower hSplit h =>
    rw [parsePart_of_splits hSplit, parseBound_of_fails h]
    rfl
  | upper hSplit hLower h =>
    rw [parsePart_of_splits hSplit, parseBound_of_writes hLower, parseBound_of_fails h]
    rfl
  | inverted hSplit hLower hUpper h =>
    rw [parsePart_of_bounds hSplit hLower hUpper]
    exact dif_neg (Nat.not_lt_of_le h)

theorem writes_or_refuses (index : Nat) (part : String) :
    (∃ r, WritesRange part r) ∨ ∃ e, Refuses index part e := by
  cases hCut : Text.cutFirst '-' part with
  | none => exact .inr ⟨_, .unsplit (Text.cutFirst_eq_none_iff.mp hCut)⟩
  | some sides =>
    obtain ⟨hJoins, hFirst⟩ := Text.cutFirst_eq_some_iff.mp hCut
    have hSplit : Splits part sides.1 sides.2 := ⟨hJoins, hFirst⟩
    rcases writes_or_fails sides.1 with ⟨lo, hLower⟩ | ⟨f, hLower⟩
    · rcases writes_or_fails sides.2 with ⟨hi, hUpper⟩ | ⟨f, hUpper⟩
      · by_cases hOrder : lo < hi
        · exact .inl ⟨⟨lo, hi, hOrder⟩, _, _, hSplit, hLower, hUpper⟩
        · exact .inr ⟨_, .inverted hSplit hLower hUpper (Nat.le_of_not_lt hOrder)⟩
      · exact .inr ⟨_, .upper hSplit hLower hUpper⟩
    · exact .inr ⟨_, .lower hSplit hLower⟩

theorem parsePart_eq_ok_iff : parsePart index part = .ok r ↔ WritesRange part r := by
  constructor
  · intro h
    rcases writes_or_refuses index part with ⟨r', hWrites⟩ | ⟨e, hRefuses⟩
    · cases h.symm.trans (parsePart_of_writes hWrites)
      exact hWrites
    · cases h.symm.trans (parsePart_of_refuses hRefuses)
  · exact parsePart_of_writes

theorem parsePart_eq_error_iff : parsePart index part = .error e ↔ Refuses index part e := by
  constructor
  · intro h
    rcases writes_or_refuses index part with ⟨r, hWrites⟩ | ⟨e', hRefuses⟩
    · cases h.symm.trans (parsePart_of_writes hWrites)
    · cases h.symm.trans (parsePart_of_refuses hRefuses)
      exact hRefuses
  · exact parsePart_of_refuses

theorem collectFrom_parsePart_eq_ok_iff {ps : List String} :
    collectFrom parsePart index ps = .ok s ↔ List.Forall₂ WritesRange ps s := by
  apply collectFrom_eq_ok_iff
  intro i part r
  exact parsePart_eq_ok_iff

theorem parse_of_blank {text : String} (h : Text.trim text = "") :
    parse text = .error .empty := by
  simp only [parse, h]
  rfl

theorem parse_of_some {text : String} (h : Text.trim text ≠ "") :
    parse text = collectFrom parsePart 0 (parts text) := by
  rw [parts, collectFrom_map]
  exact if_neg (by simpa using h)

theorem parse_eq_ok_iff {text : String} :
    parse text = .ok s ↔ Text.trim text ≠ "" ∧ List.Forall₂ WritesRange (parts text) s := by
  by_cases hBlank : Text.trim text = ""
  · simp [parse_of_blank hBlank, hBlank]
  · rw [parse_of_some hBlank, collectFrom_parsePart_eq_ok_iff]
    exact (and_iff_right hBlank).symm

theorem parse_eq_error_iff {text : String} :
    parse text = .error e ↔ (Text.trim text = "" ∧ e = .empty) ∨
      Text.trim text ≠ "" ∧ ∃ before part after ranges, parts text = before ++ part :: after ∧
        List.Forall₂ WritesRange before ranges ∧ Refuses before.length part e := by
  by_cases hBlank : Text.trim text = ""
  · simp only [parse_of_blank hBlank, hBlank, Except.error.injEq, true_and, ne_eq, not_true,
      false_and, or_false]
    exact eq_comm
  · simp only [parse_of_some hBlank, hBlank, false_and, ne_eq, not_false_eq_true, true_and,
      false_or, collectFrom_eq_error_iff, collectFrom_parsePart_eq_ok_iff, parsePart_eq_error_iff,
      Nat.zero_add]

/-- A text is refused as empty if it is blank. Otherwise it is read as the ranges that its parts
write, or it is refused for the first part that writes none, for what comes first in that part. -/
theorem parse_by_parts (text : String) :
    (parse text = .error .empty ↔ Text.trim text = "") ∧
    (∀ s, parse text = .ok s ↔
      Text.trim text ≠ "" ∧ List.Forall₂ WritesRange (parts text) s) ∧
    ∀ e, parse text = .error e ↔ (Text.trim text = "" ∧ e = .empty) ∨
      Text.trim text ≠ "" ∧ ∃ before part after ranges, parts text = before ++ part :: after ∧
        List.Forall₂ WritesRange before ranges ∧ Refuses before.length part e := by
  refine ⟨⟨fun h => ?_, parse_of_blank⟩, fun s => parse_eq_ok_iff, fun e => parse_eq_error_iff⟩
  rcases parse_eq_error_iff.mp h with ⟨hBlank, _⟩ | ⟨_, before, part, after, ranges, _, _, hPart⟩
  · exact hBlank
  · cases hPart

/-- A comma at the end opens a last part, a second hyphen belongs to the upper bound, and a numeral
may have a sign and leading zeros. -/
example : parse "0-6," = .error (.malformed "" "expected 'lo-hi'") ∧
    parse "1-2-3" =
      .error (.malformed "1-2-3" "bad bound '2-3': invalid digit found in string") ∧
    parse " +1 - 007 " = .ok [⟨1, 7, by decide⟩] := by
  decide +kernel

/-- How a range is written in the text of a selection. -/
def rangeText (r : Range) : String := toString r.lo ++ "-" ++ toString r.hi

theorem isDigit_or_hyphen {c : Char} (h : c ∈ (rangeText r).toList) :
    c.isDigit = true ∨ c = '-' := by
  simp only [rangeText, String.toList_append, List.mem_append] at h
  rcases h with (hLo | hHyphen) | hHi
  · exact .inl (Text.Numeral.isDigit_of_mem_toString hLo)
  · exact .inr (List.mem_singleton.mp hHyphen)
  · exact .inl (Text.Numeral.isDigit_of_mem_toString hHi)

theorem not_isBlank_of_isDigit {c : Char} (h : c.isDigit = true) : Text.isBlank c = false := by
  have hBounds : 48 ≤ c.toNat ∧ c.toNat ≤ 57 := Char.isDigit_iff_toNat.mp h
  simp only [Text.isBlank, List.any_eq_false, Bool.and_eq_true, decide_eq_true_eq]
  intro range hRange
  have hApart : ∀ range ∈ Text.blankRanges, range.2 < 48 ∨ 57 < range.1 := by decide
  have := hApart range hRange
  omega

theorem trim_toString (n : Nat) : Text.trim (toString n) = toString n :=
  Text.trim_eq_self fun _ hc =>
    not_isBlank_of_isDigit (Text.Numeral.isDigit_of_mem_toString hc)

theorem writesBound_toString (h : n ≤ maxPosition) : WritesBound (toString n) n where
  writes := by
    rw [trim_toString]
    exact Text.Numeral.writes_toString n
  le := h

theorem writesRange_rangeText (h : r.hi ≤ maxPosition) : WritesRange (rangeText r) r := by
  refine ⟨toString r.lo, toString r.hi, ⟨by simp [rangeText], fun hHyphen => ?_⟩,
    writesBound_toString (Nat.le_trans (Nat.le_of_lt r.lo_lt_hi) h), writesBound_toString h⟩
  exact absurd (Text.Numeral.isDigit_of_mem_toString hHyphen) (by decide)

theorem not_isBlank_of_mem_rangeText {c : Char} (h : c ∈ (rangeText r).toList) :
    Text.isBlank c = false := by
  rcases isDigit_or_hyphen h with hDigit | rfl
  · exact not_isBlank_of_isDigit hDigit
  · decide

theorem trim_format (s : Selection) : Text.trim s.format = s.format := by
  apply Text.trim_eq_self
  intro c hc
  -- A blank is neither the comma nor a character of a range.
  by_contra hBlank
  rw [Bool.not_eq_false] at hBlank
  refine absurd hc (Text.not_mem_intercalate ?_ fun piece hPiece hMem => ?_)
  · intro hComma
    rw [List.mem_singleton.mp hComma] at hBlank
    exact absurd hBlank (by decide)
  · obtain ⟨r, _, rfl⟩ := List.mem_map.mp hPiece
    exact Bool.false_ne_true ((not_isBlank_of_mem_rangeText hMem).symm.trans hBlank)

theorem cut_format (hNil : s ≠ []) : Text.cut ',' s.format = s.map rangeText := by
  apply Text.cut_intercalate
  · rwa [Ne, List.map_eq_nil_iff]
  · intro piece hPiece hComma
    obtain ⟨r, _, rfl⟩ := List.mem_map.mp hPiece
    rcases isDigit_or_hyphen hComma with hDigit | hHyphen
    · exact absurd hDigit (by decide)
    · exact absurd hHyphen (by decide)

theorem parts_format (hNil : s ≠ []) : parts s.format = s.map rangeText := by
  rw [parts, trim_format, cut_format hNil, List.map_map]
  apply List.map_congr_left
  intro r _
  exact Text.trim_eq_self fun c => not_isBlank_of_mem_rangeText

theorem format_ne_empty (hNil : s ≠ []) : s.format ≠ "" := by
  intro hEmpty
  have hCut : [""] = s.map rangeText := by
    rw [← cut_format hNil, hEmpty]
    rfl
  obtain ⟨r, _, hText⟩ := List.mem_map.mp (hCut ▸ List.mem_singleton_self "")
  have hHyphen : '-' ∈ (rangeText r).toList := by simp [rangeText]
  rw [hText] at hHyphen
  cases hHyphen

theorem parse_format (hNil : s ≠ []) (hBounds : ∀ r ∈ s, r.hi ≤ maxPosition) :
    parse s.format = .ok s := by
  rw [parse_eq_ok_iff, trim_format, parts_format hNil, List.forall₂_map_left_iff]
  exact ⟨format_ne_empty hNil,
    List.forall₂_same.mpr fun r hr => writesRange_rangeText (hBounds r hr)⟩

theorem hi_le_of_writes {ps : List String} (h : List.Forall₂ WritesRange ps s) :
    ∀ r ∈ s, r.hi ≤ maxPosition := by
  induction h with
  | nil => exact fun r hr => absurd hr List.not_mem_nil
  | cons hHead _ ih =>
    obtain ⟨_, _, _, _, hUpper⟩ := hHead
    exact List.forall_mem_cons.mpr ⟨hUpper.le, ih⟩

theorem parts_ne_nil (text : String) : parts text ≠ [] := by
  simp [parts, Text.cut, List.splitOn_ne_nil]

theorem bounded_of_parse {text : String} (h : parse text = .ok s) :
    s ≠ [] ∧ ∀ r ∈ s, r.hi ≤ maxPosition := by
  obtain ⟨_, hParts⟩ := parse_eq_ok_iff.mp h
  refine ⟨?_, hi_le_of_writes hParts⟩
  rintro rfl
  exact parts_ne_nil text (List.forall₂_nil_right_iff.mp hParts)

/-- A selection of positions is read back from its text, whatever the order of its ranges and
however much they cover. What a text is read as has a text of its own that stays as it is. -/
theorem text_round_trip :
    (∀ s : Selection, s ≠ [] → (∀ r ∈ s, r.hi ≤ maxPosition) → parse s.format = .ok s) ∧
    ∀ (text : String) (s : Selection), parse text = .ok s →
      parse s.format = .ok s ∧ (parse s.format).map format = .ok s.format := by
  refine ⟨fun s => parse_format, fun text s h => ?_⟩
  obtain ⟨hNil, hBounds⟩ := bounded_of_parse h
  have hBack := parse_format hNil hBounds
  exact ⟨hBack, congrArg (Except.map format) hBack⟩

/-- Out of order, overlapping, one range twice and more positions in all than can be counted; and a
text with blanks, a sign and leading zeros. -/
theorem text_round_trip_of_long :
    let s : Selection := [⟨7, maxPosition, by decide⟩, ⟨0, maxPosition, by decide⟩,
      ⟨3, 4, by decide⟩, ⟨3, 4, by decide⟩]
    let written : Selection := [⟨7, 12, by decide⟩, ⟨0, 9, by decide⟩]
    maxPosition < s.total ∧ parse s.format = .ok s ∧
      parse " +7 - 012,\t0-9\n" = .ok written ∧ parse written.format = .ok written ∧
      (parse written.format).map format = .ok written.format := by
  intro s written
  have hText : parse " +7 - 012,\t0-9\n" = .ok written := by decide +kernel
  exact ⟨by decide, text_round_trip.1 s (by decide) (by decide), hText,
    text_round_trip.2 _ written hText⟩

end FieldExtract.Selection
