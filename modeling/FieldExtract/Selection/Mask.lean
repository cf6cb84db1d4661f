import FieldExtract.Selection.Basic

/-!
# Selections and masks

A mask has one bit for each position of a field. The selection of a mask is the list of its
maximal runs of set bits; the mask of a selection has the covered positions set, as far as they
lie within its length.
-/

namespace FieldExtract.Selection

/-- The runs of the mask bits that start at position `p`, after the run still open there. -/
def runsFrom (p : Nat) (opened : Option Range) : List Bool → Selection
  | [] => opened.toList
  | true :: mask =>
    runsFrom (p + 1) (some ((opened.map Range.extend).getD (Range.unit p))) mask
  | false :: mask => opened.toList ++ runsFrom (p + 1) none mask

def runs (mask : List Bool) : Selection := runsFrom 0 none mask

def ofMask (mask : List Bool) : Except RangeError Selection :=
  if (runs mask).isEmpty then .error .emptyMask else .ok (runs mask)

def cover (mask : List Bool) (r : Range) : List Bool :=
  mask.mapIdx fun p bit => bit || r.contains p

def toMask (s : Selection) (len : Nat) : List Bool := s.foldl cover (List.replicate len false)

theorem length_toMask (s : Selection) (len : Nat) : (s.toMask len).length = len := by
  have h : ∀ mask : List Bool, (s.foldl cover mask).length = mask.length := by
    induction s with
    | nil => simp
    | cons r rs ih => intro mask; rw [List.foldl_cons, ih]; simp [cover]
  simp [toMask, h]

example : runs [true, true, false, true] = [⟨0, 2, by decide⟩, ⟨3, 4, by decide⟩] := rfl

end FieldExtract.Selection
