import FieldExtract.Key.Wire
import FieldExtract.Selection.Mask
import FieldExtract.Selection.Text

/-!
# Extraction requests

A request names a target, the ranges to take from it and, optionally, the hash of the grid that
the ranges were made for. It has at least one range, and all its positions can be counted. The
target is a key or the place of a field in a file.
-/

namespace FieldExtract

structure Request (τ : Type) where
  target : τ
  ranges : Selection
  gridHash : Option String
  nonempty : ranges ≠ []
  total_le : ranges.total ≤ maxPosition

namespace Request

variable {τ : Type}

def ofSelection (target : τ) (ranges : Selection) (gridHash : Option String) :
    Except RangeError (Request τ) :=
  if hNil : ranges = [] then .error .empty
  else
    match hTotal : ranges.checkedTotal with
    | .error e => .error e
    | .ok _ =>
      have hSum := Selection.checkedTotal_eq_ok_iff.mp hTotal
      .ok ⟨target, ranges, gridHash, hNil, hSum.1 ▸ hSum.2⟩

def ofPairs (target : τ) (pairs : List (Nat × Nat)) (gridHash : Option String) :
    Except RangeError (Request τ) := do
  ofSelection target (← Selection.validate pairs) gridHash

def ofMask (target : τ) (mask : List Bool) (gridHash : Option String) :
    Except RangeError (Request τ) := do
  ofSelection target (← Selection.ofMask mask) gridHash

def ofPoints (target : τ) (points : List Nat) (gridHash : Option String) :
    Except RangeError (Request τ) := do
  ofSelection target (← Selection.ofPoints points) gridHash

def ofText (target : τ) (s : String) (gridHash : Option String) :
    Except RangeError (Request τ) := do
  ofSelection target (← Selection.parse s) gridHash

def shape (r : Request τ) : Shape := r.ranges.shape

def flatBounds (r : Request τ) : List Nat := r.ranges.flatBounds

def points (r : Request τ) : List Nat := r.ranges.points

def withoutGridHash (r : Request τ) : Request τ := { r with gridHash := none }

/-- Equality, with the targets compared as given. -/
def same (sameTarget : τ → τ → Bool) (a b : Request τ) : Bool :=
  sameTarget a.target b.target && a.ranges == b.ranges && a.gridHash == b.gridHash

theorem ofSelection_eq_ok_iff {target : τ} {ranges : Selection} {gridHash : Option String}
    {r : Request τ} :
    ofSelection target ranges gridHash = .ok r ↔
      r.target = target ∧ r.ranges = ranges ∧ r.gridHash = gridHash := by
  constructor
  · intro h
    unfold ofSelection at h
    split at h
    · cases h
    · split at h
      · cases h
      · cases h
        exact ⟨rfl, rfl, rfl⟩
  · rintro ⟨rfl, rfl, rfl⟩
    unfold ofSelection
    rw [dif_neg r.nonempty]
    split
    · next e he =>
      have := Selection.checkedTotal_eq_ok_iff.mpr ⟨rfl, r.total_le⟩
      rw [he] at this
      cases this
    · rfl

theorem ofPairs_eq_ok_iff {target : τ} {pairs : List (Nat × Nat)} {gridHash : Option String}
    {r : Request τ} :
    ofPairs target pairs gridHash = .ok r ↔
      Selection.validate pairs = .ok r.ranges ∧ r.target = target ∧ r.gridHash = gridHash := by
  unfold ofPairs
  cases Selection.validate pairs with
  | error e =>
    constructor
    · intro h
      cases h
    · rintro ⟨hRanges, _⟩
      cases hRanges
  | ok ranges =>
    constructor
    · intro h
      obtain ⟨hTarget, rfl, hHash⟩ := ofSelection_eq_ok_iff.mp h
      exact ⟨rfl, hTarget, hHash⟩
    · rintro ⟨hRanges, hTarget, hHash⟩
      cases hRanges
      exact ofSelection_eq_ok_iff.mpr ⟨hTarget, rfl, hHash⟩

end Request

abbrev KeyRequest := Request Key

namespace KeyRequest

def same (a b : KeyRequest) : Bool := Request.same Key.same a b

/-- The form in which one key that stands for many fields is sent. -/
def retrieveText (r : KeyRequest) : String := "retrieve," ++ r.target.serialize

end KeyRequest

/-- Where one field lies; a local file has the scheme `file` and names no host. -/
structure Location where
  path : String
  scheme : String
  offset : Nat
  host : String
  portNumber : Nat
deriving DecidableEq

def Location.ofFile (path : String) (offset : Nat) : Location := ⟨path, "file", offset, "", 0⟩

abbrev PathRequest := Request Location

def PathRequest.same (a b : PathRequest) : Bool :=
  Request.same (fun x y => decide (x = y)) a b

end FieldExtract
