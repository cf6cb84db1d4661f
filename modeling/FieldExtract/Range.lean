/-!
# Half-open ranges of positions

A range `[lo, hi)` is never empty. Positions and lengths are natural numbers; the largest one that
a request may name or count to is `maxPosition`.
-/

namespace FieldExtract

def maxPosition : Nat := UInt64.size - 1

/-- Why ranges, points or a mask do not select anything that can be requested. -/
inductive RangeError
  | empty
  | inverted (index lo hi : Nat)
  | emptyMask
  | pointOverflow (index position : Nat)
  | totalOverflow (index : Nat)
  | malformed (text reason : String)
deriving DecidableEq

def RangeError.message : RangeError → String
  | .empty => "at least one range is required"
  | .inverted index lo hi =>
    "invalid range " ++ toString index ++ " [" ++ toString lo ++ ", " ++ toString hi ++
      "): expected lo < hi"
  | .emptyMask => "mask must contain at least one set position"
  | .pointOverflow index position =>
    "point " ++ toString index ++ " at position " ++ toString position ++
      " overflows the index type"
  | .totalOverflow index =>
    "ranges cover more than usize::MAX positions (overflow at range " ++ toString index ++ ")"
  | .malformed text reason => "malformed range string '" ++ text ++ "': " ++ reason

structure Range where
  lo : Nat
  hi : Nat
  lo_lt_hi : lo < hi
deriving DecidableEq

namespace Range

/-- The range between two bounds, or the fault of the pair at this index. -/
def ofBounds (index lo hi : Nat) : Except RangeError Range :=
  if h : lo < hi then .ok ⟨lo, hi, h⟩ else .error (.inverted index lo hi)

def unit (p : Nat) : Range := ⟨p, p + 1, Nat.lt_succ_self p⟩

def extend (r : Range) : Range := ⟨r.lo, r.hi + 1, Nat.lt_succ_of_lt r.lo_lt_hi⟩

def bounds (r : Range) : Nat × Nat := (r.lo, r.hi)

def len (r : Range) : Nat := r.hi - r.lo

def contains (r : Range) (p : Nat) : Bool := decide (r.lo ≤ p) && decide (p < r.hi)

def points (r : Range) : List Nat := List.range' r.lo r.len

/-- Ranges are ordered by their lower bounds, and by their upper bounds where those agree. -/
def le (a b : Range) : Bool := decide (a.lo < b.lo) || (a.lo == b.lo && decide (a.hi ≤ b.hi))

def text (r : Range) : String := "[" ++ toString r.lo ++ ", " ++ toString r.hi ++ ")"

theorem len_pos (r : Range) : 0 < r.len := Nat.sub_pos_of_lt r.lo_lt_hi

theorem mem_points_iff {r : Range} {p : Nat} : p ∈ r.points ↔ r.contains p = true := by
  have h := r.lo_lt_hi
  simp only [points, contains, len, List.mem_range'_1, Bool.and_eq_true, decide_eq_true_eq]
  omega

theorem ofBounds_eq_ok_iff {index lo hi : Nat} {r : Range} :
    ofBounds index lo hi = .ok r ↔ r.bounds = (lo, hi) := by
  unfold ofBounds
  split
  · next h =>
    cases r
    simp only [Except.ok.injEq, Range.mk.injEq, bounds, Prod.mk.injEq]
    exact ⟨fun e => ⟨e.1.symm, e.2.symm⟩, fun e => ⟨e.1.symm, e.2.symm⟩⟩
  · next h =>
    simp only [reduceCtorEq, false_iff, bounds, Prod.mk.injEq, not_and]
    have := r.lo_lt_hi
    intro _ _
    omega

end Range

end FieldExtract
