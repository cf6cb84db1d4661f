import FieldExtract.Range
import FieldExtract.Shape

/-!
# Selections

A selection is a list of ranges as the caller wrote them: overlapping, unordered and repeated
ranges stay as they are. Pairs of bounds make a selection if there is one, none is inverted and
the lengths add up to at most `maxPosition`; inversion is looked for in the whole list first.
-/

namespace FieldExtract

/-- Treats the elements in order, each with its index; the first refusal is the answer. -/
def collectFrom {ε α β : Type} (f : Nat → α → Except ε β) : Nat → List α → Except ε (List β)
  | _, [] => .ok []
  | i, a :: as =>
    match f i a with
    | .error e => .error e
    | .ok b =>
      match collectFrom f (i + 1) as with
      | .error e => .error e
      | .ok bs => .ok (b :: bs)

theorem length_collectFrom {ε α β : Type} {f : Nat → α → Except ε β} {i : Nat} {as : List α}
    {bs : List β} (h : collectFrom f i as = .ok bs) : bs.length = as.length := by
  induction as generalizing i bs with
  | nil =>
    cases h
    rfl
  | cons a as ih =>
    rw [collectFrom] at h
    split at h
    · cases h
    · split at h
      · cases h
      · next hRest =>
        cases h
        rw [List.length_cons, List.length_cons, ih hRest]

abbrev Selection := List Range

namespace Selection

def total (s : Selection) : Nat := (s.map Range.len).foldr (· + ·) 0

def totalFrom (index sum : Nat) : Selection → Except RangeError Nat
  | [] => .ok sum
  | r :: rs =>
    if sum + r.len ≤ maxPosition then totalFrom (index + 1) (sum + r.len) rs
    else .error (.totalOverflow index)

/-- The total length, or the first range at which it leaves `maxPosition`. -/
def checkedTotal (s : Selection) : Except RangeError Nat := totalFrom 0 0 s

def validate (pairs : List (Nat × Nat)) : Except RangeError Selection :=
  if pairs.isEmpty then .error .empty
  else
    match collectFrom (fun i p => Range.ofBounds i p.1 p.2) 0 pairs with
    | .error e => .error e
    | .ok s =>
      match checkedTotal s with
      | .error e => .error e
      | .ok _ => .ok s

/-- One range of length one for each point. -/
def ofPoints (points : List Nat) : Except RangeError Selection :=
  if points.isEmpty then .error .empty
  else
    collectFrom
      (fun i p => if p < maxPosition then .ok (Range.unit p) else .error (.pointOverflow i p))
      0 points

def points (s : Selection) : List Nat := s.flatMap Range.points

def bounds (s : Selection) : List (Nat × Nat) := s.map Range.bounds

/-- All bounds in one list, two for each range. -/
def flatBounds (s : Selection) : List Nat := s.flatMap fun r => [r.lo, r.hi]

def shape (s : Selection) : Shape := ⟨s.map Range.len⟩

def sorted (s : Selection) : Selection := s.mergeSort Range.le

/-- Drops each range that repeats the one kept last before it. -/
def squeeze : Selection → Selection
  | [] => []
  | [r] => [r]
  | a :: b :: rs => if a = b then squeeze (b :: rs) else a :: squeeze (b :: rs)

theorem totalFrom_eq_ok_iff {index sum n : Nat} {s : Selection} (hSum : sum ≤ maxPosition) :
    totalFrom index sum s = .ok n ↔ n = sum + s.total ∧ n ≤ maxPosition := by
  induction s generalizing index sum with
  | nil =>
    simp only [totalFrom, Except.ok.injEq, total, List.map_nil, List.foldr_nil, Nat.add_zero]
    exact ⟨fun e => ⟨e.symm, e ▸ hSum⟩, fun e => e.1.symm⟩
  | cons r rs ih =>
    have hTotal : total (r :: rs) = r.len + total rs := by simp [total]
    rw [totalFrom]
    split
    · next h => rw [ih h, hTotal, Nat.add_assoc]
    · next h =>
      simp only [reduceCtorEq, false_iff, hTotal, not_and]
      omega

theorem checkedTotal_eq_ok_iff {s : Selection} {n : Nat} :
    s.checkedTotal = .ok n ↔ n = s.total ∧ n ≤ maxPosition := by
  rw [checkedTotal, totalFrom_eq_ok_iff (Nat.zero_le _), Nat.zero_add]

/-- What passes the check can be requested: it would pass every later one. -/
theorem validate_sound {pairs : List (Nat × Nat)} {s : Selection} (h : validate pairs = .ok s) :
    s ≠ [] ∧ s.total ≤ maxPosition := by
  unfold validate at h
  split at h
  · cases h
  · next hSome =>
    split at h
    · cases h
    · next found hFound =>
      split at h
      · cases h
      · next total hTotal =>
        cases h
        have hLength := length_collectFrom hFound
        obtain ⟨rfl, hLe⟩ := checkedTotal_eq_ok_iff.mp hTotal
        refine ⟨?_, hLe⟩
        rintro rfl
        exact hSome (by rw [List.isEmpty_iff, List.length_eq_zero_iff.mp hLength.symm])

theorem length_points (s : Selection) : s.points.length = s.total := by
  simp [points, total, List.length_flatMap, Range.points, List.sum_eq_foldr]

end Selection

end FieldExtract
