import FieldExtract.Proofs.SelectionTotal

/-!
# Which bounds make a selection

Pairs of bounds are checked twice: for an inverted pair, in the whole list, and then for a total
length that cannot be counted. So the lists that make a selection are those that can be requested,
and every other is refused for one fault: an inverted pair comes before an overflow wherever the two
stand, and either is the first of its kind.
-/

namespace FieldExtract.Selection

variable {pairs : List (Nat × Nat)} {s : Selection} {e : RangeError} {i j : Nat}

theorem collectFrom_bounds (i : Nat) (s : Selection) :
    collectFrom (fun i p => Range.ofBounds i p.1 p.2) i s.bounds = .ok s := by
  induction s generalizing i with
  | nil => rfl
  | cons r s ih =>
    have hHead : Range.ofBounds i r.bounds.1 r.bounds.2 = .ok r :=
      Range.ofBounds_eq_ok_iff.mpr rfl
    have hRest := ih (i + 1)
    rw [bounds] at hRest
    simp only [bounds, List.map_cons, collectFrom, hHead, hRest]

theorem validate_bounds (hNil : s ≠ []) :
    validate s.bounds = s.checkedTotal.map fun _ => s := by
  have hSome : ¬s.bounds.isEmpty := by
    rwa [bounds, List.isEmpty_iff, List.map_eq_nil_iff]
  rw [validate, if_neg hSome, collectFrom_bounds]
  dsimp only
  cases s.checkedTotal with
  | error e => rfl
  | ok n => rfl

theorem validate_bounds_of_le (hNil : s ≠ []) (h : s.total ≤ maxPosition) :
    validate s.bounds = .ok s := by
  rw [validate_bounds hNil, checkedTotal_eq_ok_iff.mpr ⟨rfl, h⟩]
  rfl

theorem bounds_of_validate {pairs : List (Nat × Nat)} (h : validate pairs = .ok s) :
    s.bounds = pairs := by
  unfold validate at h
  split at h
  · cases h
  · split at h
    · cases h
    · next found hFound =>
      split at h
      · cases h
      · cases h
        exact map_of_collectFrom hFound fun i p r hRange => Range.ofBounds_eq_ok_iff.mp hRange

/-- The range with which the total length leaves what can be counted. -/
structure OverflowsAt (s : Selection) (i : Nat) : Prop where
  inside : i < s.length
  before : total (s.take i) ≤ maxPosition
  after : maxPosition < total (s.take (i + 1))

/-- By induction on the ranges still to be added, for whatever sum and index stand before them. -/
theorem totalFrom_overflow {index sum : Nat} (hSum : sum ≤ maxPosition)
    (h : maxPosition < sum + s.total) :
    ∃ i, i < s.length ∧ sum + total (s.take i) ≤ maxPosition ∧
      maxPosition < sum + total (s.take (i + 1)) ∧
      totalFrom index sum s = .error (.totalOverflow (index + i)) := by
  induction s generalizing index sum with
  | nil => exact absurd h (Nat.not_lt_of_le hSum)
  | cons r rs ih =>
    rw [total_cons] at h
    by_cases hHere : sum + r.len ≤ maxPosition
    · obtain ⟨i, hi, hBefore, hAfter, hError⟩ := @ih (index + 1) _ hHere (by omega)
      refine ⟨i + 1, Nat.succ_lt_succ hi, ?_, ?_, ?_⟩
      · rwa [List.take_succ_cons, total_cons, ← Nat.add_assoc]
      · rwa [List.take_succ_cons, total_cons, ← Nat.add_assoc]
      · rw [totalFrom, if_pos hHere, hError, Nat.add_assoc, Nat.add_comm 1 i]
    · refine ⟨0, Nat.succ_pos _, hSum, ?_, ?_⟩
      · rw [List.take_succ_cons, total_cons, List.take_zero]
        exact Nat.lt_of_not_le hHere
      · rw [totalFrom, if_neg hHere]
        rfl

theorem checkedTotal_overflow (h : maxPosition < s.total) :
    ∃ i, s.OverflowsAt i ∧ s.checkedTotal = .error (.totalOverflow i) := by
  obtain ⟨i, hi, hBefore, hAfter, hError⟩ :=
    @totalFrom_overflow s 0 0 (Nat.zero_le _) (by rwa [Nat.zero_add])
  rw [Nat.zero_add] at hBefore hAfter hError
  exact ⟨i, ⟨hi, hBefore, hAfter⟩, hError⟩

theorem total_take_le (h : i ≤ j) : total (s.take i) ≤ total (s.take j) := by
  have hSplit := total_append ((s.take j).take i) ((s.take j).drop i)
  rw [List.take_append_drop, List.take_take, Nat.min_eq_left h] at hSplit
  omega

theorem OverflowsAt.unique (h : s.OverflowsAt i) (h' : s.OverflowsAt j) : i = j := by
  rcases Nat.lt_trichotomy i j with hLt | rfl | hLt
  · exact absurd (Nat.le_trans (total_take_le hLt) h'.before) (Nat.not_le_of_lt h.after)
  · rfl
  · exact absurd (Nat.le_trans (total_take_le hLt) h.before) (Nat.not_le_of_lt h'.after)

theorem OverflowsAt.total_lt (h : s.OverflowsAt i) : maxPosition < s.total := by
  have hTake := total_take_le (s := s) (Nat.succ_le_of_lt h.inside)
  rw [List.take_length] at hTake
  exact Nat.lt_of_lt_of_le h.after hTake

theorem checkedTotal_of_overflowsAt (h : s.OverflowsAt i) :
    s.checkedTotal = .error (.totalOverflow i) := by
  obtain ⟨j, hOverflow, hError⟩ := checkedTotal_overflow h.total_lt
  rw [hError, hOverflow.unique h]

/-- How many positions pairs of bounds cover, each pair for itself. -/
def covered (pairs : List (Nat × Nat)) : Nat := (pairs.map fun p => p.2 - p.1).foldr (· + ·) 0

theorem covered_bounds (s : Selection) : covered s.bounds = s.total := by
  rw [total, covered, bounds, List.map_map]
  rfl

theorem covered_take_bounds (s : Selection) (i : Nat) :
    covered (s.bounds.take i) = total (s.take i) := by
  rw [← covered_bounds, bounds, bounds, List.map_take]

theorem lt_of_mem_bounds {p : Nat × Nat} (h : p ∈ s.bounds) : p.1 < p.2 := by
  obtain ⟨r, _, rfl⟩ := List.mem_map.mp h
  exact r.lo_lt_hi

theorem exists_bounds_eq (h : ∀ p ∈ pairs, p.1 < p.2) : ∃ s : Selection, s.bounds = pairs := by
  induction pairs with
  | nil => exact ⟨[], rfl⟩
  | cons p rest ih =>
    obtain ⟨hHead, hRest⟩ := List.forall_mem_cons.mp h
    obtain ⟨s, rfl⟩ := ih hRest
    exact ⟨⟨p.1, p.2, hHead⟩ :: s, rfl⟩

/-- What an engine can be asked for. -/
structure Requestable (pairs : List (Nat × Nat)) : Prop where
  nonempty : pairs ≠ []
  ordered : ∀ p ∈ pairs, p.1 < p.2
  covered_le : covered pairs ≤ maxPosition

/-- Why pairs of bounds are refused. The inverted pair is the first, whatever is covered before it;
the overflow is at the first pair up to which too much is covered. -/
inductive Faulty (pairs : List (Nat × Nat)) : RangeError → Prop
  | empty (h : pairs = []) : Faulty pairs .empty
  | inverted (i lo hi : Nat) (hAt : pairs[i]? = some (lo, hi)) (hInverted : hi ≤ lo)
      (hBefore : ∀ p ∈ pairs.take i, p.1 < p.2) : Faulty pairs (.inverted i lo hi)
  | overflow (i : Nat) (hOrdered : ∀ p ∈ pairs, p.1 < p.2) (hInside : i < pairs.length)
      (hBefore : ∀ j < i, covered (pairs.take (j + 1)) ≤ maxPosition)
      (hHere : maxPosition < covered (pairs.take (i + 1))) : Faulty pairs (.totalOverflow i)

theorem validate_of_requestable (h : Requestable pairs) : ∃ s, validate pairs = .ok s := by
  obtain ⟨s, rfl⟩ := exists_bounds_eq h.ordered
  have hNil : s ≠ [] := by
    rintro rfl
    exact h.nonempty rfl
  exact ⟨s, validate_bounds_of_le hNil (covered_bounds s ▸ h.covered_le)⟩

theorem requestable_of_validate (h : validate pairs = .ok s) : Requestable pairs := by
  obtain ⟨hNil, hTotal⟩ := validate_sound h
  rw [← bounds_of_validate h]
  refine ⟨?_, fun p hp => lt_of_mem_bounds hp, (covered_bounds s).symm ▸ hTotal⟩
  rwa [bounds, Ne, List.map_eq_nil_iff]

theorem validate_of_faulty (h : Faulty pairs e) : validate pairs = .error e := by
  cases h with
  | empty h =>
    subst h
    rfl
  | inverted i lo hi hAt hInverted hBefore =>
    obtain ⟨hInside, hPair⟩ := List.getElem?_eq_some_iff.mp hAt
    obtain ⟨before, hBounds⟩ := exists_bounds_eq hBefore
    have hCollected := collectFrom_bounds 0 before
    rw [hBounds] at hCollected
    have hRefused : Range.ofBounds (0 + (pairs.take i).length) lo hi =
        .error (.inverted i lo hi) := by
      rw [List.length_take, Nat.min_eq_left (Nat.le_of_lt hInside), Nat.zero_add]
      exact dif_neg (Nat.not_lt_of_le hInverted)
    have hSplit : pairs = pairs.take i ++ (lo, hi) :: pairs.drop (i + 1) := by
      rw [← hPair, ← List.drop_eq_getElem_cons hInside, List.take_append_drop]
    have hSome : ¬pairs.isEmpty := by
      rw [List.isEmpty_iff_length_eq_zero]
      omega
    have hError := collectFrom_eq_error_iff.mpr ⟨_, _, _, _, hSplit, hCollected, hRefused⟩
    rw [validate, if_neg hSome, hError]
  | overflow i hOrdered hInside hBefore hHere =>
    obtain ⟨s, rfl⟩ := exists_bounds_eq hOrdered
    have hOverflow : s.OverflowsAt i := by
      refine ⟨by rwa [bounds, List.length_map] at hInside, ?_, covered_take_bounds s _ ▸ hHere⟩
      cases i with
      | zero => exact Nat.zero_le _
      | succ j => exact covered_take_bounds s _ ▸ hBefore j (Nat.lt_succ_self j)
    have hNil : s ≠ [] := List.ne_nil_of_length_pos (Nat.zero_lt_of_lt hOverflow.inside)
    rw [validate_bounds hNil, checkedTotal_of_overflowsAt hOverflow]
    rfl

theorem requestable_or_faulty (pairs : List (Nat × Nat)) :
    Requestable pairs ∨ ∃ e, Faulty pairs e := by
  by_cases hNil : pairs = []
  · exact .inr ⟨_, .empty hNil⟩
  cases hCollected : collectFrom (fun i p => Range.ofBounds i p.1 p.2) 0 pairs with
  | error e =>
    -- the pairs before the one that is refused have been collected, so they are ordered
    obtain ⟨before, p, after, s, rfl, hBefore, hRefused⟩ := collectFrom_eq_error_iff.mp hCollected
    have hBounds : bounds s = before :=
      map_of_collectFrom hBefore fun i p r hRange => Range.ofBounds_eq_ok_iff.mp hRange
    have hInverted : p.2 ≤ p.1 := by
      refine Nat.le_of_not_lt fun hLt => ?_
      rw [Range.ofBounds, dif_pos hLt] at hRefused
      cases hRefused
    refine .inr ⟨_, .inverted before.length p.1 p.2 ?_ hInverted ?_⟩
    · rw [List.getElem?_append_right (Nat.le_refl _), Nat.sub_self]
      rfl
    · rw [List.take_left, ← hBounds]
      exact fun q hq => lt_of_mem_bounds hq
  | ok s =>
    have hBounds : bounds s = pairs :=
      map_of_collectFrom hCollected fun i p r hRange => Range.ofBounds_eq_ok_iff.mp hRange
    have hOrdered : ∀ p ∈ pairs, p.1 < p.2 := fun p hp => lt_of_mem_bounds (hBounds ▸ hp)
    rcases Nat.lt_or_ge maxPosition (total s) with hLt | hLe
    · obtain ⟨i, hOverflow, _⟩ := checkedTotal_overflow hLt
      refine .inr ⟨_, .overflow i hOrdered ?_ (fun j hj => ?_) ?_⟩
      · rw [← hBounds, bounds, List.length_map]
        exact hOverflow.inside
      · rw [← hBounds, covered_take_bounds]
        exact Nat.le_trans (total_take_le hj) hOverflow.before
      · rw [← hBounds, covered_take_bounds]
        exact hOverflow.after
    · exact .inl ⟨hNil, hOrdered, hBounds ▸ covered_bounds s ▸ hLe⟩

/-- Pairs make a selection just if they can be requested. The selection keeps them as they are and
its total, checked or not, is what they cover; otherwise they are refused for their fault. -/
theorem validate_by_bounds (pairs : List (Nat × Nat)) :
    ((∃ s, validate pairs = .ok s) ↔ Requestable pairs) ∧
    (∀ s, validate pairs = .ok s → s.bounds = pairs ∧
      s.checkedTotal = .ok (covered pairs) ∧ s.total = covered pairs) ∧
    ∀ e, validate pairs = .error e ↔ Faulty pairs e := by
  refine ⟨⟨?_, validate_of_requestable⟩, fun s h => ?_, fun e => ⟨fun h => ?_, validate_of_faulty⟩⟩
  · rintro ⟨s, h⟩
    exact requestable_of_validate h
  · have hBounds := bounds_of_validate h
    have hTotal : s.total = covered pairs := by rw [← hBounds, covered_bounds]
    refine ⟨hBounds, ?_, hTotal⟩
    exact checkedTotal_eq_ok_iff.mpr ⟨hTotal.symm, (requestable_of_validate h).covered_le⟩
  · rcases requestable_or_faulty pairs with hRequestable | ⟨f, hFaulty⟩
    · obtain ⟨s, hValid⟩ := validate_of_requestable hRequestable
      cases hValid.symm.trans h
    · cases (validate_of_faulty hFaulty).symm.trans h
      exact hFaulty

/-- Two pairs cover more than can be counted, but the one behind them is inverted; without it, the
second of them is at fault. -/
theorem validate_by_bounds_of_long :
    let long := [(0, maxPosition), (7, maxPosition)]
    validate (long ++ [(3, 3)]) = .error (.inverted 2 3 3) ∧
      validate long = .error (.totalOverflow 1) ∧
      ∃ s, validate [(7, maxPosition), (0, 7)] = .ok s ∧ s.total = maxPosition := by
  intro long
  refine ⟨?_, ?_, ?_⟩
  · apply ((validate_by_bounds _).2.2 _).mpr
    exact .inverted 2 3 3 rfl (by decide) (by decide)
  · apply ((validate_by_bounds _).2.2 _).mpr
    exact .overflow 1 (by decide) (by decide) (by decide) (by decide)
  · obtain ⟨hIff, hSelects, _⟩ := validate_by_bounds [(7, maxPosition), (0, 7)]
    obtain ⟨s, hValid⟩ := hIff.mpr ⟨by decide, by decide, by decide⟩
    exact ⟨s, hValid, (hSelects s hValid).2.2.trans (by decide)⟩

end FieldExtract.Selection
