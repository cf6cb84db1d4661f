import FieldExtract.Proofs.SelectionTotal
import Mathlib.Data.List.Sort

/-!
# The runs of a mask

Ranges that stand in order, each with a gap before the next, are determined by the positions that
they cover: they are the maximal stretches of covered positions. The runs of a mask are the ranges
of this kind that cover its set bits. So there is only one list of them, and position by position
it names the set bits in ascending order.
-/

namespace FieldExtract

/-- The positions of the set bits of a mask, in ascending order. -/
def setPositions (mask : List Bool) : List Nat :=
  (List.range mask.length).filter fun p => mask[p]? == some true

theorem mem_setPositions_iff {mask : List Bool} {p : Nat} :
    p ∈ setPositions mask ↔ mask[p]? = some true := by
  rw [setPositions, List.mem_filter, List.mem_range, beq_iff_eq]
  constructor
  · exact And.right
  · intro h
    exact ⟨(List.getElem?_eq_some_iff.mp h).1, h⟩

theorem lt_of_mem_setPositions {mask : List Bool} {p : Nat} (h : p ∈ setPositions mask) :
    p < mask.length :=
  (List.getElem?_eq_some_iff.mp (mem_setPositions_iff.mp h)).1

theorem setPositions_ne_nil {mask : List Bool} (h : true ∈ mask) : setPositions mask ≠ [] := by
  obtain ⟨p, hp⟩ := List.mem_iff_getElem?.mp h
  exact List.ne_nil_of_mem (mem_setPositions_iff.mpr hp)

theorem pairwise_setPositions (mask : List Bool) : (setPositions mask).Pairwise (· < ·) :=
  List.pairwise_lt_range.filter _

namespace Selection

variable {s t : Selection} {r : Range} {p : Nat}

theorem mem_points_iff : p ∈ s.points ↔ ∃ r ∈ s, r.lo ≤ p ∧ p < r.hi := by
  simp only [points, List.mem_flatMap, Range.mem_points_iff, Range.contains, Bool.and_eq_true,
    decide_eq_true_eq]

theorem points_cons (r : Range) (s : Selection) : points (r :: s) = r.points ++ s.points :=
  List.flatMap_cons

theorem points_append (s t : Selection) : points (s ++ t) = s.points ++ t.points :=
  List.flatMap_append

/-- The ranges stand in order, with at least one position between each and the next. -/
def Apart (s : Selection) : Prop := s.Pairwise fun a b => a.hi < b.lo

theorem Apart.trichotomy {a b : Range} (h : s.Apart) (ha : a ∈ s) (hb : b ∈ s) :
    a = b ∨ a.hi < b.lo ∨ b.hi < a.lo := by
  induction s with
  | nil => cases ha
  | cons c s ih =>
    obtain ⟨hHead, hTail⟩ := List.pairwise_cons.mp h
    rcases List.mem_cons.mp ha with rfl | haTail
    · rcases List.mem_cons.mp hb with rfl | hbTail
      · exact .inl rfl
      · exact .inr (.inl (hHead b hbTail))
    · rcases List.mem_cons.mp hb with rfl | hbTail
      · exact .inr (.inr (hHead a haTail))
      · exact ih hTail haTail hbTail

/-- All positions of the range are covered, and neither the one before it nor the one after. -/
structure Maximal (s : Selection) (r : Range) : Prop where
  covered : ∀ p, r.lo ≤ p → p < r.hi → p ∈ s.points
  ends : r.hi ∉ s.points
  begins : ∀ p, p + 1 = r.lo → p ∉ s.points

theorem Apart.maximal_of_mem (h : s.Apart) (hr : r ∈ s) : s.Maximal r where
  covered p hLo hHi := mem_points_iff.mpr ⟨r, hr, hLo, hHi⟩
  ends hEnd := by
    obtain ⟨q, hq, hLo, hHi⟩ := mem_points_iff.mp hEnd
    have := r.lo_lt_hi
    rcases h.trichotomy hr hq with rfl | hOrder | hOrder <;> omega
  begins p hp hBegin := by
    obtain ⟨q, hq, hLo, hHi⟩ := mem_points_iff.mp hBegin
    have := r.lo_lt_hi
    rcases h.trichotomy hr hq with rfl | hOrder | hOrder <;> omega

theorem Apart.mem_iff_maximal (h : s.Apart) : r ∈ s ↔ s.Maximal r := by
  constructor
  · exact h.maximal_of_mem
  · intro hMax
    obtain ⟨q, hq, hLo, hHi⟩ := mem_points_iff.mp (hMax.covered r.lo (Nat.le_refl _) r.lo_lt_hi)
    have hq' := h.maximal_of_mem hq
    have hLower : q.lo = r.lo := by
      by_contra hNe
      apply hMax.begins (r.lo - 1) (by omega)
      exact hq'.covered _ (by omega) (by omega)
    have hUpper : q.hi = r.hi := by
      rcases Nat.lt_trichotomy q.hi r.hi with hLt | hEq | hGt
      · exact absurd (hMax.covered q.hi (Nat.le_of_lt hHi) hLt) hq'.ends
      · exact hEq
      · have := r.lo_lt_hi
        exact absurd (hq'.covered r.hi (by omega) hGt) hMax.ends
    have hSame : q = r := by
      cases q
      cases r
      cases hLower
      cases hUpper
      rfl
    exact hSame ▸ hq

theorem Apart.eq_of_points (hs : s.Apart) (ht : t.Apart)
    (h : ∀ p, p ∈ s.points ↔ p ∈ t.points) : s = t := by
  have hMaximal : ∀ r, s.Maximal r ↔ t.Maximal r := by
    intro r
    constructor
    · rintro ⟨hCovered, hEnds, hBegins⟩
      exact ⟨fun p hLo hHi => (h p).mp (hCovered p hLo hHi), fun hp => hEnds ((h _).mpr hp),
        fun p hp hPoint => hBegins p hp ((h p).mpr hPoint)⟩
    · rintro ⟨hCovered, hEnds, hBegins⟩
      exact ⟨fun p hLo hHi => (h p).mpr (hCovered p hLo hHi), fun hp => hEnds ((h _).mp hp),
        fun p hp hPoint => hBegins p hp ((h p).mp hPoint)⟩
  have hIrrefl : Std.Irrefl fun a b : Range => a.hi < b.lo :=
    ⟨fun a h => by have := a.lo_lt_hi; omega⟩
  have hAntisymm : Std.Antisymm fun a b : Range => a.hi < b.lo :=
    ⟨fun a b h h' => by have := a.lo_lt_hi; have := b.lo_lt_hi; omega⟩
  apply List.Pairwise.eq_of_mem_iff hs ht
  intro r
  rw [hs.mem_iff_maximal, ht.mem_iff_maximal, hMaximal]

theorem Apart.pairwise_points (h : s.Apart) : s.points.Pairwise (· < ·) := by
  induction s with
  | nil => exact List.Pairwise.nil
  | cons r s ih =>
    obtain ⟨hHead, hTail⟩ := List.pairwise_cons.mp h
    rw [points_cons, List.pairwise_append]
    refine ⟨List.pairwise_lt_range', ih hTail, ?_⟩
    intro p hp q hq
    obtain ⟨t, ht, hLo, _⟩ := mem_points_iff.mp hq
    have hGap := hHead t ht
    have hIn := Range.mem_points_iff.mp hp
    simp only [Range.contains, Bool.and_eq_true, decide_eq_true_eq] at hIn
    omega

/-- The ranges stand apart and cover the set bits of the mask, and nothing else. -/
structure RunsOf (mask : List Bool) (s : Selection) : Prop where
  apart : s.Apart
  mem_points_iff : ∀ p, p ∈ s.points ↔ mask[p]? = some true

theorem RunsOf.eq {mask : List Bool} (hs : RunsOf mask s) (ht : RunsOf mask t) : s = t :=
  hs.apart.eq_of_points ht.apart fun p => (hs.mem_points_iff p).trans (ht.mem_points_iff p).symm

theorem RunsOf.points_eq {mask : List Bool} (h : RunsOf mask s) :
    s.points = setPositions mask := by
  apply List.Pairwise.eq_of_mem_iff h.apart.pairwise_points (pairwise_setPositions mask)
  intro p
  rw [h.mem_points_iff, mem_setPositions_iff]

/-- The bit at a position, for a mask that starts at another. -/
theorem bit_cons_iff {bit : Bool} {mask : List Bool} {q : Nat} :
    (p ≤ q ∧ (bit :: mask)[q - p]? = some true) ↔
      (q = p ∧ bit = true) ∨ (p + 1 ≤ q ∧ mask[q - (p + 1)]? = some true) := by
  rcases Nat.lt_trichotomy q p with hLt | rfl | hGt
  · constructor
    · rintro ⟨hLe, _⟩
      omega
    · rintro (⟨hEq, _⟩ | ⟨hLe, _⟩) <;> omega
  · simp
  · have hNext : q - p = (q - (p + 1)) + 1 := by omega
    rw [hNext, List.getElem?_cons_succ]
    constructor
    · rintro ⟨_, hBit⟩
      exact .inr ⟨hGt, hBit⟩
    · rintro (⟨hEq, _⟩ | ⟨_, hBit⟩)
      · omega
      · exact ⟨Nat.le_of_lt hGt, hBit⟩

theorem mem_points_singleton {q : Nat} : q ∈ points [r] ↔ r.lo ≤ q ∧ q < r.hi := by
  simp only [mem_points_iff, List.mem_singleton, exists_eq_left]

/-- The run that a set bit continues, or begins. -/
theorem mem_points_extended {opened : Option Range} {q : Nat} (hOpened : ∀ o ∈ opened, o.hi = p) :
    q ∈ points [(opened.map Range.extend).getD (Range.unit p)] ↔
      q ∈ points opened.toList ∨ q = p := by
  cases opened with
  | none =>
    have hNone : q ∉ points [] := List.not_mem_nil
    rw [Option.map_none, Option.getD_none, Option.toList_none, mem_points_singleton]
    simp only [Range.unit, hNone, false_or]
    omega
  | some o =>
    have hEnd := hOpened o rfl
    have := o.lo_lt_hi
    rw [Option.map_some, Option.getD_some, Option.toList_some, mem_points_singleton,
      mem_points_singleton]
    simp only [Range.extend]
    omega

theorem hi_extended {opened : Option Range} (hOpened : ∀ o ∈ opened, o.hi = p) :
    ∀ o ∈ some ((opened.map Range.extend).getD (Range.unit p)), o.hi = p + 1 := by
  rintro o ⟨⟩
  cases opened with
  | none => rfl
  | some o => exact congrArg (· + 1) (hOpened o rfl)

theorem mem_points_runsFrom {opened : Option Range} {mask : List Bool} {q : Nat}
    (hOpened : ∀ o ∈ opened, o.hi = p) :
    q ∈ (runsFrom p opened mask).points ↔
      q ∈ points opened.toList ∨ (p ≤ q ∧ mask[q - p]? = some true) := by
  induction mask generalizing p opened with
  | nil => simp [runsFrom]
  | cons bit mask ih =>
    rw [bit_cons_iff]
    cases bit with
    | true =>
      rw [runsFrom, ih (hi_extended hOpened), Option.toList_some, mem_points_extended hOpened]
      simp only [and_true, or_assoc]
    | false =>
      rw [runsFrom, points_append, List.mem_append, ih (by rintro o ⟨⟩)]
      simp [points]

theorem apart_runsFrom {opened : Option Range} {mask : List Bool}
    (hOpened : ∀ o ∈ opened, o.hi = p) : (runsFrom p opened mask).Apart := by
  induction mask generalizing p opened with
  | nil => cases opened <;> simp [runsFrom, Apart]
  | cons bit mask ih =>
    cases bit with
    | true => exact ih (hi_extended hOpened)
    | false =>
      have hRest : (runsFrom (p + 1) none mask).Apart := ih (by rintro o ⟨⟩)
      cases opened with
      | none => exact hRest
      | some o =>
        apply List.pairwise_cons.mpr
        refine ⟨?_, hRest⟩
        intro r (hr : r ∈ runsFrom (p + 1) none mask)
        -- A later run covers its own first position, which is not left of the bits still to come.
        have hFirst : r.lo ∈ (runsFrom (p + 1) none mask).points :=
          mem_points_iff.mpr ⟨r, hr, Nat.le_refl _, r.lo_lt_hi⟩
        rw [mem_points_runsFrom (by rintro o ⟨⟩)] at hFirst
        have hEnd := hOpened o rfl
        rcases hFirst with hNone | ⟨hLe, _⟩
        · cases hNone
        · omega

theorem runs_runsOf (mask : List Bool) : RunsOf mask (runs mask) where
  apart := apart_runsFrom (by rintro o ⟨⟩)
  mem_points_iff p := by
    rw [runs, mem_points_runsFrom (by rintro o ⟨⟩)]
    simp [points]

theorem points_runs (mask : List Bool) : (runs mask).points = setPositions mask :=
  (runs_runsOf mask).points_eq

theorem ofMask_of_mem {mask : List Bool} (h : true ∈ mask) : ofMask mask = .ok (runs mask) := by
  rw [ofMask, if_neg]
  intro hEmpty
  have hPoints := points_runs mask
  rw [List.isEmpty_iff.mp hEmpty] at hPoints
  exact setPositions_ne_nil h hPoints.symm

theorem ofMask_eq_ok_iff {mask : List Bool} :
    ofMask mask = .ok t ↔ t ≠ [] ∧ RunsOf mask t := by
  have hRuns := runs_runsOf mask
  rw [ofMask]
  split
  · next hNone =>
    simp only [reduceCtorEq, false_iff]
    rintro ⟨hNil, ht⟩
    exact hNil ((ht.eq hRuns).trans (List.isEmpty_iff.mp hNone))
  · next hSome =>
    rw [Except.ok.injEq]
    constructor
    · rintro rfl
      exact ⟨by simpa using hSome, hRuns⟩
    · rintro ⟨_, ht⟩
      exact hRuns.eq ht

end Selection

end FieldExtract
