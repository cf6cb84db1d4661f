import FieldExtract.Proofs.MaskRuns

/-!
# Masks of selections

A bit of the mask of a selection is set just if the selection covers its position. So a mask is
the mask of its runs, and these are the only separated ranges within its length that cover its set
bits and nothing else. The other way round, the mask of a selection remembers the positions below
its length and no more: what is read off it is the selection in normal form.
-/

namespace FieldExtract.Selection

variable {s t : Selection} {mask : List Bool}

theorem getElem?_foldl_cover (s : Selection) (mask : List Bool) (p : Nat) :
    (s.foldl cover mask)[p]? = mask[p]?.map fun bit => bit || decide (p ∈ s.points) := by
  induction s generalizing mask with
  | nil => simp [points]
  | cons r s ih =>
    rw [List.foldl_cons, ih, cover, List.getElem?_mapIdx, Option.map_map]
    congr 1
    funext bit
    have hPoint : r.contains p = decide (p ∈ r.points) := by
      rw [Bool.eq_iff_iff, decide_eq_true_eq, Range.mem_points_iff]
    simp only [Function.comp_apply, hPoint, points_cons, List.mem_append, Bool.decide_or,
      Bool.or_assoc]

theorem getElem?_toMask (s : Selection) {len p : Nat} (hp : p < len) :
    (s.toMask len)[p]? = some (decide (p ∈ s.points)) := by
  rw [toMask, getElem?_foldl_cover, List.getElem?_replicate, if_pos hp, Option.map_some,
    Bool.false_or]

/-- Ranges are not empty, so it is enough that neighbours are apart. -/
theorem apart_iff_isChain : s.Apart ↔ s.IsChain fun a b => a.hi < b.lo := by
  have hTrans : IsTrans Range fun a b => a.hi < b.lo := by
    constructor
    intro a b c hFirst hSecond
    have := b.lo_lt_hi
    omega
  exact List.isChain_iff_pairwise.symm

/-- Each range lies within the mask and ends before the next begins, and together they cover the
set bits. -/
structure Delimits (mask : List Bool) (s : Selection) : Prop where
  inside : ∀ r ∈ s, r.lo < r.hi ∧ r.hi ≤ mask.length
  separated : s.IsChain fun a b => a.hi < b.lo
  covers : ∀ p, p ∈ s.points ↔ mask[p]? = some true

theorem Delimits.runsOf (h : Delimits mask s) : RunsOf mask s :=
  ⟨apart_iff_isChain.mpr h.separated, h.covers⟩

theorem RunsOf.delimits (h : RunsOf mask s) : Delimits mask s where
  inside r hr := by
    have hLast : r.hi - 1 ∈ s.points := by
      have := r.lo_lt_hi
      exact Selection.mem_points_iff.mpr ⟨r, hr, by omega, by omega⟩
    obtain ⟨hLt, _⟩ := List.getElem?_eq_some_iff.mp ((h.mem_points_iff _).mp hLast)
    exact ⟨r.lo_lt_hi, by omega⟩
  separated := apart_iff_isChain.mp h.apart
  covers := h.mem_points_iff

theorem RunsOf.toMask_eq (h : RunsOf mask s) : s.toMask mask.length = mask := by
  apply List.ext_getElem (length_toMask s mask.length)
  intro p _ hp
  have hSet : decide (p ∈ s.points) = mask[p] := by
    rw [Bool.eq_iff_iff, decide_eq_true_eq, h.mem_points_iff, List.getElem?_eq_getElem hp,
      Option.some.injEq]
  have hBit := getElem?_toMask s hp
  rw [hSet] at hBit
  exact (List.getElem?_eq_some_iff.mp hBit).2

theorem ofMask_of_not_mem (h : true ∉ mask) : ofMask mask = .error .emptyMask := by
  have hNone : runs mask = [] := by
    apply List.eq_nil_iff_forall_not_mem.mpr
    intro r hr
    have hFirst : r.lo ∈ (runs mask).points :=
      mem_points_iff.mpr ⟨r, hr, Nat.le_refl _, r.lo_lt_hi⟩
    exact h (List.mem_of_getElem? (((runs_runsOf mask).mem_points_iff _).mp hFirst))
  rw [ofMask, hNone]
  rfl

/-- A mask without a set bit is refused. Any other has one list of separated ranges that delimits
its set bits; position by position it counts them up, and its mask is the mask it was made of. -/
theorem ofMask_canonical (mask : List Bool) :
    (ofMask mask = .error .emptyMask ∧ true ∉ mask) ∨
      ∃ s, ofMask mask = .ok s ∧ true ∈ mask ∧
        Delimits mask s ∧ (∀ t, Delimits mask t → t = s) ∧
        s.points = setPositions mask ∧ s.toMask mask.length = mask := by
  by_cases hSet : true ∈ mask
  · right
    have hRuns := runs_runsOf mask
    exact ⟨runs mask, ofMask_of_mem hSet, hSet, hRuns.delimits, fun t ht => ht.runsOf.eq hRuns,
      hRuns.points_eq, hRuns.toMask_eq⟩
  · exact .inl ⟨ofMask_of_not_mem hSet, hSet⟩

theorem getElem?_toMask_eq_true_iff {len p : Nat} :
    (s.toMask len)[p]? = some true ↔ p < len ∧ p ∈ s.points := by
  constructor
  · intro h
    have hp : p < len := by
      have hLt := (List.getElem?_eq_some_iff.mp h).1
      rwa [length_toMask] at hLt
    rw [getElem?_toMask s hp, Option.some.injEq, decide_eq_true_eq] at h
    exact ⟨hp, h⟩
  · rintro ⟨hp, hPoint⟩
    rw [getElem?_toMask s hp, decide_eq_true hPoint]

theorem toMask_of_points (h : ∀ p, p ∈ t.points ↔ p ∈ s.points) (len : Nat) :
    t.toMask len = s.toMask len := by
  apply List.ext_getElem? fun p => ?_
  rcases Nat.lt_or_ge p len with hp | hp
  · rw [getElem?_toMask t hp, getElem?_toMask s hp, decide_eq_decide.mpr (h p)]
  · rw [List.getElem?_eq_none (by rwa [length_toMask]),
      List.getElem?_eq_none (by rwa [length_toMask])]

/-- Neither the order of the ranges nor how often one is repeated shows in the mask. -/
theorem toMask_congr (h : ∀ r, r ∈ t ↔ r ∈ s) (len : Nat) : t.toMask len = s.toMask len := by
  apply toMask_of_points
  intro p
  simp only [mem_points_iff, h]

theorem true_mem_toMask_iff {len : Nat} : true ∈ s.toMask len ↔ ∃ r ∈ s, r.lo < len := by
  rw [List.mem_iff_getElem?]
  simp only [getElem?_toMask_eq_true_iff, mem_points_iff]
  constructor
  · rintro ⟨p, hp, r, hr, hLo, _⟩
    exact ⟨r, hr, Nat.lt_of_le_of_lt hLo hp⟩
  · rintro ⟨r, hr, hStart⟩
    exact ⟨r.lo, hStart, r, hr, Nat.le_refl _, r.lo_lt_hi⟩

/-- Ranges with a gap before each next one, over the positions of a selection below a length. -/
structure Normalizes (s : Selection) (len : Nat) (t : Selection) : Prop where
  separated : t.IsChain fun a b => a.hi < b.lo
  covers : ∀ p, p ∈ t.points ↔ p < len ∧ p ∈ s.points

theorem normalizes_iff_runsOf {len : Nat} : Normalizes s len t ↔ RunsOf (s.toMask len) t := by
  constructor
  · rintro ⟨hSeparated, hCovers⟩
    refine ⟨apart_iff_isChain.mpr hSeparated, fun p => ?_⟩
    rw [hCovers, getElem?_toMask_eq_true_iff]
  · rintro ⟨hApart, hBits⟩
    refine ⟨apart_iff_isChain.mp hApart, fun p => ?_⟩
    rw [hBits, getElem?_toMask_eq_true_iff]

/-- In separated ranges no range reaches further than the last. -/
theorem Apart.hi_le_of_last {len : Nat} (h : s.Apart) (hLast : ∀ r ∈ s.getLast?, r.hi ≤ len) :
    ∀ r ∈ s, r.hi ≤ len := by
  intro r hr
  obtain ⟨init, last, rfl⟩ := List.eq_nil_or_concat' s |>.resolve_left (List.ne_nil_of_mem hr)
  have hEnd := hLast last List.getLast?_concat
  rcases List.mem_append.mp hr with hInit | hSame
  · have hBefore := (List.pairwise_append.mp h).2.2 r hInit last (List.mem_singleton_self last)
    have := last.lo_lt_hi
    omega
  · rwa [List.mem_singleton.mp hSame]

/-- A selection is its own normal form if it is separated and ends within the length. -/
theorem normalizes_self_iff {len : Nat} :
    Normalizes s len s ↔
      s.IsChain (fun a b => a.hi < b.lo) ∧ ∀ r ∈ s.getLast?, r.hi ≤ len := by
  constructor
  · rintro ⟨hSeparated, hCovers⟩
    refine ⟨hSeparated, fun r hr => ?_⟩
    have hPoint : r.hi - 1 ∈ s.points := by
      have := r.lo_lt_hi
      exact mem_points_iff.mpr ⟨r, List.mem_of_getLast? hr, by omega, by omega⟩
    have := ((hCovers _).mp hPoint).1
    omega
  · rintro ⟨hSeparated, hLast⟩
    refine ⟨hSeparated, fun p => ⟨fun hp => ⟨?_, hp⟩, And.right⟩⟩
    obtain ⟨r, hr, _, hHi⟩ := mem_points_iff.mp hp
    exact Nat.lt_of_lt_of_le hHi ((apart_iff_isChain.mpr hSeparated).hi_le_of_last hLast r hr)

/-- The mask of a selection shows which positions below its length are covered, and the ranges read
off it are the only separated ones over these. They are the selection itself if and only if it is
not empty, has a gap before each next range and ends within the mask: ranges that merely touch are
merged. -/
theorem ofMask_toMask (s : Selection) (len : Nat) :
    ((s.toMask len).length = len ∧
      (∀ p, (s.toMask len)[p]? = some true ↔ p < len ∧ ∃ r ∈ s, r.contains p = true) ∧
      ∀ t : Selection, (∀ r, r ∈ t ↔ r ∈ s) → t.toMask len = s.toMask len) ∧
    ((ofMask (s.toMask len) = .error .emptyMask ∧ ∀ r ∈ s, len ≤ r.lo) ∨
      ∃ t, ofMask (s.toMask len) = .ok t ∧ (∃ r ∈ s, r.lo < len) ∧
        Normalizes s len t ∧ ∀ u, Normalizes s len u → u = t) ∧
    (ofMask (s.toMask len) = .ok s ↔
      s ≠ [] ∧ s.IsChain (fun a b => a.hi < b.lo) ∧ ∀ r ∈ s.getLast?, r.hi ≤ len) := by
  refine ⟨⟨length_toMask s len, fun p => ?_, fun t h => toMask_congr h len⟩, ?_, ?_⟩
  · simp only [getElem?_toMask_eq_true_iff, mem_points_iff, Range.contains, Bool.and_eq_true,
      decide_eq_true_eq]
  · by_cases hStart : ∃ r ∈ s, r.lo < len
    · right
      have hSet := true_mem_toMask_iff.mpr hStart
      have hRuns := runs_runsOf (s.toMask len)
      exact ⟨_, ofMask_of_mem hSet, hStart, normalizes_iff_runsOf.mpr hRuns,
        fun u hu => (normalizes_iff_runsOf.mp hu).eq hRuns⟩
    · left
      refine ⟨ofMask_of_not_mem fun hSet => hStart (true_mem_toMask_iff.mp hSet), fun r hr => ?_⟩
      exact Nat.le_of_not_lt fun hLt => hStart ⟨r, hr, hLt⟩
  · rw [ofMask_eq_ok_iff, ← normalizes_iff_runsOf, normalizes_self_iff]

/-- Out of order, touching, one of them across the end of the mask and one written twice. -/
theorem ofMask_toMask_of_touching :
    let s : Selection := [⟨3, 6, by decide⟩, ⟨0, 2, by decide⟩, ⟨2, 4, by decide⟩]
    let t : Selection :=
      [⟨0, 2, by decide⟩, ⟨2, 4, by decide⟩, ⟨3, 6, by decide⟩, ⟨0, 2, by decide⟩]
    t.toMask 5 = s.toMask 5 ∧ ofMask (s.toMask 5) = .ok [⟨0, 5, by decide⟩] ∧
      ofMask (s.toMask 5) ≠ .ok s := by
  intro s t
  obtain ⟨⟨_, _, hOrder⟩, _, hSelf⟩ := ofMask_toMask s 5
  have hSame : ∀ r, r ∈ t ↔ r ∈ s := by
    intro r
    simp only [s, t, List.mem_cons, List.not_mem_nil, or_false]
    tauto
  refine ⟨hOrder t hSame, by decide, fun h => ?_⟩
  exact absurd (hSelf.mp h).2.1 (by decide)

end FieldExtract.Selection
