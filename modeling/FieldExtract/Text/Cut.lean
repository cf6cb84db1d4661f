/-!
# Cutting text at a separator

`cut` yields the pieces between all separators, always at least one; `cutFirst` the two sides of
the first separator, if there is one; `afterStart?` what follows a given beginning.
`String.intercalate` undoes `cut`.
-/

namespace FieldExtract.Text

def cut (sep : Char) (s : String) : List String :=
  (s.toList.splitOn sep).map String.ofList

def cutFirstChars (sep : Char) : List Char → Option (List Char × List Char)
  | [] => none
  | c :: cs =>
    if c = sep then some ([], cs) else (cutFirstChars sep cs).map fun p => (c :: p.1, p.2)

def cutFirst (sep : Char) (s : String) : Option (String × String) :=
  (cutFirstChars sep s.toList).map fun p => (String.ofList p.1, String.ofList p.2)

def afterStart? (start s : String) : Option String :=
  if start.toList.isPrefixOf s.toList then
    some (String.ofList (s.toList.drop start.toList.length))
  else none

theorem cutFirstChars_eq_some_iff {sep : Char} {s left right : List Char} :
    cutFirstChars sep s = some (left, right) ↔ s = left ++ sep :: right ∧ sep ∉ left := by
  induction s generalizing left with
  | nil => simp [cutFirstChars]
  | cons c cs ih =>
    by_cases hc : c = sep
    · subst hc
      simp only [cutFirstChars, if_true, Option.some.injEq, Prod.mk.injEq]
      constructor
      · rintro ⟨rfl, rfl⟩
        exact ⟨rfl, List.not_mem_nil⟩
      · rintro ⟨h, hNot⟩
        cases left with
        | nil => exact ⟨rfl, by simpa using h⟩
        | cons d ds => simp only [List.cons_append, List.cons.injEq] at h; simp [h.1] at hNot
    · simp only [cutFirstChars, if_neg hc, Option.map_eq_some_iff, Prod.mk.injEq]
      constructor
      · rintro ⟨⟨l, r⟩, hCut, rfl, rfl⟩
        obtain ⟨rfl, hNot⟩ := ih.mp hCut
        exact ⟨rfl, by simp [hNot, Ne.symm hc]⟩
      · rintro ⟨h, hNot⟩
        cases left with
        | nil => simp only [List.nil_append, List.cons.injEq] at h; exact absurd h.1 hc
        | cons d ds =>
          simp only [List.cons_append, List.cons.injEq] at h
          obtain ⟨rfl, h⟩ := h
          exact ⟨(ds, right), ih.mpr ⟨h, fun hm => hNot (List.mem_cons_of_mem _ hm)⟩, rfl, rfl⟩

theorem cutFirst_eq_some_iff {sep : Char} {s left right : String} :
    cutFirst sep s = some (left, right) ↔
      s.toList = left.toList ++ sep :: right.toList ∧ sep ∉ left.toList := by
  simp only [cutFirst, Option.map_eq_some_iff, Prod.mk.injEq]
  constructor
  · rintro ⟨⟨l, r⟩, h, rfl, rfl⟩
    simpa using cutFirstChars_eq_some_iff.mp h
  · intro h
    exact ⟨(left.toList, right.toList), cutFirstChars_eq_some_iff.mpr h, by simp, by simp⟩

theorem cutFirst_eq_none_iff {sep : Char} {s : String} :
    cutFirst sep s = none ↔ sep ∉ s.toList := by
  constructor
  · intro h hMem
    obtain ⟨left, right, hText, hFirst⟩ := List.eq_append_cons_of_mem hMem
    have hCut : cutFirst sep s = some (String.ofList left, String.ofList right) :=
      cutFirst_eq_some_iff.mpr (by simpa using ⟨hText, hFirst⟩)
    cases h.symm.trans hCut
  · intro h
    cases hCut : cutFirst sep s with
    | none => rfl
    | some sides =>
      have hText := (cutFirst_eq_some_iff.mp hCut).1
      exact absurd (hText ▸ List.mem_append_right _ List.mem_cons_self) h

theorem intercalate_cut (sep : Char) (s : String) :
    (String.singleton sep).intercalate (cut sep s) = s := by
  have hId : String.toList ∘ String.ofList = id := funext fun cs => String.toList_ofList
  rw [← String.toList_inj, String.toList_intercalate, String.toList_singleton, cut, List.map_map,
    hId, List.map_id, List.intercalate_splitOn]

theorem cut_intercalate {sep : Char} {pieces : List String} (hNil : pieces ≠ [])
    (hSep : ∀ p ∈ pieces, sep ∉ p.toList) :
    cut sep ((String.singleton sep).intercalate pieces) = pieces := by
  rw [cut, String.toList_intercalate, String.toList_singleton, List.splitOn_intercalate]
  · simp
  · simpa using hSep
  · simpa using hNil

/-- Leaving out empty pieces makes up for the one piece that a cut of nothing has. -/
theorem filter_cut_intercalate {sep : Char} {pieces : List String}
    (hSep : ∀ p ∈ pieces, sep ∉ p.toList) (hFilled : ∀ p ∈ pieces, p ≠ "") :
    (cut sep ((String.singleton sep).intercalate pieces)).filter (fun p => !p.isEmpty) =
      pieces := by
  by_cases hNil : pieces = []
  · subst hNil
    simp [cut]
  · rw [cut_intercalate hNil hSep, List.filter_eq_self]
    intro p hp
    simpa using hFilled p hp

theorem not_mem_intercalate {c : Char} {sep : String} {pieces : List String}
    (hSep : c ∉ sep.toList) (hPieces : ∀ p ∈ pieces, c ∉ p.toList) :
    c ∉ (sep.intercalate pieces).toList := by
  rw [String.toList_intercalate]
  induction pieces with
  | nil => exact List.not_mem_nil
  | cons p rest ih =>
    have hHead := hPieces p List.mem_cons_self
    have hRest := ih fun q hq => hPieces q (List.mem_cons_of_mem p hq)
    cases rest with
    | nil => simpa using hHead
    | cons q rest =>
      rw [List.map_cons, List.map_cons, List.intercalate_cons_cons, List.mem_append,
        List.mem_append]
      rintro ((h | h) | h)
      · exact hHead h
      · exact hSep h
      · exact hRest h

theorem afterStart?_append (start s : String) : afterStart? start (start ++ s) = some s := by
  rw [afterStart?, String.toList_append, if_pos, List.drop_left, String.ofList_toList]
  rw [List.isPrefixOf_iff_prefix]
  exact List.prefix_append _ _

end FieldExtract.Text
