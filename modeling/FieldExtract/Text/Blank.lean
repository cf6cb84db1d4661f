/-!
# Blank characters

The characters that the Unicode standard marks `White_Space`, and what is left of a text when
they are taken off both ends.
-/

namespace FieldExtract.Text

def blankRanges : List (Nat × Nat) :=
  [(0x0009, 0x000d), (0x0020, 0x0020), (0x0085, 0x0085), (0x00a0, 0x00a0), (0x1680, 0x1680),
    (0x2000, 0x200a), (0x2028, 0x2029), (0x202f, 0x202f), (0x205f, 0x205f), (0x3000, 0x3000)]

def isBlank (c : Char) : Bool :=
  blankRanges.any fun r => decide (r.1 ≤ c.toNat) && decide (c.toNat ≤ r.2)

def trimChars (s : List Char) : List Char :=
  ((s.dropWhile isBlank).reverse.dropWhile isBlank).reverse

def trim (s : String) : String :=
  String.ofList (trimChars s.toList)

theorem dropWhile_isBlank_spec (s : List Char) :
    ∃ before, s = before ++ s.dropWhile isBlank ∧ (∀ c ∈ before, isBlank c = true) ∧
      ∀ c ∈ (s.dropWhile isBlank).head?, isBlank c = false := by
  refine ⟨s.takeWhile isBlank, List.takeWhile_append_dropWhile.symm,
    List.all_eq_true.mp List.all_takeWhile, fun c hc => ?_⟩
  have hHead := List.head?_dropWhile_not isBlank s
  rwa [Option.mem_def.mp hc] at hHead

/-- Only blanks are taken off, and none is left at either end. -/
theorem trim_spec (s : String) :
    ∃ before after, s.toList = before ++ (trim s).toList ++ after ∧
      (∀ c ∈ before ++ after, isBlank c = true) ∧
      (∀ c ∈ (trim s).toList.head?, isBlank c = false) ∧
      ∀ c ∈ (trim s).toList.getLast?, isBlank c = false := by
  obtain ⟨before, hStart, hBefore, hHead⟩ := dropWhile_isBlank_spec s.toList
  obtain ⟨after, hEnd, hAfter, hLast⟩ :=
    dropWhile_isBlank_spec (s.toList.dropWhile isBlank).reverse
  have hKept : s.toList.dropWhile isBlank = trimChars s.toList ++ after.reverse := by
    rw [trimChars, ← List.reverse_append, ← hEnd, List.reverse_reverse]
  rw [trim, String.toList_ofList]
  refine ⟨before, after.reverse, ?_, ?_, fun c hc => hHead c ?_, fun c hc => hLast c ?_⟩
  · rw [List.append_assoc, ← hKept]
    exact hStart
  · intro c hc
    rcases List.mem_append.mp hc with hc | hc
    · exact hBefore c hc
    · exact hAfter c (List.mem_reverse.mp hc)
  · rw [hKept, List.head?_append, Option.mem_def.mp hc]
    rfl
  · rwa [trimChars, List.getLast?_reverse] at hc

theorem trim_eq_self {s : String} (h : ∀ c ∈ s.toList, isBlank c = false) : trim s = s := by
  obtain ⟨before, after, hText, hBlank, _, _⟩ := trim_spec s
  have hNone : before ++ after = [] := by
    apply List.eq_nil_iff_forall_not_mem.mpr
    intro c hc
    have hMem : c ∈ s.toList := by
      rw [hText]
      rcases List.mem_append.mp hc with hc | hc
      · exact List.mem_append_left _ (List.mem_append_left _ hc)
      · exact List.mem_append_right _ hc
    exact Bool.false_ne_true ((h c hMem).symm.trans (hBlank c hc))
  obtain ⟨rfl, rfl⟩ := List.append_eq_nil_iff.mp hNone
  rw [List.nil_append, List.append_nil] at hText
  exact (String.toList_inj.mp hText).symm

/-- Nothing is left of a text that is empty or blank throughout, and of no other text. -/
theorem isEmpty_trim_iff {s : String} :
    (trim s).isEmpty = true ↔ ∀ c ∈ s.toList, isBlank c = true := by
  obtain ⟨before, after, hText, hBlank, hHead, _⟩ := trim_spec s
  rw [String.isEmpty_iff, ← String.toList_eq_nil_iff]
  constructor
  · intro hNone c hc
    rw [hText, hNone, List.append_nil] at hc
    exact hBlank c hc
  · intro hAll
    cases hTrimmed : (trim s).toList with
    | nil => rfl
    | cons c cs =>
      have hMem : c ∈ s.toList := by
        rw [hText, hTrimmed]
        exact List.mem_append_left _ (List.mem_append_right _ List.mem_cons_self)
      have hFirst : isBlank c = false := hHead c (by rw [hTrimmed]; rfl)
      exact absurd (hFirst.symm.trans (hAll c hMem)) Bool.false_ne_true

example : trim "\t a b\u3000\n" = "a b" := by decide

end FieldExtract.Text
