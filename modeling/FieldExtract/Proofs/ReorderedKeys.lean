import FieldExtract.Proofs.KeyExpansion
import Mathlib.Data.Multiset.Bind

/-!
# Keys that differ in order alone

Reordering the selectors of a key reorders its expansion, and each key of it, in a way that depends
on all cardinalities. With the order forgotten, of the choices and within each, what is left does
not depend on it: a product over the selectors in which any two of them can be exchanged. So keys
that are the same stand for the same keys equally often, and for the same canonical texts.
-/

namespace FieldExtract.Key

variable {k l a b : Key} {pairs others : List (String × Selector)} {ks ls : List Key}

/-- The choices, without the order in which they are made or made up. -/
def contents (pairs : List (String × Selector)) : Multiset (Multiset (String × Selector)) :=
  Multiset.ofList ((choices pairs).map Multiset.ofList)

theorem contents_cons (p : String × Selector) (rest : List (String × Selector)) :
    contents (p :: rest) =
      (Multiset.ofList p.2.values).bind fun v => (contents rest).map ((p.1, .single v) ::ₘ ·) := by
  have hRow : ∀ v : String, (contents rest).map ((p.1, Selector.single v) ::ₘ ·) =
      Multiset.ofList (((choices rest).map ((p.1, .single v) :: ·)).map Multiset.ofList) := by
    intro v
    rw [contents, Multiset.map_coe, List.map_map, List.map_map]
    rfl
  simp only [hRow]
  rw [Multiset.coe_bind, ← List.map_flatMap]
  rfl

theorem contents_of_perm (h : pairs.Perm others) : contents pairs = contents others := by
  induction h with
  | nil => rfl
  | cons p _ ih => rw [contents_cons, contents_cons, ih]
  | swap p q rest =>
    simp only [contents_cons, Multiset.map_bind, Multiset.map_map, Function.comp_apply]
    rw [Multiset.bind_bind]
    simp only [Multiset.cons_swap]
  | trans _ _ ih ih' => exact ih.trans ih'

/-- The selectors without their order. -/
def content (k : Key) : Multiset (String × Selector) := k.pairs

theorem same_iff_content : k.same l = true ↔ k.content = l.content := by
  rw [same, OrderedMap.same_iff_perm, content, content, Multiset.coe_eq_coe]
  rfl

theorem content_expand (k : Key) : Multiset.ofList (k.expand.map content) = contents k.pairs := by
  rw [expand, List.map_map, contents]
  congr 1
  apply List.map_congr_left
  intro chosen hChosen
  rw [Function.comp_apply, content, pairs_ofList_of_mem hChosen]

theorem map_content_expand_perm (h : a.same b = true) :
    (a.expand.map content).Perm (b.expand.map content) := by
  have hPairs : a.pairs.Perm b.pairs := OrderedMap.same_iff_perm.mp h
  rw [← Multiset.coe_eq_coe, content_expand, content_expand, contents_of_perm hPairs]

/-- The second list, in some order, has the same keys as the first. -/
def SameKeys (ks ls : List Key) : Prop :=
  ∃ arranged, arranged.Perm ls ∧ List.Forall₂ (fun k l => k.same l = true) ks arranged

theorem sameKeys_of_content (h : (ks.map content).Perm (ls.map content)) : SameKeys ks ls := by
  have hEach : List.Forall₂ (fun c l => c = content l) (ls.map content) ls :=
    List.forall₂_map_left_iff.mpr (List.forall₂_same.mpr fun _ _ => rfl)
  obtain ⟨arranged, hContents, hPerm⟩ := List.perm_comp_forall₂ h hEach
  refine ⟨arranged, hPerm, ?_⟩
  exact (List.forall₂_map_left_iff.mp hContents).imp fun _ _ => same_iff_content.mpr

theorem canonical_of_same (h : k.same l = true) : k.canonical = l.canonical := by
  have hPairs : k.pairs.Perm l.pairs := OrderedMap.same_iff_perm.mp h
  have hTexts : k.texts.Perm l.texts := hPairs.map _
  exact congrArg (fun ps => ",".intercalate (ps.map partText)) (mergeSort_partLe_of_perm hTexts)

theorem SameKeys.canonical_perm (h : SameKeys ks ls) :
    (ks.map canonical).Perm (ls.map canonical) := by
  obtain ⟨arranged, hPerm, hSame⟩ := h
  have hTexts : ks.map canonical = arranged.map canonical := by
    rw [← List.forall₂_eq_eq_eq, List.forall₂_map_left_iff, List.forall₂_map_right_iff]
    exact hSame.imp fun _ _ => canonical_of_same
  rw [hTexts]
  exact hPerm.map _

theorem countP_same (k : Key) (ks : List Key) :
    ks.countP (fun one => one.same k) = (ks.map content).count k.content := by
  rw [List.count_eq_countP, List.countP_map]
  apply List.countP_congr
  intro one _
  rw [same_iff_content, Function.comp_apply, beq_iff_eq]

/-- Keys that are the same expand into the same keys, each as often in the one expansion as in the
other, and the fields are archived and looked up under the same texts. -/
theorem expand_of_same (h : a.same b = true) :
    SameKeys a.expand b.expand ∧
      (∀ k : Key, a.expand.countP (fun one => one.same k) =
        b.expand.countP fun one => one.same k) ∧
      (a.expand.map canonical).Perm (b.expand.map canonical) ∧
      a.canonical = b.canonical := by
  have hContents := map_content_expand_perm h
  have hSame := sameKeys_of_content hContents
  refine ⟨hSame, fun k => ?_, hSame.canonical_perm, canonical_of_same h⟩
  rw [countP_same, countP_same, hContents.count_eq]

/-- Two lists of values, one with a value written twice, in either order. -/
theorem expand_of_same_of_two_lists :
    let a := ofList [("step", .multi ["0", "6", "0"]), ("param", .multi ["t", "u"])]
    let b := ofList [("param", .multi ["t", "u"]), ("step", .multi ["0", "6", "0"])]
    let one := ofList [("param", .single "u"), ("step", .single "0")]
    a.same b = true ∧ a ≠ b ∧ SameKeys a.expand b.expand ∧
      a.expand.countP (fun k => k.same one) = 2 ∧
      (a.expand.map canonical).Perm (b.expand.map canonical) ∧ a.canonical = b.canonical := by
  intro a b one
  have hSame : a.same b = true := by decide +kernel
  obtain ⟨hKeys, hCounts, hTexts, hText⟩ := expand_of_same hSame
  have hTwice : b.expand.countP (fun k => k.same one) = 2 := by decide +kernel
  exact ⟨hSame, by decide, hKeys, (hCounts one).trans hTwice, hTexts, hText⟩

end FieldExtract.Key
