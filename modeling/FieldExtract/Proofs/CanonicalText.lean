import FieldExtract.Proofs.KeyRoundTrip
import FieldExtract.Proofs.MapLookup
import Mathlib.Data.List.Sort
import Mathlib.Data.Prod.Lex
import Mathlib.Data.String.Basic

/-!
# Canonical texts

The canonical text of a key is its parts in order, joined. Where no comma and no early equals sign
spoils the cut, the parts can be had back from the text, so two keys of single values have one
canonical text just if they are the same up to the order of their selectors.
-/

namespace FieldExtract.Key

/-- A text of parts can be cut into its parts, and a part into name and value. -/
structure Cuttable (k : Key) : Prop where
  names : ∀ p ∈ k.pairs, ',' ∉ p.1.toList ∧ '=' ∉ p.1.toList
  values : ∀ p ∈ k.pairs, ∀ v ∈ p.2.values, ',' ∉ v.toList

instance (k : Key) : Decidable k.Cuttable :=
  decidable_of_iff
    ((∀ p ∈ k.pairs, ',' ∉ p.1.toList ∧ '=' ∉ p.1.toList) ∧
      ∀ p ∈ k.pairs, ∀ v ∈ p.2.values, ',' ∉ v.toList)
    ⟨fun h => ⟨h.1, h.2⟩, fun h => ⟨h.names, h.values⟩⟩

theorem partLe_iff {a b : String × String} : partLe a b = true ↔ toLex a ≤ toLex b := by
  rw [Prod.Lex.toLex_le_toLex]
  simp only [partLe, Bool.or_eq_true, Bool.and_eq_true, decide_eq_true_eq, beq_iff_eq]

theorem mergeSort_partLe_of_perm {xs ys : List (String × String)} (h : xs.Perm ys) :
    xs.mergeSort partLe = ys.mergeSort partLe := by
  have hTrans : ∀ a b c, partLe a b = true → partLe b c = true → partLe a c = true := by
    simp only [partLe_iff]
    intro a b c
    exact le_trans
  have hTotal : ∀ a b, (partLe a b || partLe b a) = true := by
    simp only [Bool.or_eq_true, partLe_iff]
    intro a b
    exact le_total _ _
  have hAntisymm : ∀ a b, partLe a b = true → partLe b a = true → a = b := by
    simp only [partLe_iff]
    intro a b hab hba
    exact toLex.injective (le_antisymm hab hba)
  have hPerm : (xs.mergeSort partLe).Perm (ys.mergeSort partLe) :=
    (List.mergeSort_perm xs partLe).trans (h.trans (List.mergeSort_perm ys partLe).symm)
  exact hPerm.eq_of_pairwise (fun a b _ _ => hAntisymm a b)
    (List.pairwise_mergeSort hTrans hTotal xs) (List.pairwise_mergeSort hTrans hTotal ys)

/-- Names with the texts of their selectors. -/
def texts (k : Key) : List (String × String) := k.pairs.map fun p => (p.1, p.2.text)

theorem partText_injOn {p q : String × String} (hp : '=' ∉ p.1.toList) (hq : '=' ∉ q.1.toList)
    (h : partText p = partText q) : p = q := by
  have hCut : Text.cutFirst '=' (partText p) = some (p.1, p.2) :=
    Text.cutFirst_eq_some_iff.mpr ⟨by simp [partText], hp⟩
  have hCut' : Text.cutFirst '=' (partText q) = some (q.1, q.2) :=
    Text.cutFirst_eq_some_iff.mpr ⟨by simp [partText], hq⟩
  rw [h] at hCut
  exact Option.some.inj (hCut.symm.trans hCut')

theorem map_partText_injOn {xs ys : List (String × String)} (hx : ∀ p ∈ xs, '=' ∉ p.1.toList)
    (hy : ∀ p ∈ ys, '=' ∉ p.1.toList) (h : xs.map partText = ys.map partText) : xs = ys := by
  induction xs generalizing ys with
  | nil => exact (List.map_eq_nil_iff.mp h.symm).symm
  | cons p xs ih =>
    cases ys with
    | nil => cases h
    | cons q ys =>
      obtain ⟨hHead, hTail⟩ := List.cons.inj h
      obtain ⟨hp, hxs⟩ := List.forall_mem_cons.mp hx
      obtain ⟨hq, hys⟩ := List.forall_mem_cons.mp hy
      rw [partText_injOn hp hq hHead, ih hxs hys hTail]

/-- The parts in order, read back from the canonical text. -/
theorem cut_canonical {k : Key} (h : k.Cuttable) :
    ((Text.cut ',' k.canonical).filter fun part => !part.isEmpty) =
      (k.texts.mergeSort partLe).map partText := by
  apply Text.filter_cut_intercalate
  · intro part hPart
    obtain ⟨p, hp, rfl⟩ := List.mem_map.mp hPart
    obtain ⟨q, hq, rfl⟩ := List.mem_map.mp (List.mem_mergeSort.mp hp)
    exact comma_not_mem_partText (h.names q hq).1 (h.values q hq)
  · intro part hPart
    obtain ⟨p, _, rfl⟩ := List.mem_map.mp hPart
    exact partText_ne_empty p

theorem Cuttable.equals_not_mem {k : Key} (h : k.Cuttable) :
    ∀ p ∈ k.texts.mergeSort partLe, '=' ∉ p.1.toList := by
  intro p hp
  obtain ⟨q, hq, rfl⟩ := List.mem_map.mp (List.mem_mergeSort.mp hp)
  exact (h.names q hq).2

theorem canonical_eq_iff_perm {k l : Key} (hk : k.Cuttable) (hl : l.Cuttable) :
    k.canonical = l.canonical ↔ k.texts.Perm l.texts := by
  constructor
  · intro hText
    have hParts := (cut_canonical hk).symm.trans (hText ▸ cut_canonical hl)
    have hSorted := map_partText_injOn hk.equals_not_mem hl.equals_not_mem hParts
    exact (List.mergeSort_perm k.texts partLe).symm.trans
      (hSorted ▸ List.mergeSort_perm l.texts partLe)
  · intro hPerm
    exact congrArg (fun ps => ",".intercalate (ps.map partText)) (mergeSort_partLe_of_perm hPerm)

/-- Selectors of one value each. -/
def Single (k : Key) : Prop := k.isMultiValued = false

instance (k : Key) : Decidable k.Single := inferInstanceAs (Decidable (_ = false))

theorem Single.exists_value {k : Key} (h : k.Single) :
    ∀ p ∈ k.pairs, ∃ v, p.2 = .single v := by
  intro p hp
  have hSingle : p.2.isMulti = false := by
    have hNone := List.any_eq_false.mp h p hp
    simpa using hNone
  cases hSelector : p.2 with
  | single v => exact ⟨v, rfl⟩
  | multi vs => rw [hSelector] at hSingle; cases hSingle

theorem single_iff {k : Key} : k.Single ↔ ∀ p ∈ k.pairs, ∃ v, p.2 = .single v := by
  refine ⟨Single.exists_value, fun h => List.any_eq_false.mpr fun p hp => ?_⟩
  obtain ⟨v, hv⟩ := h p hp
  rw [hv]
  exact Bool.false_ne_true

/-- Single values are their own texts, so the texts of a key of single values are its selectors. -/
theorem pairs_of_texts {k : Key} (h : k.Single) :
    (k.texts.map fun p => (p.1, Selector.single p.2)) = k.pairs := by
  calc
    (k.texts.map fun p => (p.1, Selector.single p.2)) = k.pairs.map id := by
      rw [texts, List.map_map]
      apply List.map_congr_left
      intro p hp
      obtain ⟨v, hv⟩ := h.exists_value p hp
      obtain ⟨name, selector⟩ := p
      cases hv
      simp only [id_eq, Function.comp_apply, Selector.text, Selector.values,
        String.intercalate_singleton]
    _ = k.pairs := List.map_id _

theorem canonical_eq_iff_same {k l : Key} (hk : k.Cuttable) (hl : l.Cuttable) (hkSingle : k.Single)
    (hlSingle : l.Single) : k.canonical = l.canonical ↔ k.same l = true := by
  rw [canonical_eq_iff_perm hk hl, same, OrderedMap.same_iff_perm]
  constructor
  · intro hPerm
    change k.pairs.Perm l.pairs
    rw [← pairs_of_texts hkSingle, ← pairs_of_texts hlSingle]
    exact hPerm.map _
  · intro hPerm
    exact hPerm.map _

end FieldExtract.Key
