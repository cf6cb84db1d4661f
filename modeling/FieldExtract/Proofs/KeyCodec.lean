import FieldExtract.Key.Wire
import FieldExtract.Proofs.Traversal

/-!
# What reading makes of a sent key

Nothing is escaped on the wire, so a key survives only if no separator stands in its names and
values. Then reading gives the same names in the same order; a selector of several values that
holds just one comes back as that value alone, which stands for the same fields.
-/

namespace FieldExtract

/-- The selector that is read from the text of a selector. -/
def Selector.reread (s : Selector) : Selector :=
  match s.values with
  | [] => .single ""
  | [v] => .single v
  | v :: w :: rest => .multi (v :: w :: rest)

theorem Selector.values_reread {s : Selector} (h : s.values ≠ []) : s.reread.values = s.values := by
  unfold reread
  split
  · next hValues => exact absurd hValues h
  · next v hValues => rw [hValues]; rfl
  · next v w rest hValues => rw [hValues]; rfl

namespace Key

/-- No separator of the wire form stands where reading would take it for one. -/
structure Separable (k : Key) : Prop where
  names : ∀ p ∈ k.pairs, ',' ∉ p.1.toList ∧ '=' ∉ p.1.toList
  values : ∀ p ∈ k.pairs, ∀ v ∈ p.2.values, ',' ∉ v.toList ∧ '/' ∉ v.toList

def reread (k : Key) : Key := ⟨k.selectors.mapValues Selector.reread⟩

theorem readSelector_text {s : Selector} (h : ∀ v ∈ s.values, '/' ∉ v.toList) :
    readSelector s.text = s.reread := by
  have hCut : s.values ≠ [] → Text.cut '/' s.text = s.values :=
    fun hValues => Text.cut_intercalate hValues h
  unfold Selector.reread
  split
  · next hValues =>
    have hText : s.text = "" := by rw [Selector.text, hValues]; rfl
    rw [hText]
    rfl
  · next v hValues =>
    have hText : s.text = v := by rw [Selector.text, hValues, String.intercalate_singleton]
    have hSlash : '/' ∉ v.toList := h v (by rw [hValues]; exact List.mem_cons_self)
    rw [hText, readSelector, if_neg hSlash]
  · next v w rest hValues =>
    have hSlash : '/' ∈ s.text.toList := by
      rw [Selector.text, hValues, String.toList_intercalate, List.map_cons, List.map_cons,
        List.intercalate_cons_cons]
      simp
    rw [readSelector, if_pos hSlash, hCut (by rw [hValues]; exact List.cons_ne_nil _ _), hValues]

theorem readPart_partText {name value : String} (h : '=' ∉ name.toList) :
    readPart (partText (name, value)) = .ok (name, readSelector value) := by
  have hCut : Text.cutFirst '=' (partText (name, value)) = some (name, value) := by
    rw [Text.cutFirst_eq_some_iff]
    refine ⟨?_, h⟩
    simp [partText]
  rw [readPart, hCut]

theorem comma_not_mem_partText {p : String × Selector} (hName : ',' ∉ p.1.toList)
    (hValues : ∀ v ∈ p.2.values, ',' ∉ v.toList) :
    ',' ∉ (partText (p.1, p.2.text)).toList := by
  have hText : ',' ∉ p.2.text.toList := Text.not_mem_intercalate (by decide) hValues
  simp [partText, hName, hText]

theorem partText_ne_empty (p : String × String) : partText p ≠ "" := by
  intro h
  have hList := congrArg String.toList h
  simp [partText] at hList

theorem parse_parts {pairs : List (String × Selector)}
    (hNames : ∀ p ∈ pairs, ',' ∉ p.1.toList ∧ '=' ∉ p.1.toList)
    (hValues : ∀ p ∈ pairs, ∀ v ∈ p.2.values, ',' ∉ v.toList ∧ '/' ∉ v.toList) :
    parse (",".intercalate (pairs.map fun p => partText (p.1, p.2.text))) =
      .ok (ofList (pairs.map fun p => (p.1, p.2.reread))) := by
  let parts := pairs.map fun p => partText (p.1, p.2.text)
  have hParts : ((Text.cut ',' (",".intercalate parts)).filter fun part => !part.isEmpty) =
      parts := by
    apply Text.filter_cut_intercalate
    · intro part hPart
      obtain ⟨p, hp, rfl⟩ := List.mem_map.mp hPart
      exact comma_not_mem_partText (hNames p hp).1 fun v hv => (hValues p hp v hv).1
    · intro part hPart
      obtain ⟨p, _, rfl⟩ := List.mem_map.mp hPart
      exact partText_ne_empty _
  have hRead : parts.mapM readPart = .ok (pairs.map fun p => (p.1, p.2.reread)) := by
    rw [List.mapM_map]
    apply mapM_of_ok
    intro p hp
    rw [Function.comp_apply, readPart_partText (hNames p hp).2,
      readSelector_text fun v hv => (hValues p hp v hv).2]
  rw [parse, hParts, hRead]
  rfl

/-- A selector without values does not come back: its text is that of an empty value. -/
theorem parse_serialize {k : Key} (h : k.Separable) : parse k.serialize = .ok k.reread := by
  have hBack : ofList (k.pairs.map fun p => (p.1, p.2.reread)) = k.reread :=
    congrArg Key.mk (OrderedMap.ofList_entries k.reread.selectors)
  rw [serialize, parse_parts h.names h.values, hBack]

theorem choices_congr {f : Selector → Selector} {pairs : List (String × Selector)}
    (h : ∀ p ∈ pairs, (f p.2).values = p.2.values) :
    choices (pairs.map fun p => (p.1, f p.2)) = choices pairs := by
  induction pairs with
  | nil => rfl
  | cons p rest ih =>
    rw [List.map_cons, choices, choices, h p List.mem_cons_self,
      ih fun q hq => h q (List.mem_cons_of_mem p hq)]

theorem expand_reread {k : Key} (h : ∀ p ∈ k.pairs, p.2.values ≠ []) :
    k.reread.expand = k.expand := by
  have hChoices : choices k.reread.pairs = choices k.pairs :=
    choices_congr fun p hp => Selector.values_reread (h p hp)
  rw [expand, hChoices, expand]

theorem choices_ne_nil {pairs : List (String × Selector)} (h : ∀ p ∈ pairs, p.2.values ≠ []) :
    choices pairs ≠ [] := by
  induction pairs with
  | nil => exact List.cons_ne_nil _ _
  | cons p rest ih =>
    obtain ⟨v, hv⟩ := List.exists_mem_of_ne_nil _ (h p List.mem_cons_self)
    obtain ⟨tail, hTail⟩ := List.exists_mem_of_ne_nil _
      (ih fun q hq => h q (List.mem_cons_of_mem p hq))
    apply List.ne_nil_of_mem (a := (p.1, .single v) :: tail)
    exact List.mem_flatMap.mpr ⟨v, hv, List.mem_map.mpr ⟨tail, hTail, rfl⟩⟩

theorem expand_ne_nil {k : Key} (h : ∀ p ∈ k.pairs, p.2.values ≠ []) : k.expand ≠ [] := by
  rw [expand, Ne, List.map_eq_nil_iff]
  exact choices_ne_nil h

end Key

end FieldExtract
