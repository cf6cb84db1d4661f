import FieldExtract.Proofs.KeyCodec

/-!
# Keys to text and back

A sent key is always read, and what is read stands for the same fields unless some selector has no
values: such a selector stands for no field at all, and what is read in its place for one. The
other way round, every text made of named parts with different names is the text of the key that
is read from it.
-/

namespace FieldExtract

/-- A list of one value is no different from that value on the wire. -/
def Selector.collapse : Selector → Selector
  | .multi [v] => .single v
  | s => s

theorem Selector.values_ne_nil_iff {s : Selector} : s.values ≠ [] ↔ s ≠ .multi [] := by
  cases s with
  | single v => simp [values]
  | multi vs => simp [values]

theorem Selector.reread_eq_collapse {s : Selector} (h : s ≠ .multi []) : s.reread = s.collapse := by
  cases s with
  | single v => rfl
  | multi vs =>
    cases vs with
    | nil => exact absurd rfl h
    | cons v rest => cases rest <;> rfl

theorem Selector.values_reread_ne_nil (s : Selector) : s.reread.values ≠ [] := by
  unfold reread
  split <;> exact List.cons_ne_nil _ _

namespace Key

def collapse (k : Key) : Key := ⟨k.selectors.mapValues Selector.collapse⟩

theorem reread_eq_collapse {k : Key} (h : ∀ p ∈ k.pairs, p.2 ≠ .multi []) :
    k.reread = k.collapse := by
  have hEntries : k.reread.selectors.entries = k.collapse.selectors.entries :=
    List.map_congr_left fun p hp => by rw [Selector.reread_eq_collapse (h p hp)]
  exact congrArg Key.mk (OrderedMap.ext hEntries)

theorem choices_eq_nil {pairs : List (String × Selector)} (h : ∃ p ∈ pairs, p.2 = .multi []) :
    choices pairs = [] := by
  induction pairs with
  | nil =>
    obtain ⟨p, hp, _⟩ := h
    cases hp
  | cons p rest ih =>
    obtain ⟨q, hq, hNone⟩ := h
    rcases List.mem_cons.mp hq with rfl | hq
    · rw [choices, hNone]
      rfl
    · have hTails : choices rest = [] := ih ⟨q, hq, hNone⟩
      rw [choices, hTails]
      exact List.flatMap_eq_nil_iff.mpr fun _ _ => rfl

theorem expand_reread_iff {k : Key} :
    k.reread.expand = k.expand ↔ ∀ p ∈ k.pairs, p.2 ≠ .multi [] := by
  constructor
  · intro hExpand p hp hNone
    have hGone : k.expand = [] := by rw [expand, choices_eq_nil ⟨p, hp, hNone⟩, List.map_nil]
    refine expand_ne_nil (k := k.reread) ?_ (hExpand.trans hGone)
    intro q hq
    obtain ⟨e, _, rfl⟩ := List.mem_map.mp hq
    exact e.2.values_reread_ne_nil
  · intro h
    exact expand_reread fun p hp => Selector.values_ne_nil_iff.mpr (h p hp)

/-- What stands before the first equals sign of a part. -/
def partName (part : String) : String := String.ofList (part.toList.takeWhile fun c => c != '=')

theorem partName_partText {p : String × String} (h : '=' ∉ p.1.toList) :
    partName (partText p) = p.1 := by
  have hName : ∀ c ∈ p.1.toList, (c != '=') = true := by
    intro c hc
    rw [bne_iff_ne]
    rintro rfl
    exact h hc
  have hPart : (partText p).toList = p.1.toList ++ '=' :: p.2.toList := by simp [partText]
  rw [partName, hPart, List.takeWhile_append_of_pos hName, List.takeWhile_cons_of_neg (by simp),
    List.append_nil, String.ofList_toList]

theorem eq_partText_of_mem {part : String} (h : '=' ∈ part.toList) :
    ∃ p : String × String, part = partText p ∧ '=' ∉ p.1.toList := by
  obtain ⟨name, value, hPart, hName⟩ := List.eq_append_cons_of_mem h
  refine ⟨(String.ofList name, String.ofList value), ?_, by simpa using hName⟩
  rw [← String.toList_inj, hPart]
  simp [partText]

theorem exists_partTexts {parts : List String} (h : ∀ part ∈ parts, '=' ∈ part.toList) :
    ∃ pairs : List (String × String), parts = pairs.map partText ∧
      ∀ p ∈ pairs, '=' ∉ p.1.toList := by
  induction parts with
  | nil => exact ⟨[], rfl, fun p hp => absurd hp List.not_mem_nil⟩
  | cons part rest ih =>
    obtain ⟨p, rfl, hp⟩ := eq_partText_of_mem (h part List.mem_cons_self)
    obtain ⟨pairs, rfl, hPairs⟩ := ih fun q hq => h q (List.mem_cons_of_mem _ hq)
    exact ⟨p :: pairs, rfl, List.forall_mem_cons.mpr ⟨hp, hPairs⟩⟩

theorem text_readSelector (value : String) : (readSelector value).text = value := by
  unfold readSelector
  split
  · exact Text.intercalate_cut '/' value
  · rw [Selector.text, Selector.values, String.intercalate_singleton]

theorem ofList_pairs {pairs : List (String × Selector)} (h : (pairs.map Prod.fst).Nodup) :
    (ofList pairs).pairs = pairs := by
  have hEntries := OrderedMap.insertMany_of_distinct OrderedMap.empty pairs h
  rwa [OrderedMap.empty, List.nil_append] at hEntries

/-- Reading keeps all of a text whose parts have different names. -/
theorem serialize_of_parts {s : String} (hParts : ∀ part ∈ Text.cut ',' s, '=' ∈ part.toList)
    (hNames : ((Text.cut ',' s).map partName).Nodup) :
    ∃ k, parse s = .ok k ∧ k.serialize = s := by
  obtain ⟨pairs, hCut, hPairs⟩ := exists_partTexts hParts
  have hFilter : ((Text.cut ',' s).filter fun part => !part.isEmpty) = pairs.map partText := by
    rw [hCut, List.filter_eq_self]
    intro part hPart
    obtain ⟨p, _, rfl⟩ := List.mem_map.mp hPart
    simpa using partText_ne_empty p
  have hRead : (pairs.map partText).mapM readPart =
      .ok (pairs.map fun p => (p.1, readSelector p.2)) := by
    rw [List.mapM_map]
    exact mapM_of_ok fun p hp => readPart_partText (hPairs p hp)
  have hDistinct : ((pairs.map fun p => (p.1, readSelector p.2)).map Prod.fst).Nodup := by
    rw [hCut, List.map_map] at hNames
    rw [List.map_map]
    have hSame : pairs.map (partName ∘ partText) = pairs.map Prod.fst :=
      List.map_congr_left fun p hp => partName_partText (hPairs p hp)
    exact hSame ▸ hNames
  have hTexts : (pairs.map fun p => (p.1, readSelector p.2)).map
      (fun p => partText (p.1, p.2.text)) = pairs.map partText := by
    rw [List.map_map]
    exact List.map_congr_left fun p _ => by rw [Function.comp_apply, text_readSelector]
  refine ⟨ofList (pairs.map fun p => (p.1, readSelector p.2)), ?_, ?_⟩
  · rw [parse, hFilter, hRead]
    rfl
  · rw [serialize, ofList_pairs hDistinct, hTexts, ← hCut]
    exact Text.intercalate_cut ',' s

/-- Keys whose text can be cut where it was joined, and texts that name each selector once. -/
theorem wire_round_trip :
    (∀ k : Key, k.Separable →
      ∃ parsed, parse k.serialize = .ok parsed ∧
        (parsed.expand = k.expand ↔ ∀ p ∈ k.pairs, p.2 ≠ .multi []) ∧
        ((∀ p ∈ k.pairs, p.2 ≠ .multi []) → parsed = k.collapse)) ∧
    ∀ s : String, (∀ part ∈ Text.cut ',' s, '=' ∈ part.toList) →
      ((Text.cut ',' s).map partName).Nodup → ∃ k, parse s = .ok k ∧ k.serialize = s := by
  constructor
  · intro k hKey
    exact ⟨k.reread, parse_serialize hKey, expand_reread_iff, reread_eq_collapse⟩
  · intro s hParts hNames
    exact serialize_of_parts hParts hNames

/-- An empty name, an equals sign in a value, lists of one value and of none. -/
theorem wire_round_trip_of_edges :
    let k := Key.ofList [("", .single "a=b"), ("step", .multi ["0", ""]), ("type", .multi ["an"])]
    let gone := k.select "type" (.multi [])
    k.Separable ∧ gone.Separable ∧
      (∃ parsed, parse k.serialize = .ok parsed ∧ parsed.expand = k.expand ∧
        parsed = k.select "type" (.single "an")) ∧
      (∃ parsed, parse gone.serialize = .ok parsed ∧ parsed.expand ≠ gone.expand) ∧
      ∃ parsed, parse "b=,a=0/6=x" = .ok parsed ∧ parsed.serialize = "b=,a=0/6=x" := by
  intro k gone
  have hKey : k.Separable := ⟨by decide, by decide⟩
  have hGone : gone.Separable := ⟨by decide, by decide⟩
  have hFilled : ∀ p ∈ k.pairs, p.2 ≠ .multi [] := by decide
  refine ⟨hKey, hGone, ?_, ?_, ?_⟩
  · obtain ⟨parsed, hParse, hExpand, hSame⟩ := wire_round_trip.1 k hKey
    exact ⟨parsed, hParse, hExpand.mpr hFilled, (hSame hFilled).trans rfl⟩
  · obtain ⟨parsed, hParse, hExpand, _⟩ := wire_round_trip.1 gone hGone
    exact ⟨parsed, hParse, fun h => hExpand.mp h ("type", .multi []) (by decide) rfl⟩
  · exact wire_round_trip.2 "b=,a=0/6=x" (by decide) (by decide)

end Key

end FieldExtract
