import FieldExtract.Proofs.FirstSeen
import FieldExtract.Proofs.JsonRoundTrip
import FieldExtract.Proofs.KeyCodec

/-!
# Keys built from pairs

A key that is given selectors one after the other has the names in the order in which they first
occur, each with the selector that was given for it last. That decides the key, and so it does not
matter whether the pairs are selected one by one, collected, or read from an object of JSON; sent
as parts they give that key too, if each part is read as the pair it was written for.
-/

namespace FieldExtract.Key

/-- The pairs selected one after the other. -/
def selectAll (k : Key) (pairs : List (String × Selector)) : Key :=
  pairs.foldl (fun l p => l.select p.1 p.2) k

/-- Each name once and where it first occurs, with the selector of its last occurrence. -/
structure Records (k : Key) (pairs : List (String × Selector)) : Prop where
  names : FirstSeen (k.pairs.map Prod.fst) (pairs.map Prod.fst)
  last : ∀ name, k.get? name = pairs.reverse.lookup name

/-- Every pair is read from the part that is written for it. -/
structure Spellable (pairs : List (String × Selector)) : Prop where
  names : ∀ p ∈ pairs, ',' ∉ p.1.toList ∧ '=' ∉ p.1.toList
  values : ∀ p ∈ pairs, ∀ v ∈ p.2.values, ',' ∉ v.toList ∧ '/' ∉ v.toList
  several : ∀ p ∈ pairs, p.2.isMulti = true → 2 ≤ p.2.values.length

variable {k l : Key} {pairs : List (String × Selector)}

theorem records_empty : empty.Records [] :=
  ⟨firstSeen_self List.nodup_nil, fun _ => rfl⟩

theorem Records.select (h : k.Records pairs) (p : String × Selector) :
    (k.select p.1 p.2).Records (pairs ++ [p]) where
  names := by
    rw [List.map_append]
    exact OrderedMap.firstSeen_insert h.names p.1 p.2
  last name := by
    -- The new pair is the first from the end, so it is found before what was given so far.
    rw [List.reverse_append, List.reverse_singleton, List.singleton_append,
      OrderedMap.lookup_cons_eq_ite, ← h.last]
    exact OrderedMap.get?_insert k.selectors p.1 name p.2

/-- By induction on the pairs to come, after any that the key records. -/
theorem Records.selectAll (h : k.Records pairs) (more : List (String × Selector)) :
    (k.selectAll more).Records (pairs ++ more) := by
  induction more generalizing k pairs with
  | nil => rwa [List.append_nil]
  | cons p more ih =>
    have hRest := ih (h.select p)
    rwa [List.append_assoc] at hRest

/-- The pairs leave no choice of names, of their order or of what is selected. -/
theorem Records.eq (h : k.Records pairs) (hOther : l.Records pairs) : k = l := by
  have hSelectors : k.selectors = l.selectors :=
    OrderedMap.ext_get? (h.names.eq hOther.names) fun name =>
      (h.last name).trans (hOther.last name).symm
  cases k
  cases l
  exact congrArg Key.mk hSelectors

theorem records_selectAll (pairs : List (String × Selector)) :
    (empty.selectAll pairs).Records pairs :=
  records_empty.selectAll pairs

theorem selectAll_eq (k : Key) (pairs : List (String × Selector)) :
    k.selectAll pairs = ⟨k.selectors.insertMany pairs⟩ := by
  induction pairs generalizing k with
  | nil => rfl
  | cons p rest ih => exact ih (k.select p.1 p.2)

theorem ofList_eq_selectAll (pairs : List (String × Selector)) :
    ofList pairs = empty.selectAll pairs :=
  (selectAll_eq empty pairs).symm

theorem Spellable.reread_eq (h : Spellable pairs) {p : String × Selector} (hp : p ∈ pairs) :
    p.2.reread = p.2 := by
  obtain ⟨name, s⟩ := p
  have hSeveral := h.several (name, s) hp
  match s with
  | .single _ => rfl
  | .multi (_ :: _ :: _) => rfl
  | .multi [] => exact absurd (hSeveral rfl) (Nat.not_succ_le_zero 1)
  | .multi [_] => exact absurd (hSeveral rfl) (Nat.not_succ_le_self 1)

theorem Spellable.parse_parts (h : Spellable pairs) :
    parse (",".intercalate (pairs.map fun p => partText (p.1, p.2.text))) = .ok (ofList pairs) := by
  have hReread : (pairs.map fun p => (p.1, p.2.reread)) = pairs :=
    (List.map_congr_left fun _ hp => congrArg (Prod.mk _) (h.reread_eq hp)).trans pairs.map_id
  rw [Key.parse_parts h.names h.values, hReread]

/-- Names that are repeated make no difference between the ways to build a key. -/
theorem built_alike (pairs : List (String × Selector)) :
    ∃ k : Key, (∀ l : Key, l.Records pairs ↔ l = k) ∧
      empty.selectAll pairs = k ∧
      ofList pairs = k ∧
      ofJson? (String.ofList (Json.object (pairs.map fun p => (p.1, p.2.json)))) = some k ∧
      (∀ text, Json.readWhole (Json.enclosed '\x7b' '\x7d' (Json.member Selector.reader)) text =
        some pairs → ofJson? text = some k) ∧
      (Spellable pairs →
        parse (",".intercalate (pairs.map fun p => partText (p.1, p.2.text))) = .ok k) := by
  have hRecords := records_selectAll pairs
  have hSelected := ofList_eq_selectAll pairs
  have hRead : ∀ text, Json.readWhole (Json.enclosed '\x7b' '\x7d' (Json.member Selector.reader))
      text = some pairs → ofJson? text = some (ofList pairs) := fun text hMembers => by
    rw [ofJson?, hMembers, Option.map_some]
  refine ⟨ofList pairs, fun l => ⟨fun h => ?_, ?_⟩, hSelected.symm, rfl,
    hRead _ (readWhole_object pairs), hRead, fun h => h.parse_parts⟩
  · exact (h.eq hRecords).trans hSelected.symm
  · rintro rfl
    exact hSelected ▸ hRecords

/-- Two names in turn, each of them first with one value and then with the other form. -/
theorem built_alike_of_names_in_turn :
    let pairs : List (String × Selector) :=
      [("step", .single "1"), ("param", .multi ["167", "130"]), ("step", .multi ["2", "3"]),
        ("param", .single "165")]
    let k := ofList [("step", .multi ["2", "3"]), ("param", .single "165")]
    Spellable pairs ∧ k.Records pairs ∧ empty.selectAll pairs = k ∧
      ofJson? (String.ofList (Json.object (pairs.map fun p => (p.1, p.2.json)))) = some k ∧
      parse "step=1,param=167/130,step=2/3,param=165" = .ok k := by
  intro pairs k
  have hSpellable : Spellable pairs := ⟨by decide, by decide, by decide⟩
  obtain ⟨built, hOnly, hSelected, hCollected, -, hRead, hParsed⟩ := built_alike pairs
  have hBuilt : built = k := hCollected.symm.trans (by decide)
  subst hBuilt
  exact ⟨hSpellable, (hOnly _).mpr rfl, hSelected, hRead _ (readWhole_object pairs),
    hParsed hSpellable⟩

end FieldExtract.Key
