import FieldExtract.Proofs.Admission
import FieldExtract.Proofs.FoldedAxes

/-!
# Axes that can be reached

A field is reached from a key if, for every selector of the key, it carries one of its values. The
axes of a level are the names of that level and of the coarser ones, each with the values of the
reached fields in the order in which the archive has them. A finer level only adds names at the
end, and a narrower key only takes values away.
-/

namespace FieldExtract

namespace Key

/-- Sent as text, the key comes back standing for the same fields. -/
structure Sendable (k : Key) : Prop extends k.Separable where
  filled : ∀ p ∈ k.pairs, p.2.values ≠ []

/-- One selector more, or fewer values for one that has several. -/
inductive Narrower (k : Key) : Key → Prop
  | added (name : String) (selector : Selector) (hNew : k.get? name = none) :
    Narrower k (k.select name selector)
  | removed (name : String) (listed left : List String)
    (hListed : k.get? name = some (.multi listed)) (hSub : left.Sublist listed)
    (hLeft : left ≠ []) : Narrower k (k.select name (.multi left))

end Key

namespace Archive

def Carries (f : Field) (k : Key) : Prop :=
  ∀ p ∈ k.pairs, ∃ v ∈ p.2.values, f.selectors.get? p.1 = some v

instance (f : Field) (k : Key) : Decidable (Carries f k) :=
  inferInstanceAs (Decidable (∀ p ∈ k.pairs, ∃ v ∈ p.2.values, f.selectors.get? p.1 = some v))

/-- The fields that are reached from a key, in the order of the archive. -/
def carriers (a : Archive) (k : Key) : List Field := a.fields.values.filter fun f => Carries f k

variable {f : Field} {k narrowed : Key}

theorem matchesKey_iff : Field.matchesKey f k = true ↔ Carries f k := by
  rw [Field.matchesKey, List.all_eq_true]
  refine forall₂_congr fun p _ => ?_
  cases f.selectors.get? p.1 with
  | none => simp
  | some value => simp

theorem carries_iff_get? : Carries f k ↔
    ∀ name selector, k.get? name = some selector →
      ∃ v ∈ selector.values, f.selectors.get? name = some v := by
  constructor
  · intro h name selector hFound
    exact h (name, selector) (OrderedMap.get?_eq_some_iff.mp hFound)
  · rintro h ⟨name, selector⟩ hp
    exact h name selector (OrderedMap.get?_eq_some_iff.mpr hp)

theorem carries_reread (h : k.Sendable) : Carries f k.reread ↔ Carries f k := by
  have hPairs : k.reread.pairs = k.pairs.map fun p => (p.1, p.2.reread) := rfl
  rw [Carries, hPairs, List.forall_mem_map]
  refine forall₂_congr fun p hp => ?_
  rw [Selector.values_reread (h.filled p hp)]

/-- What the narrower key asks for under a name that both have, the wider one asks for as well. -/
theorem carries_of_narrower (h : k.Narrower narrowed) (hCarries : Carries f narrowed) :
    Carries f k := by
  rw [carries_iff_get?] at hCarries ⊢
  intro name selector hFound
  have hGet : ∀ changed chosen, (k.select changed chosen).get? name =
      if name = changed then some chosen else k.get? name :=
    fun changed chosen => OrderedMap.get?_insert k.selectors changed name chosen
  cases h with
  | added other added hNew =>
    apply hCarries
    rw [hGet, if_neg, hFound]
    rintro rfl
    cases hNew.symm.trans hFound
  | removed other listed left hListed hSub hLeft =>
    by_cases hName : name = other
    · subst hName
      cases hListed.symm.trans hFound
      obtain ⟨v, hv, hValue⟩ := hCarries name (.multi left) (by rw [hGet, if_pos rfl])
      exact ⟨v, hSub.subset hv, hValue⟩
    · exact hCarries name selector (by rw [hGet, if_neg hName, hFound])

theorem carriers_of_narrower (a : Archive) (h : k.Narrower narrowed) :
    a.carriers narrowed ⊆ a.carriers k := by
  intro f hf
  obtain ⟨hField, hCarries⟩ := List.mem_filter.mp hf
  refine List.mem_filter.mpr ⟨hField, ?_⟩
  rw [decide_eq_true_eq] at hCarries ⊢
  exact carries_of_narrower h hCarries

theorem filter_matchesKey (a : Archive) (h : k.Sendable) :
    (a.fields.values.filter fun f => Field.matchesKey f k.reread) = a.carriers k := by
  apply List.filter_congr
  intro f _
  rw [Bool.eq_iff_iff, matchesKey_iff, carries_reread h, decide_eq_true_eq]

theorem axisNames_prefix {low high : Nat} (h : low ≤ high) :
    (axisNames.take low).flatten <+: (axisNames.take high).flatten := by
  obtain ⟨rest, hRest⟩ := List.take_prefix_take_left h
  rw [← hRest, List.flatten_append]
  exact List.prefix_append _ _

theorem nodup_axisNames (level : Nat) : ((axisNames.take level).flatten).Nodup := by
  have hAll : (axisNames.take level ++ axisNames.drop level).flatten.Nodup := by
    rw [List.take_append_drop]
    decide
  rw [List.flatten_append] at hAll
  exact (List.nodup_append.mp hAll).1

variable {fields : List Field} {level : Nat}

theorem names_axisPairs : (axisPairs fields level).map Prod.fst = (axisNames.take level).flatten := by
  rw [axisPairs, List.map_map]
  exact List.map_id _

end Archive

namespace Axes

/-- The names of a level and the coarser ones, with what the fields have under each. -/
structure Reports (found : Axes) (level : Nat) (fields : List Field) : Prop where
  level_eq : found.level = level
  names_eq : found.names = (Archive.axisNames.take level).flatten
  values : ∀ name ∈ found.names, ∃ seen, found.get? name = some seen ∧
    FirstSeen seen (fields.map fun f => Archive.Field.valueOf f name)

/-- The same names, none with a value that the other axes lack. -/
structure Within (narrow wide : Axes) : Prop where
  names_eq : narrow.names = wide.names
  values : ∀ name seen, narrow.get? name = some seen →
    ∃ more, wide.get? name = some more ∧ seen ⊆ more

section

variable {fields others : List Field} {level : Nat}

theorem pairs_ofPairs_axisPairs :
    (ofPairs level (Archive.axisPairs fields level)).pairs = Archive.axisPairs fields level := by
  apply pairs_ofPairs
  · rw [Archive.names_axisPairs]
    exact Archive.nodup_axisNames level
  · intro p hp
    obtain ⟨name, _, rfl⟩ := List.mem_map.mp hp
    exact OrderedSet.distinct _

theorem reports_ofPairs :
    (ofPairs level (Archive.axisPairs fields level)).Reports level fields := by
  have hNames : (ofPairs level (Archive.axisPairs fields level)).names =
      (Archive.axisNames.take level).flatten := by
    rw [names_eq_map, pairs_ofPairs_axisPairs, Archive.names_axisPairs]
  refine ⟨rfl, hNames, ?_⟩
  intro name hName
  rw [hNames] at hName
  refine ⟨_, ?_, OrderedSet.firstSeen_ofList _⟩
  rw [get?_eq_some_iff, pairs_ofPairs_axisPairs]
  exact List.mem_map.mpr ⟨name, hName, rfl⟩

theorem Reports.within {narrow wide : Axes} (h : narrow.Reports level fields)
    (hWide : wide.Reports level others) (hFields : fields ⊆ others) : narrow.Within wide := by
  have hNames : narrow.names = wide.names := h.names_eq.trans hWide.names_eq.symm
  refine ⟨hNames, ?_⟩
  intro name seen hSeen
  have hName : name ∈ narrow.names := by
    rw [names_eq_map]
    exact List.mem_map.mpr ⟨(name, seen), get?_eq_some_iff.mp hSeen, rfl⟩
  obtain ⟨_, hFound, hFirst⟩ := h.values name hName
  obtain ⟨more, hMore, hWideFirst⟩ := hWide.values name (hNames ▸ hName)
  cases hSeen.symm.trans hFound
  refine ⟨more, hMore, ?_⟩
  intro v hv
  obtain ⟨f, hf, hValue⟩ := List.mem_map.mp ((hFirst.mem_iff v).mp hv)
  exact (hWideFirst.mem_iff v).mpr (List.mem_map.mpr ⟨f, hFields hf, hValue⟩)

end

end Axes

namespace Client

/-- The level used where a call names none is itself one that can be asked for. -/
theorem axesLevel_bounds (c : Client) : 1 ≤ c.settings.axesLevel ∧ c.settings.axesLevel ≤ 3 :=
  Settings.checkLevel_eq_ok_iff.mp (Settings.checkLevel_of_validate c.valid)

theorem axes_answer (c : Client) (a : Archive) {k : Key} {level : Option Nat}
    (context : Option Context) (hKey : k.Sendable)
    (hLevel : 1 ≤ level.getD c.settings.axesLevel ∧ level.getD c.settings.axesLevel ≤ 3) :
    (c.axes k level context a).answer =
      .ok (Axes.ofPairs (level.getD c.settings.axesLevel)
        (Archive.axisPairs (a.carriers k) (level.getD c.settings.axesLevel))) := by
  have hEngine : ∀ text, (Engine.axes a k.serialize (level.getD c.settings.axesLevel) text).answer =
      .ok (Archive.axisPairs (a.carriers k) (level.getD c.settings.axesLevel)) := by
    intro text
    have hDepth : 1 ≤ level.getD c.settings.axesLevel ∧
        level.getD c.settings.axesLevel ≤ Archive.axisNames.length := hLevel
    change (a.axes _ _ text).answer = _
    rw [Archive.axes, if_pos hDepth, Key.parse_serialize hKey.toSeparable]
    exact congrArg (fun fields => Except.ok (Archive.axisPairs fields _)) (a.filter_matchesKey hKey)
  simp only [axes, Axes.discover, Settings.checkLevel, if_pos hLevel, hEngine]

/-- Axes discovery over any archive: what is reported, and how it changes with level and key. -/
theorem axes_reachable (c : Client) (a : Archive) (k : Key) (context other : Option Context)
    (hKey : k.Sendable) :
    (∀ level : Option Nat, (∀ n ∈ level, 1 ≤ n ∧ n ≤ 3) →
      ∃ found, (c.axes k level context a).answer = .ok found ∧
        found.Reports (level.getD c.settings.axesLevel) (a.carriers k)) ∧
    (∀ low high, 1 ≤ low → low ≤ high → high ≤ 3 →
      ∃ coarse fine, (c.axes k (some low) context a).answer = .ok coarse ∧
        (c.axes k (some high) other a).answer = .ok fine ∧ coarse.pairs <+: fine.pairs) ∧
    ∀ narrowed level, k.Narrower narrowed → narrowed.Sendable → 1 ≤ level → level ≤ 3 →
      ∃ wide narrow, (c.axes k (some level) context a).answer = .ok wide ∧
        (c.axes narrowed (some level) other a).answer = .ok narrow ∧ narrow.Within wide := by
  refine ⟨?_, ?_, ?_⟩
  · intro level hLevel
    have hUsed : 1 ≤ level.getD c.settings.axesLevel ∧ level.getD c.settings.axesLevel ≤ 3 := by
      cases level with
      | none => exact c.axesLevel_bounds
      | some n => exact hLevel n rfl
    exact ⟨_, axes_answer c a context hKey hUsed, Axes.reports_ofPairs⟩
  · intro low high hLow hLe hHigh
    refine ⟨_, _, axes_answer c a context hKey ⟨hLow, Nat.le_trans hLe hHigh⟩,
      axes_answer c a other hKey ⟨Nat.le_trans hLow hLe, hHigh⟩, ?_⟩
    rw [Axes.pairs_ofPairs_axisPairs, Axes.pairs_ofPairs_axisPairs]
    exact (Archive.axisNames_prefix hLe).map _
  · intro narrowed level hNarrower hNarrowed hLow hHigh
    exact ⟨_, _, axes_answer c a context hKey ⟨hLow, hHigh⟩,
      axes_answer c a other hNarrowed ⟨hLow, hHigh⟩,
      Axes.reports_ofPairs.within Axes.reports_ofPairs (a.carriers_of_narrower hNarrower)⟩

/-- Two of three steps are asked for, and no field that has one of them has a parameter. -/
theorem axes_reachable_of_three_steps :
    let archived := [("step", "6"), ("param", "t"), ("step", "12"), ("step", "0")]
    let a := archived.foldl (fun a p => a.addField (Key.ofList [(p.1, .single p.2)]) [] none)
      Archive.empty
    let c := Client.new ⟨"user", "host"⟩
    let k := Key.ofList [("step", .multi ["0", "6"])]
    let narrowed := k.select "step" (.multi ["0"])
    k.Sendable ∧ narrowed.Sendable ∧ k.Narrower narrowed ∧
      (∃ found, (c.axes k none none a).answer = .ok found ∧ found.level = 3 ∧
        found.get? "step" = some ["6", "0"] ∧ found.get? "param" = some [""]) ∧
      ∃ wide narrow, (c.axes k (some 3) none a).answer = .ok wide ∧
        (c.axes narrowed (some 3) none a).answer = .ok narrow ∧ narrow.Within wide := by
  intro archived a c k narrowed
  have hKey : k.Sendable := ⟨⟨by decide, by decide⟩, by decide⟩
  have hNarrowed : narrowed.Sendable := ⟨⟨by decide, by decide⟩, by decide⟩
  have hNarrower : k.Narrower narrowed :=
    .removed "step" ["0", "6"] ["0"] (by decide) (by decide) (by decide)
  obtain ⟨hReports, _, hNarrows⟩ := axes_reachable c a k none none hKey
  obtain ⟨found, hAnswer, hLevel, hNames, hValues⟩ := hReports none (by simp)
  have hRead : ∀ name ∈ found.names, found.get? name =
      some (OrderedSet.ofList ((a.carriers k).map fun f => Archive.Field.valueOf f name)).toList := by
    intro name hName
    obtain ⟨seen, hSeen, hFirst⟩ := hValues name hName
    rw [hSeen, hFirst.eq (OrderedSet.firstSeen_ofList _)]
  have hStep : found.get? "step" = some ["6", "0"] :=
    (hRead "step" (by rw [hNames]; decide)).trans (by decide +kernel)
  have hParam : found.get? "param" = some [""] :=
    (hRead "param" (by rw [hNames]; decide)).trans (by decide +kernel)
  exact ⟨hKey, hNarrowed, hNarrower, ⟨found, hAnswer, hLevel, hStep, hParam⟩,
    hNarrows narrowed 3 hNarrower hNarrowed (by decide) (by decide)⟩

end Client

end FieldExtract
