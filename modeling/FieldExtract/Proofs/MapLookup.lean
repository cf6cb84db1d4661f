import FieldExtract.OrderedMap
import Mathlib.Data.List.Nodup
import Mathlib.Data.List.Perm.Subperm

/-!
# Looking up in ordered maps

What is found under a name is the entry with that name, and of several entries written under one
name the last is found. Maps that are the same up to order have the same entries, and they answer
every lookup alike.
-/

namespace FieldExtract.OrderedMap

variable {α β γ : Type}

theorem nodup_entries (m : OrderedMap α β) : m.entries.Nodup :=
  List.Nodup.of_map Prod.fst m.distinct

variable [DecidableEq α]

theorem lookup_cons_eq_ite (e : α × β) (rest : List (α × β)) (name : α) :
    (e :: rest).lookup name = if name = e.1 then some e.2 else rest.lookup name := by
  obtain ⟨first, found⟩ := e
  rw [List.lookup_cons]
  by_cases h : name = first
  · rw [if_pos h, beq_iff_eq.mpr h]
  · rw [if_neg h, beq_eq_false_iff_ne.mpr h]

theorem lookup_eq_some_iff_mem {entries : List (α × β)} (h : (entries.map Prod.fst).Nodup)
    {name : α} {value : β} : entries.lookup name = some value ↔ (name, value) ∈ entries := by
  induction entries with
  | nil => simp
  | cons e rest ih =>
    obtain ⟨hNew, hRest⟩ := List.nodup_cons.mp h
    obtain ⟨first, found⟩ := e
    rw [lookup_cons_eq_ite, List.mem_cons, Prod.mk.injEq]
    split
    · next hName =>
      subst hName
      have hNot : (name, value) ∉ rest := fun hMem =>
        hNew (List.mem_map.mpr ⟨(name, value), hMem, rfl⟩)
      simp only [Option.some.injEq, true_and, hNot, or_false]
      exact eq_comm
    · next hName => simp only [hName, false_and, false_or, ih hRest]

theorem get?_eq_some_iff {m : OrderedMap α β} {name : α} {value : β} :
    m.get? name = some value ↔ (name, value) ∈ m.entries :=
  lookup_eq_some_iff_mem m.distinct

theorem get?_eq_none_iff {m : OrderedMap α β} {name : α} : m.get? name = none ↔ name ∉ m.names := by
  rw [Option.eq_none_iff_forall_ne_some, names, List.mem_map]
  constructor
  · rintro h ⟨e, he, rfl⟩
    exact h e.2 (get?_eq_some_iff.mpr he)
  · intro h value hFound
    exact h ⟨(name, value), get?_eq_some_iff.mp hFound, rfl⟩

/-- Maps with the same names in the same order differ only in what is found under a name. -/
theorem ext_get? {m n : OrderedMap α β} (hNames : m.names = n.names)
    (h : ∀ name, m.get? name = n.get? name) : m = n := by
  have hEntries : ∀ k : OrderedMap α β, (k.entries.map fun e => (e.1, some e.2)) =
      k.names.map fun name => (name, k.get? name) := by
    intro k
    rw [names, List.map_map]
    exact List.map_congr_left fun e he => congrArg (Prod.mk e.1) (get?_eq_some_iff.mpr he).symm
  have hInjective : Function.Injective fun e : α × β => (e.1, some e.2) := by
    rintro ⟨name, value⟩ ⟨other, found⟩ hSame
    simpa using hSame
  apply ext (hInjective.list_map _)
  rw [hEntries, hEntries, hNames]
  exact List.map_congr_left fun name _ => congrArg (Prod.mk name) (h name)

theorem names_insert_of_mem {m : OrderedMap α β} {name : α} (h : name ∈ m.names) (value : β) :
    (m.insert name value).names = m.names :=
  names_put_of_mem h

theorem entries_insert_of_not_mem {m : OrderedMap α β} {name : α} (h : name ∉ m.names)
    (value : β) : (m.insert name value).entries = m.entries ++ [(name, value)] :=
  put_of_not_mem h

theorem names_insert_of_not_mem {m : OrderedMap α β} {name : α} (h : name ∉ m.names)
    (value : β) : (m.insert name value).names = m.names ++ [name] := by
  rw [names, entries_insert_of_not_mem h, List.map_append]
  rfl

theorem lookup_put (name other : α) (value : β) (entries : List (α × β)) :
    (put name value entries).lookup other =
      if other = name then some value else entries.lookup other := by
  induction entries with
  | nil => rw [put, lookup_cons_eq_ite]
  | cons e rest ih =>
    rw [lookup_cons_eq_ite e rest, put]
    split
    · next hHead =>
      rw [lookup_cons_eq_ite, hHead]
      by_cases h : other = name
      · rw [if_pos h, if_pos h]
      · rw [if_neg h, if_neg h, if_neg h]
    · next hHead =>
      rw [lookup_cons_eq_ite, ih]
      by_cases h : other = e.1
      · rw [if_pos h, if_pos h, if_neg fun hName => hHead (h.symm.trans hName)]
      · rw [if_neg h, if_neg h]

theorem get?_insert (m : OrderedMap α β) (name other : α) (value : β) :
    (m.insert name value).get? other = if other = name then some value else m.get? other :=
  lookup_put name other value m.entries

theorem insertMany_cons (m : OrderedMap α β) (e : α × β) (entries : List (α × β)) :
    m.insertMany (e :: entries) = (m.insert e.1 e.2).insertMany entries :=
  rfl

/-- Entries that agree in some respect are found as such wherever one of them has the name. -/
theorem map_get?_insertMany {f : β → γ} {common : γ} {m : OrderedMap α β}
    {entries : List (α × β)} (h : ∀ e ∈ entries, f e.2 = common) (name : α) :
    ((m.insertMany entries).get? name).map f =
      if name ∈ entries.map Prod.fst then some common else (m.get? name).map f := by
  induction entries generalizing m with
  | nil => simp [insertMany]
  | cons e rest ih =>
    obtain ⟨hHead, hRest⟩ := List.forall_mem_cons.mp h
    rw [insertMany_cons, ih hRest, get?_insert]
    by_cases hLater : name ∈ rest.map Prod.fst
    · simp [hLater]
    · by_cases hName : name = e.1
      · simp [hName, hHead]
      · simp [hLater, hName]

section

variable [DecidableEq β] {a b : OrderedMap α β}

theorem same_iff_perm : a.same b = true ↔ a.entries.Perm b.entries := by
  simp only [same, size, Bool.and_eq_true, beq_iff_eq, List.all_eq_true, get?_eq_some_iff]
  constructor
  · rintro ⟨hSize, hFound⟩
    have hSub : a.entries ⊆ b.entries := fun e he => hFound e he
    exact (List.subperm_of_subset a.nodup_entries hSub).perm_of_length_le (Nat.le_of_eq hSize.symm)
  · intro hPerm
    exact ⟨hPerm.length_eq, fun e he => hPerm.subset he⟩

theorem same_iff_get? : a.same b = true ↔ ∀ name, a.get? name = b.get? name := by
  rw [same_iff_perm]
  constructor
  · intro hPerm name
    apply Option.ext
    intro value
    rw [get?_eq_some_iff, get?_eq_some_iff, hPerm.mem_iff]
  · intro h
    rw [List.perm_ext_iff_of_nodup a.nodup_entries b.nodup_entries]
    rintro ⟨name, value⟩
    rw [← get?_eq_some_iff, ← get?_eq_some_iff, h]

end

end FieldExtract.OrderedMap
