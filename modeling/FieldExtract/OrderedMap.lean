/-!
# Maps in order of insertion

The entries have distinct names. Writing a name that is already present keeps its place and
changes its value; a new name goes to the end. `same` compares two maps without their order.
-/

namespace FieldExtract

structure OrderedMap (α β : Type) where
  entries : List (α × β)
  distinct : (entries.map Prod.fst).Nodup

namespace OrderedMap

variable {α β γ : Type}

@[ext] theorem ext {a b : OrderedMap α β} (h : a.entries = b.entries) : a = b := by
  cases a
  cases b
  cases h
  rfl

instance [DecidableEq α] [DecidableEq β] : DecidableEq (OrderedMap α β) := fun a b =>
  if h : a.entries = b.entries then isTrue (ext h) else isFalse fun e => h (congrArg entries e)

def empty : OrderedMap α β := ⟨[], List.nodup_nil⟩

def names (m : OrderedMap α β) : List α := m.entries.map Prod.fst

def values (m : OrderedMap α β) : List β := m.entries.map Prod.snd

def size (m : OrderedMap α β) : Nat := m.entries.length

def isEmpty (m : OrderedMap α β) : Bool := m.entries.isEmpty

def mapValues (f : β → γ) (m : OrderedMap α β) : OrderedMap α γ where
  entries := m.entries.map fun e => (e.1, f e.2)
  distinct := by
    rw [List.map_map]
    exact m.distinct

section

variable [DecidableEq α]

def get? (m : OrderedMap α β) (name : α) : Option β := m.entries.lookup name

def contains (m : OrderedMap α β) (name : α) : Bool := decide (name ∈ m.names)

def put (name : α) (value : β) : List (α × β) → List (α × β)
  | [] => [(name, value)]
  | e :: rest => if e.1 = name then (name, value) :: rest else e :: put name value rest

theorem names_put_of_mem {name : α} {value : β} {entries : List (α × β)}
    (h : name ∈ entries.map Prod.fst) :
    (put name value entries).map Prod.fst = entries.map Prod.fst := by
  induction entries with
  | nil => simp at h
  | cons e rest ih =>
    by_cases he : e.1 = name
    · simp [put, he]
    · have hRest : name ∈ rest.map Prod.fst := by
        rcases List.mem_cons.mp h with h | h
        · exact absurd h.symm he
        · exact h
      simp [put, he, ih hRest]

theorem put_of_not_mem {name : α} {value : β} {entries : List (α × β)}
    (h : name ∉ entries.map Prod.fst) : put name value entries = entries ++ [(name, value)] := by
  induction entries with
  | nil => rfl
  | cons e rest ih =>
    simp only [List.map_cons, List.mem_cons, not_or] at h
    simp [put, Ne.symm h.1, ih h.2]

theorem distinct_put {name : α} {value : β} {entries : List (α × β)}
    (h : (entries.map Prod.fst).Nodup) : ((put name value entries).map Prod.fst).Nodup := by
  by_cases hMem : name ∈ entries.map Prod.fst
  · rwa [names_put_of_mem hMem]
  · rw [put_of_not_mem hMem, List.map_append, List.nodup_append]
    refine ⟨h, by simp, fun a ha b hb => ?_⟩
    simp only [List.map_cons, List.map_nil, List.mem_singleton] at hb
    subst hb
    exact fun e => hMem (e ▸ ha)

def insert (m : OrderedMap α β) (name : α) (value : β) : OrderedMap α β :=
  ⟨put name value m.entries, distinct_put m.distinct⟩

def insertIfNew (m : OrderedMap α β) (name : α) (value : β) : OrderedMap α β :=
  if m.contains name then m else m.insert name value

def insertMany (m : OrderedMap α β) (entries : List (α × β)) : OrderedMap α β :=
  entries.foldl (fun m e => m.insert e.1 e.2) m

def ofList (entries : List (α × β)) : OrderedMap α β := empty.insertMany entries

def same [DecidableEq β] (a b : OrderedMap α β) : Bool :=
  a.size == b.size && a.entries.all fun e => b.get? e.1 == some e.2

theorem insertMany_of_distinct (m : OrderedMap α β) (entries : List (α × β))
    (h : ((m.entries ++ entries).map Prod.fst).Nodup) :
    (m.insertMany entries).entries = m.entries ++ entries := by
  induction entries generalizing m with
  | nil => simp [insertMany]
  | cons e rest ih =>
    have hNot : e.1 ∉ m.entries.map Prod.fst := by
      rw [List.map_append, List.nodup_append] at h
      intro hMem
      exact h.2.2 _ hMem e.1 (by simp) rfl
    have hStep : (m.insert e.1 e.2).entries = m.entries ++ [e] := put_of_not_mem hNot
    have hRest := ih (m.insert e.1 e.2) (by rw [hStep]; simpa using h)
    rw [insertMany, List.foldl_cons]
    rw [hStep] at hRest
    simpa [insertMany] using hRest

theorem ofList_entries (m : OrderedMap α β) : ofList m.entries = m :=
  ext (by simpa [ofList, empty] using
    insertMany_of_distinct empty m.entries (by simpa [empty] using m.distinct))

end

end OrderedMap

end FieldExtract
