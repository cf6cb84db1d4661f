/-!
# Slots

Things that a session hands out are numbered from zero in the order in which they are made. A slot
that is emptied keeps its number.
-/

namespace FieldExtract

inductive SlotRef
  | number (n : Nat)
  | last
deriving DecidableEq

structure Slots (α : Type) where
  items : List (Option α)

namespace Slots

variable {α : Type}

def empty : Slots α := ⟨[]⟩

def size (s : Slots α) : Nat := s.items.length

def index (s : Slots α) : SlotRef → Nat
  | .number n => n
  | .last => s.size - 1

def get? (s : Slots α) (ref : SlotRef) : Option α := (s.items[s.index ref]?).join

def add (s : Slots α) (a : α) : Slots α := ⟨s.items ++ [some a]⟩

def put (s : Slots α) (ref : SlotRef) (a : α) : Slots α := ⟨s.items.set (s.index ref) (some a)⟩

def clear (s : Slots α) (ref : SlotRef) : Slots α := ⟨s.items.set (s.index ref) none⟩

def live (s : Slots α) : List α := s.items.filterMap id

theorem size_add (s : Slots α) (a : α) : (s.add a).size = s.size + 1 := List.length_append

theorem size_put (s : Slots α) (ref : SlotRef) (a : α) : (s.put ref a).size = s.size :=
  List.length_set

theorem size_clear (s : Slots α) (ref : SlotRef) : (s.clear ref).size = s.size := List.length_set

theorem live_add (s : Slots α) (a : α) : (s.add a).live = s.live ++ [a] := by
  simp [live, add, List.filterMap_append]

/-- What stands in a slot is one of the live things; the others stay what they are when it is
replaced or taken out. -/
theorem live_of_get? {s : Slots α} {ref : SlotRef} {a : α} (h : s.get? ref = some a) :
    ∃ left right, s.live = left ++ a :: right ∧ (∀ b, (s.put ref b).live = left ++ b :: right) ∧
      (s.clear ref).live = left ++ right := by
  obtain ⟨hi, hItem⟩ := List.getElem?_eq_some_iff.mp (Option.join_eq_some_iff.mp h)
  have hSplit : s.items =
      s.items.take (s.index ref) ++ some a :: s.items.drop (s.index ref + 1) := by
    rw [← hItem, ← List.drop_eq_getElem_cons hi, List.take_append_drop]
  have hSet : ∀ item, s.items.set (s.index ref) item =
      s.items.take (s.index ref) ++ item :: s.items.drop (s.index ref + 1) := by
    intro item
    rw [List.set_eq_take_append_cons_drop, if_pos hi]
  refine ⟨(s.items.take (s.index ref)).filterMap id,
    (s.items.drop (s.index ref + 1)).filterMap id, ?_, fun b => ?_, ?_⟩
  · exact (congrArg (List.filterMap id) hSplit).trans (by simp [List.filterMap_append])
  · exact (congrArg (List.filterMap id) (hSet (some b))).trans (by simp [List.filterMap_append])
  · exact (congrArg (List.filterMap id) (hSet none)).trans (by simp [List.filterMap_append])

theorem length_live_add (s : Slots α) (a : α) : (s.add a).live.length = s.live.length + 1 := by
  rw [live_add, List.length_append]
  rfl

theorem length_live_put {s : Slots α} {ref : SlotRef} {a : α} (h : s.get? ref = some a)
    (b : α) : (s.put ref b).live.length = s.live.length := by
  obtain ⟨left, right, hLive, hPut, _⟩ := live_of_get? h
  simp [hLive, hPut]

theorem length_live_clear {s : Slots α} {ref : SlotRef} {a : α} (h : s.get? ref = some a) :
    s.live.length = (s.clear ref).live.length + 1 := by
  obtain ⟨left, right, hLive, _, hClear⟩ := live_of_get? h
  simp [hLive, hClear]
  omega

theorem index_congr {s t : Slots α} (h : t.size = s.size) (ref : SlotRef) :
    t.index ref = s.index ref := by
  cases ref with
  | number n => rfl
  | last => rw [index, index, h]

theorem get?_put {s : Slots α} {ref : SlotRef} {a : α} (h : s.get? ref = some a) (b : α) :
    (s.put ref b).get? ref = some b := by
  obtain ⟨hi, _⟩ := List.getElem?_eq_some_iff.mp (Option.join_eq_some_iff.mp h)
  rw [get?, index_congr (s.size_put ref b), put, List.getElem?_set_self hi]
  rfl

theorem get?_clear {s : Slots α} {ref : SlotRef} {a : α} (h : s.get? ref = some a) :
    (s.clear ref).get? ref = none := by
  obtain ⟨hi, _⟩ := List.getElem?_eq_some_iff.mp (Option.join_eq_some_iff.mp h)
  rw [get?, index_congr (s.size_clear ref), clear, List.getElem?_set_self hi]
  rfl

theorem get?_put_of_ne {s : Slots α} {ref : SlotRef} {n : Nat} (h : s.index ref ≠ n) (a : α) :
    (s.put ref a).get? (.number n) = s.get? (.number n) :=
  congrArg Option.join (List.getElem?_set_ne h)

theorem get?_clear_of_ne {s : Slots α} {ref : SlotRef} {n : Nat} (h : s.index ref ≠ n) :
    (s.clear ref).get? (.number n) = s.get? (.number n) :=
  congrArg Option.join (List.getElem?_set_ne h)

theorem get?_add_of_lt {s : Slots α} {n : Nat} (h : n < s.size) (a : α) :
    (s.add a).get? (.number n) = s.get? (.number n) :=
  congrArg Option.join (List.getElem?_append_left h)

theorem get?_add_self (s : Slots α) (a : α) : (s.add a).get? (.number s.size) = some a :=
  congrArg Option.join List.getElem?_concat_length

end Slots

end FieldExtract
