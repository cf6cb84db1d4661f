import FieldExtract.OrderedSet
import FieldExtract.Proofs.MapLookup

/-!
# Order of first occurrence

A set that takes in a list holds its elements once each, in the order in which they first occur
there. The list decides what such a set looks like, so taking in a list without repetitions gives
that list back. The names of an ordered map are such a set.
-/

namespace FieldExtract

variable {α : Type}

theorem OrderedSet.ext_toList {s t : OrderedSet α} (h : s.toList = t.toList) : s = t := by
  cases s
  cases t
  cases h
  rfl

variable [DecidableEq α]

/-- The elements of `all` in the order of their first occurrences, each once. -/
structure FirstSeen (seen all : List α) : Prop where
  mem_iff : ∀ v, v ∈ seen ↔ v ∈ all
  ordered : seen.Pairwise fun v w => all.idxOf v < all.idxOf w

namespace FirstSeen

variable {seen other all : List α}

theorem nodup (h : FirstSeen seen all) : seen.Nodup :=
  h.ordered.imp fun hLt hEq => Nat.ne_of_lt hLt (congrArg all.idxOf hEq)

theorem eq (h : FirstSeen seen all) (hOther : FirstSeen other all) : seen = other := by
  have hPerm : seen.Perm other := by
    rw [List.perm_ext_iff_of_nodup h.nodup hOther.nodup]
    exact fun v => (h.mem_iff v).trans (hOther.mem_iff v).symm
  apply hPerm.eq_of_pairwise _ h.ordered hOther.ordered
  intro v w _ _ hLt hGt
  exact absurd hGt (Nat.lt_asymm hLt)

end FirstSeen

theorem firstSeen_self {xs : List α} (h : xs.Nodup) : FirstSeen xs xs := by
  refine ⟨fun v => Iff.rfl, List.pairwise_iff_getElem.mpr ?_⟩
  intro i j hi hj hij
  rwa [h.idxOf_getElem i hi, h.idxOf_getElem j hj]

namespace OrderedSet

variable {s : OrderedSet α} {all : List α}

theorem toList_insert_of_mem {v : α} (h : v ∈ s.toList) : (s.insert v).toList = s.toList := by
  rw [insert, dif_pos h]

theorem toList_insert_of_not_mem {v : α} (h : v ∉ s.toList) :
    (s.insert v).toList = s.toList ++ [v] := by
  rw [insert, dif_neg h]

theorem firstSeen_insert (h : FirstSeen s.toList all) (v : α) :
    FirstSeen (s.insert v).toList (all ++ [v]) := by
  -- An element seen before occurs first where it did, and a new one after all of them.
  have hIndex : ∀ w ∈ s.toList, (all ++ [v]).idxOf w = all.idxOf w := fun w hw =>
    List.idxOf_append_of_mem ((h.mem_iff w).mp hw)
  have hOrdered : s.toList.Pairwise fun w x => (all ++ [v]).idxOf w < (all ++ [v]).idxOf x :=
    h.ordered.imp_of_mem fun hw hx hLt => by rwa [hIndex _ hw, hIndex _ hx]
  constructor
  · intro w
    rw [mem_insert, h.mem_iff, List.mem_append, List.mem_singleton]
  · by_cases hv : v ∈ s.toList
    · rwa [toList_insert_of_mem hv]
    · rw [toList_insert_of_not_mem hv, List.pairwise_append]
      refine ⟨hOrdered, List.pairwise_singleton _ v, ?_⟩
      intro w hw x hx
      have hAll : v ∉ all := fun hMem => hv ((h.mem_iff v).mpr hMem)
      rw [List.mem_singleton.mp hx, hIndex w hw, List.idxOf_append_of_notMem hAll]
      have := List.idxOf_lt_length_of_mem ((h.mem_iff w).mp hw)
      omega

theorem firstSeen_insertMany (h : FirstSeen s.toList all) (vs : List α) :
    FirstSeen (s.insertMany vs).toList (all ++ vs) := by
  induction vs generalizing s all with
  | nil => rwa [List.append_nil]
  | cons v vs ih =>
    have hRest := ih (firstSeen_insert h v)
    rwa [List.append_assoc] at hRest

theorem firstSeen_ofList (xs : List α) : FirstSeen (ofList xs).toList xs :=
  firstSeen_insertMany (firstSeen_self List.nodup_nil) xs

theorem toList_ofList {xs : List α} (h : xs.Nodup) : (ofList xs).toList = xs :=
  (firstSeen_ofList xs).eq (firstSeen_self h)

end OrderedSet

namespace OrderedMap

variable {β : Type}

/-- The names of a map are a set in order of first insertion. -/
def nameSet (m : OrderedMap α β) : OrderedSet α := ⟨m.names, m.distinct⟩

theorem nameSet_insert (m : OrderedMap α β) (name : α) (value : β) :
    (m.insert name value).nameSet = m.nameSet.insert name := by
  apply OrderedSet.ext_toList
  by_cases h : name ∈ m.names
  · have hSame := OrderedSet.toList_insert_of_mem (s := m.nameSet) h
    exact (names_insert_of_mem h value).trans hSame.symm
  · have hAdded := OrderedSet.toList_insert_of_not_mem (s := m.nameSet) h
    exact (names_insert_of_not_mem h value).trans hAdded.symm

theorem firstSeen_insert {m : OrderedMap α β} {all : List α} (h : FirstSeen m.names all) (name : α)
    (value : β) : FirstSeen (m.insert name value).names (all ++ [name]) := by
  have hSeen : FirstSeen m.nameSet.toList all := h
  have hStep := OrderedSet.firstSeen_insert hSeen name
  rwa [← m.nameSet_insert name value] at hStep

end OrderedMap

example : (OrderedSet.ofList ["6", "0", "6", "12", "0"]).toList = ["6", "0", "12"] := by decide

end FieldExtract
