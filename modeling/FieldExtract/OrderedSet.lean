/-!
# Sets in order of first occurrence
-/

namespace FieldExtract

structure OrderedSet (α : Type) where
  toList : List α
  distinct : toList.Nodup

namespace OrderedSet

variable {α : Type}

def empty : OrderedSet α := ⟨[], List.nodup_nil⟩

section

variable [DecidableEq α]

def insert (s : OrderedSet α) (a : α) : OrderedSet α :=
  if h : a ∈ s.toList then s
  else
    { toList := s.toList ++ [a]
      distinct := by
        rw [List.nodup_append]
        refine ⟨s.distinct, by simp, fun x hx y hy => ?_⟩
        rw [List.mem_singleton.mp hy]
        exact fun e => h (e ▸ hx) }

def insertMany (s : OrderedSet α) (as : List α) : OrderedSet α := as.foldl insert s

def ofList (as : List α) : OrderedSet α := empty.insertMany as

def same (s t : OrderedSet α) : Bool :=
  s.toList.length == t.toList.length && s.toList.all fun a => decide (a ∈ t.toList)

@[simp] theorem mem_insert {s : OrderedSet α} {a b : α} :
    b ∈ (s.insert a).toList ↔ b ∈ s.toList ∨ b = a := by
  unfold insert
  split
  · next h =>
    constructor
    · exact Or.inl
    · rintro (hb | rfl)
      · exact hb
      · exact h
  · simp

end

end OrderedSet

end FieldExtract
