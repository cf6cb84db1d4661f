import FieldExtract.Session.Slots
import Mathlib.Logic.Function.Basic

/-!
# Slots dealt to parties

Slots of a session can be dealt to parties, each of which numbers its own from zero. What one party
adds, replaces or takes out there is the same in the session as it would be if the party were
alone, and stands in no slot of another's.
-/

namespace FieldExtract

/-- The number in a session of what a party refers to, where `numbers` are those of the party's
things, in order. -/
def SlotRef.among (numbers : List Nat) : SlotRef → Option Nat
  | .number n => numbers[n]?
  | .last => numbers[numbers.length - 1]?

theorem Slots.get?_set_self {α : Type} {s : Slots α} {n : Nat} (h : n < s.size)
    (item : Option α) : (Slots.mk (s.items.set n item)).get? (.number n) = item :=
  congrArg Option.join (List.getElem?_set_self h)

theorem getElem?_concat_cases {l : List Nat} {a i n : Nat} (h : (l ++ [a])[i]? = some n) :
    l[i]? = some n ∨ i = l.length ∧ n = a := by
  rcases Nat.lt_trichotomy i l.length with hLt | rfl | hGt
  · exact .inl (List.getElem?_append_left hLt ▸ h)
  · exact .inr ⟨rfl, (Option.some.inj (List.getElem?_concat_length.symm.trans h)).symm⟩
  · have hNone : (l ++ [a])[i]? = none :=
      List.getElem?_eq_none (by rw [List.length_append, List.length_singleton]; omega)
    cases hNone.symm.trans h

/-- A party's own slots, were it alone, hold what the session's slots of these numbers hold. -/
structure Mirrors {α : Type} (numbers : List Nat) (shared own : Slots α) : Prop where
  size_eq : own.size = numbers.length
  same : ∀ i n, numbers[i]? = some n →
    n < shared.size ∧ shared.get? (.number n) = own.get? (.number i)

/-- One step of a party, in the session and alone: nothing, a new thing in both, or the same put
into corresponding slots of both. -/
inductive Change {α : Type} (numbers : List Nat) (shared own : Slots α) :
    List Nat → Slots α → Slots α → Prop
  | keep : Change numbers shared own numbers shared own
  | add (a : α) : Change numbers shared own (numbers ++ [shared.size]) (shared.add a) (own.add a)
  | set (i n : Nat) (item : Option α) (h : numbers[i]? = some n) :
    Change numbers shared own numbers ⟨shared.items.set n item⟩ ⟨own.items.set i item⟩

section

variable {α : Type} {numbers numbers' : List Nat} {shared shared' own own' : Slots α}

theorem Mirrors.index_eq (h : Mirrors numbers shared own) (ref : SlotRef) :
    ref.among numbers = numbers[own.index ref]? := by
  cases ref with
  | number n => rfl
  | last => rw [SlotRef.among, Slots.index, h.size_eq]

theorem Mirrors.get?_of_among (h : Mirrors numbers shared own) {ref : SlotRef} {n : Nat}
    (hRef : ref.among numbers = some n) : shared.get? (.number n) = own.get? ref :=
  (h.same _ _ ((h.index_eq ref).symm.trans hRef)).2

theorem Mirrors.get?_of_unplaced (h : Mirrors numbers shared own) {ref : SlotRef} {β : Type}
    {f : Nat → β} (hRef : (ref.among numbers).map f = none) : own.get? ref = none := by
  have hNone := Option.map_eq_none_iff.mp hRef
  have hBound := List.getElem?_eq_none_iff.mp ((h.index_eq ref).symm.trans hNone)
  have hOutside : own.size ≤ own.index ref := h.size_eq ▸ hBound
  rw [Slots.get?, List.getElem?_eq_none hOutside]
  rfl

theorem Mirrors.put (h : Mirrors numbers shared own) {ref : SlotRef} {n : Nat}
    (hRef : ref.among numbers = some n) (a : α) :
    Change numbers shared own numbers (shared.put (.number n) a) (own.put ref a) :=
  .set (own.index ref) n (some a) ((h.index_eq ref).symm.trans hRef)

theorem Mirrors.clear (h : Mirrors numbers shared own) {ref : SlotRef} {n : Nat}
    (hRef : ref.among numbers = some n) :
    Change numbers shared own numbers (shared.clear (.number n)) (own.clear ref) :=
  .set (own.index ref) n none ((h.index_eq ref).symm.trans hRef)

/-- Slots that are another's stay what they are. -/
theorem Change.get?_of_apart (h : Change numbers shared own numbers' shared' own') {n : Nat}
    (hBound : n < shared.size) (hApart : ∀ i : Nat, numbers[i]? ≠ some n) :
    n < shared'.size ∧ shared'.get? (.number n) = shared.get? (.number n) := by
  cases h with
  | keep => exact ⟨hBound, rfl⟩
  | add a => exact ⟨by rw [Slots.size_add]; omega, Slots.get?_add_of_lt hBound a⟩
  | set i m item hSlot =>
    have hNe : m ≠ n := fun h => hApart i (h ▸ hSlot)
    exact ⟨Nat.lt_of_lt_of_eq hBound List.length_set.symm,
      congrArg Option.join (List.getElem?_set_ne hNe)⟩

/-- A number is had before the step, or is that of the new thing. -/
theorem Change.number_cases (h : Change numbers shared own numbers' shared' own') {i n : Nat}
    (hSlot : numbers'[i]? = some n) :
    numbers[i]? = some n ∨ i = numbers.length ∧ n = shared.size := by
  cases h with
  | keep => exact .inl hSlot
  | add a => exact getElem?_concat_cases hSlot
  | set j m item _ => exact .inl hSlot

theorem Change.mirrors (h : Change numbers shared own numbers' shared' own')
    (hMirrors : Mirrors numbers shared own)
    (hOnce : ∀ i j n : Nat, numbers[i]? = some n → numbers[j]? = some n → i = j) :
    Mirrors numbers' shared' own' := by
  cases h with
  | keep => exact hMirrors
  | add a =>
    refine ⟨?_, fun i n hSlot => ?_⟩
    · rw [Slots.size_add, hMirrors.size_eq, List.length_append, List.length_singleton]
    · rcases getElem?_concat_cases hSlot with hOld | ⟨rfl, rfl⟩
      · obtain ⟨hBound, hSame⟩ := hMirrors.same i n hOld
        have hOwn : i < own.size := hMirrors.size_eq ▸ (List.getElem?_eq_some_iff.mp hOld).1
        refine ⟨by rw [Slots.size_add]; omega, ?_⟩
        rw [Slots.get?_add_of_lt hBound, Slots.get?_add_of_lt hOwn, hSame]
      · refine ⟨by rw [Slots.size_add]; omega, ?_⟩
        rw [← hMirrors.size_eq, Slots.get?_add_self, Slots.get?_add_self]
  | set i n item hPlace =>
    refine ⟨List.length_set.trans hMirrors.size_eq, fun j m hSlot => ?_⟩
    obtain ⟨hBound, hSame⟩ := hMirrors.same j m hSlot
    refine ⟨Nat.lt_of_lt_of_eq hBound List.length_set.symm, ?_⟩
    by_cases hIndex : i = j
    · subst hIndex
      cases hPlace.symm.trans hSlot
      have hOwn : i < own.size := hMirrors.size_eq ▸ (List.getElem?_eq_some_iff.mp hSlot).1
      rw [Slots.get?_set_self hBound, Slots.get?_set_self hOwn]
    · -- a number stands in one place only, so it is not the one that has been written
      have hNe : n ≠ m := fun h => hIndex (hOnce i j n hPlace (h ▸ hSlot))
      exact (congrArg Option.join (List.getElem?_set_ne hNe)).trans
        (hSame.trans (congrArg Option.join (List.getElem?_set_ne hIndex)).symm)

end

/-- The session's slots, dealt out: each party's are as they would be if it were alone, and no slot
is dealt twice. -/
structure Dealt {κ α : Type} (numbers : κ → List Nat) (shared : Slots α) (own : κ → Slots α) :
    Prop where
  mirrors : ∀ who, Mirrors (numbers who) shared (own who)
  unique : ∀ (who other : κ) (i j n : Nat),
    (numbers who)[i]? = some n → (numbers other)[j]? = some n → who = other ∧ i = j

/-- What one party does leaves the slots of the others as they are. -/
theorem Dealt.update {κ α δ σ : Type} [DecidableEq κ] {numbers : δ → List Nat}
    {slots : σ → Slots α} {desks : κ → δ} {own : κ → σ} {shared shared' : Slots α}
    (h : Dealt (fun w => numbers (desks w)) shared fun w => slots (own w)) {who : κ} {desk : δ}
    {alone : σ} (hChange : Change (numbers (desks who)) shared (slots (own who)) (numbers desk)
      shared' (slots alone)) :
    Dealt (fun w => numbers (Function.update desks who desk w)) shared'
      fun w => slots (Function.update own who alone w) := by
  have hCases : ∀ w (i n : Nat), (numbers (Function.update desks who desk w))[i]? = some n →
      (numbers (desks w))[i]? = some n ∨
        w = who ∧ i = (numbers (desks who)).length ∧ n = shared.size := by
    intro w i n hSlot
    by_cases hWho : w = who
    · subst hWho
      rw [Function.update_self] at hSlot
      exact (hChange.number_cases hSlot).imp_right fun hNew => ⟨rfl, hNew⟩
    · rw [Function.update_of_ne hWho] at hSlot
      exact .inl hSlot
  constructor
  · intro w
    by_cases hWho : w = who
    · subst hWho
      rw [Function.update_self, Function.update_self]
      exact hChange.mirrors (h.mirrors w) fun i j n hi hj => (h.unique w w i j n hi hj).2
    · rw [Function.update_of_ne hWho, Function.update_of_ne hWho]
      refine ⟨(h.mirrors w).size_eq, fun i n hSlot => ?_⟩
      obtain ⟨hBound, hSame⟩ := (h.mirrors w).same i n hSlot
      obtain ⟨hBound', hSame'⟩ := hChange.get?_of_apart hBound
        fun j hOther => hWho (h.unique w who i j n hSlot hOther).1
      exact ⟨hBound', hSame'.trans hSame⟩
  · -- a number that a step adds is past all those that were dealt before
    intro w other i j n hi hj
    rcases hCases w i n hi with hOld | ⟨hWho, hi', hNew⟩
    · rcases hCases other j n hj with hOld' | ⟨_, _, hNew⟩
      · exact h.unique w other i j n hOld hOld'
      · exact absurd ((h.mirrors w).same i n hOld).1 (hNew ▸ Nat.lt_irrefl n)
    · rcases hCases other j n hj with hOld | ⟨hOther, hj', _⟩
      · exact absurd ((h.mirrors other).same j n hOld).1 (hNew ▸ Nat.lt_irrefl n)
      · exact ⟨hWho.trans hOther.symm, hi'.trans hj'.symm⟩

end FieldExtract
