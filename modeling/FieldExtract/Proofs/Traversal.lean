import FieldExtract.Selection.Basic
import Mathlib.Data.List.Forall2

/-!
# Lists treated one element at a time

If no element is refused, every element is answered; otherwise the answer is a refusal, and it has
whatever all refusals have in common. Where each element is treated with its index, the refusal is
that of the first element that is refused.
-/

namespace FieldExtract

variable {ε α β : Type}

section

variable {f : α → Except ε β} {x : α} {xs : List α} {e : ε}

theorem bind_eq_ok_iff {first : Except ε α} {b : β} :
    first >>= f = .ok b ↔ ∃ a, first = .ok a ∧ f a = .ok b := by
  cases first with
  | error e => simp [bind, Except.bind]
  | ok a => simp [bind, Except.bind]

/-- What comes first is refused, or what comes after it. -/
theorem bind_eq_error_iff {first : Except ε α} :
    first >>= f = .error e ↔ first = .error e ∨ ∃ a, first = .ok a ∧ f a = .error e := by
  cases first with
  | error e => simp [bind, Except.bind]
  | ok a => simp [bind, Except.bind]

theorem mapM_cons_eq_ok_iff {ys : List β} :
    (x :: xs).mapM f = .ok ys ↔
      ∃ y rest, f x = .ok y ∧ xs.mapM f = .ok rest ∧ ys = y :: rest := by
  simp only [List.mapM_cons, bind_eq_ok_iff, pure, Except.pure, Except.ok.injEq, exists_and_left,
    @eq_comm _ ys]

theorem mapM_cons_eq_error_iff :
    (x :: xs).mapM f = .error e ↔ f x = .error e ∨ ∃ y, f x = .ok y ∧ xs.mapM f = .error e := by
  simp only [List.mapM_cons, bind_eq_error_iff, pure, Except.pure, reduceCtorEq, and_false,
    exists_false, or_false]

theorem mapM_of_ok {g : α → β} (h : ∀ x ∈ xs, f x = .ok (g x)) : xs.mapM f = .ok (xs.map g) := by
  induction xs with
  | nil => rfl
  | cons x xs ih =>
    have hTail := ih fun y hy => h y (List.mem_cons_of_mem x hy)
    exact mapM_cons_eq_ok_iff.mpr ⟨g x, _, h x List.mem_cons_self, hTail, rfl⟩

theorem length_of_mapM {ys : List β} (h : xs.mapM f = .ok ys) : ys.length = xs.length := by
  induction xs generalizing ys with
  | nil =>
    cases h
    rfl
  | cons x xs ih =>
    obtain ⟨y, rest, _, hTail, rfl⟩ := mapM_cons_eq_ok_iff.mp h
    rw [List.length_cons, List.length_cons, ih hTail]

theorem refused_of_mapM (h : xs.mapM f = .error e) : ∃ x ∈ xs, f x = .error e := by
  induction xs with
  | nil => cases h
  | cons x xs ih =>
    rcases mapM_cons_eq_error_iff.mp h with hHead | ⟨_, _, hTail⟩
    · exact ⟨x, List.mem_cons_self, hHead⟩
    · obtain ⟨z, hz, hRefused⟩ := ih hTail
      exact ⟨z, List.mem_cons_of_mem x hz, hRefused⟩

theorem mapM_of_refusal {P : ε → Prop} (hRefused : ∃ x ∈ xs, ∃ e, f x = .error e)
    (hP : ∀ x ∈ xs, ∀ e, f x = .error e → P e) : ∃ e, xs.mapM f = .error e ∧ P e := by
  induction xs with
  | nil =>
    obtain ⟨x, hx, _⟩ := hRefused
    cases hx
  | cons x xs ih =>
    cases hHead : f x with
    | error e =>
      exact ⟨e, mapM_cons_eq_error_iff.mpr (.inl hHead), hP x List.mem_cons_self e hHead⟩
    | ok b =>
      obtain ⟨y, hy, e, hRefusal⟩ := hRefused
      have hTail : y ∈ xs := by
        rcases List.mem_cons.mp hy with rfl | hy
        · cases hHead.symm.trans hRefusal
        · exact hy
      obtain ⟨e, hRest, hCommon⟩ :=
        ih ⟨y, hTail, e, hRefusal⟩ fun z hz => hP z (List.mem_cons_of_mem x hz)
      exact ⟨e, mapM_cons_eq_error_iff.mpr (.inr ⟨b, hHead, hRest⟩), hCommon⟩

end

variable {f : Nat → α → Except ε β} {i : Nat} {a : α} {as : List α} {bs : List β} {e : ε}

theorem collectFrom_cons_eq_ok_iff :
    collectFrom f i (a :: as) = .ok bs ↔
      ∃ b rest, f i a = .ok b ∧ collectFrom f (i + 1) as = .ok rest ∧ bs = b :: rest := by
  rw [collectFrom]
  cases hHead : f i a with
  | error e => simp
  | ok b =>
    cases hRest : collectFrom f (i + 1) as with
    | error e => simp
    | ok rest => simp [eq_comm]

theorem collectFrom_cons_eq_error_iff :
    collectFrom f i (a :: as) = .error e ↔
      f i a = .error e ∨ ∃ b, f i a = .ok b ∧ collectFrom f (i + 1) as = .error e := by
  rw [collectFrom]
  cases hHead : f i a with
  | error e' => simp
  | ok b =>
    cases hRest : collectFrom f (i + 1) as with
    | error e' => simp
    | ok rest => simp

theorem map_of_collectFrom {g : β → α} (h : collectFrom f i as = .ok bs)
    (hInverse : ∀ i a b, f i a = .ok b → g b = a) : bs.map g = as := by
  induction as generalizing i bs with
  | nil =>
    cases h
    rfl
  | cons a as ih =>
    obtain ⟨b, rest, hHead, hRest, rfl⟩ := collectFrom_cons_eq_ok_iff.mp h
    rw [List.map_cons, hInverse i a b hHead, ih hRest]

theorem collectFrom_of_ok {g : α → β} (h : ∀ i, ∀ a ∈ as, f i a = .ok (g a)) :
    collectFrom f i as = .ok (as.map g) := by
  induction as generalizing i with
  | nil => rfl
  | cons a as ih =>
    have hRest : collectFrom f (i + 1) as = .ok (as.map g) :=
      ih fun i b hb => h i b (List.mem_cons_of_mem a hb)
    exact collectFrom_cons_eq_ok_iff.mpr ⟨g a, _, h i a List.mem_cons_self, hRest, rfl⟩

theorem collectFrom_map {γ : Type} (f : Nat → β → Except ε γ) (g : α → β) (i : Nat)
    (as : List α) : collectFrom f i (as.map g) = collectFrom (fun i a => f i (g a)) i as := by
  induction as generalizing i with
  | nil => rfl
  | cons a as ih => rw [List.map_cons, collectFrom, collectFrom, ih]

/-- If the index does not decide what an element is answered with, the answers are those of the
elements. -/
theorem collectFrom_eq_ok_iff {R : α → β → Prop} (hR : ∀ i a b, f i a = .ok b ↔ R a b) :
    collectFrom f i as = .ok bs ↔ List.Forall₂ R as bs := by
  induction as generalizing i bs with
  | nil =>
    rw [collectFrom, Except.ok.injEq, List.forall₂_nil_left_iff]
    exact eq_comm
  | cons a as ih =>
    simp only [collectFrom_cons_eq_ok_iff, List.forall₂_cons_left_iff, hR, ih]

/-- The refusal is that of an element with none but accepted ones before it. -/
theorem collectFrom_eq_error_iff :
    collectFrom f i as = .error e ↔
      ∃ before a after bs, as = before ++ a :: after ∧ collectFrom f i before = .ok bs ∧
        f (i + before.length) a = .error e := by
  constructor
  · intro h
    induction as generalizing i with
    | nil => cases h
    | cons a as ih =>
      rcases collectFrom_cons_eq_error_iff.mp h with hHead | ⟨b, hHead, hRest⟩
      · exact ⟨[], a, as, [], rfl, rfl, hHead⟩
      · obtain ⟨before, c, after, bs, rfl, hBefore, hRefused⟩ := ih hRest
        refine ⟨a :: before, c, after, b :: bs, rfl, ?_, ?_⟩
        · exact collectFrom_cons_eq_ok_iff.mpr ⟨b, bs, hHead, hBefore, rfl⟩
        · rwa [List.length_cons, Nat.add_comm before.length, ← Nat.add_assoc]
  · rintro ⟨before, a, after, bs, rfl, hBefore, hRefused⟩
    induction before generalizing i bs with
    | nil => exact collectFrom_cons_eq_error_iff.mpr (.inl hRefused)
    | cons c before ih =>
      obtain ⟨b, rest, hHead, hRest, _⟩ := collectFrom_cons_eq_ok_iff.mp hBefore
      rw [List.length_cons, Nat.add_comm before.length, ← Nat.add_assoc] at hRefused
      exact collectFrom_cons_eq_error_iff.mpr (.inr ⟨b, hHead, ih rest hRest hRefused⟩)

end FieldExtract
