import FieldExtract.Text.Numeral

/-!
# Numerals and the numbers they write

A numeral is one or more decimal digits, with or without a plus sign before them. It is read as the
value of its digits if that is within the limit. Otherwise reading stops at one character, the first
that is no digit or that takes the value past the limit, and the fault says which. What is printed
for a number is a numeral of it.
-/

namespace FieldExtract.Text.Numeral

variable {limit n m : Nat} {c d : Char} {cs ds rest : List Char} {f : Fault}

theorem digit?_of_isDigit (h : c.isDigit = true) : digit? c = some (c.toNat - '0'.toNat) :=
  if_pos (Char.isDigit_iff_toNat.mp h)

theorem digit?_of_not_isDigit (h : c.isDigit = false) : digit? c = none := by
  apply if_neg
  intro hBounds
  exact Bool.false_ne_true (h.symm.trans (Char.isDigit_iff_toNat.mpr hBounds))

theorem le_ofDigitChars (n : Nat) (cs : List Char) : n ≤ Nat.ofDigitChars 10 cs n := by
  induction cs generalizing n with
  | nil => exact Nat.le_refl n
  | cons c cs ih =>
    have hRest := ih (10 * n + (c.toNat - '0'.toNat))
    rw [Nat.ofDigitChars_cons]
    omega

theorem readDigits_eq_ok_iff (hn : n ≤ limit) :
    readDigits limit n cs = .ok m ↔
      (∀ c ∈ cs, c.isDigit = true) ∧ Nat.ofDigitChars 10 cs n = m ∧ m ≤ limit := by
  induction cs generalizing n with
  | nil =>
    simp only [readDigits, Except.ok.injEq, List.not_mem_nil, false_implies, implies_true,
      Nat.ofDigitChars_nil, true_and]
    exact ⟨fun h => ⟨h, h ▸ hn⟩, And.left⟩
  | cons c cs ih =>
    rw [readDigits, List.forall_mem_cons, Nat.ofDigitChars_cons]
    cases hDigit : c.isDigit with
    | false =>
      rw [digit?_of_not_isDigit hDigit]
      simp
    | true =>
      rw [digit?_of_isDigit hDigit]
      dsimp only
      split
      · next hNext => rw [ih hNext, eq_self, true_and]
      · next hPast =>
        -- The value does not come back: more digits only make it larger.
        have hGrows := le_ofDigitChars (10 * n + (c.toNat - '0'.toNat)) cs
        simp only [reduceCtorEq, false_iff]
        rintro ⟨_, rfl, hLe⟩
        omega

/-- The digits before this character can be read on from `n`, and with it they cannot. -/
structure StopsAt (limit n : Nat) (ds : List Char) (c : Char) (f : Fault) : Prop where
  digits : ∀ d ∈ ds, d.isDigit = true
  within : Nat.ofDigitChars 10 ds n ≤ limit
  cause : (c.isDigit = false ∧ f = .invalidDigit) ∨
    (c.isDigit = true ∧ limit < Nat.ofDigitChars 10 (ds ++ [c]) n ∧ f = .tooLarge)

theorem stopsAt_cons_iff :
    StopsAt limit n (d :: ds) c f ↔
      d.isDigit = true ∧ StopsAt limit (10 * n + (d.toNat - '0'.toNat)) ds c f := by
  constructor
  · rintro ⟨hDigits, hWithin, hCause⟩
    obtain ⟨hHead, hTail⟩ := List.forall_mem_cons.mp hDigits
    exact ⟨hHead, hTail, hWithin, hCause⟩
  · rintro ⟨hHead, hTail, hWithin, hCause⟩
    exact ⟨List.forall_mem_cons.mpr ⟨hHead, hTail⟩, hWithin, hCause⟩

theorem readDigits_of_stopsAt (h : StopsAt limit n ds c f) :
    readDigits limit n (ds ++ c :: rest) = .error f := by
  induction ds generalizing n with
  | nil =>
    rw [List.nil_append, readDigits]
    obtain ⟨hNone, rfl⟩ | ⟨hDigit, hPast, rfl⟩ := h.cause
    · rw [digit?_of_not_isDigit hNone]
    · rw [digit?_of_isDigit hDigit]
      exact if_neg (Nat.not_le_of_lt hPast)
  | cons d ds ih =>
    obtain ⟨hDigit, hRest⟩ := stopsAt_cons_iff.mp h
    -- All the digits together stay within the limit, so the first of them does.
    have hNext := Nat.le_trans (le_ofDigitChars _ ds) hRest.within
    rw [List.cons_append, readDigits, digit?_of_isDigit hDigit]
    exact (if_pos hNext).trans (ih hRest)

theorem exists_stopsAt (hn : n ≤ limit) (h : readDigits limit n cs = .error f) :
    ∃ ds c rest, cs = ds ++ c :: rest ∧ StopsAt limit n ds c f := by
  induction cs generalizing n with
  | nil => cases h
  | cons c cs ih =>
    rw [readDigits] at h
    cases hDigit : c.isDigit with
    | false =>
      rw [digit?_of_not_isDigit hDigit] at h
      cases h
      exact ⟨[], c, cs, rfl, by simp, hn, .inl ⟨hDigit, rfl⟩⟩
    | true =>
      rw [digit?_of_isDigit hDigit] at h
      dsimp only at h
      split at h
      · next hNext =>
        obtain ⟨ds, d, rest, rfl, hStops⟩ := ih hNext h
        exact ⟨c :: ds, d, rest, rfl, stopsAt_cons_iff.mpr ⟨hDigit, hStops⟩⟩
      · next hPast =>
        cases h
        exact ⟨[], c, cs, rfl, by simp, hn, .inr ⟨hDigit, Nat.lt_of_not_le hPast, rfl⟩⟩

theorem readDigits_eq_error_iff (hn : n ≤ limit) :
    readDigits limit n cs = .error f ↔
      ∃ ds c rest, cs = ds ++ c :: rest ∧ StopsAt limit n ds c f := by
  constructor
  · exact exists_stopsAt hn
  · rintro ⟨ds, c, rest, rfl, hStops⟩
    exact readDigits_of_stopsAt hStops

/-- What stands behind the plus sign, if the text begins with one. -/
def unsigned : List Char → List Char
  | '+' :: cs => cs
  | cs => cs

theorem unsigned_of_ne (h : c ≠ '+') : unsigned (c :: cs) = c :: cs := by
  unfold unsigned
  split
  · next hText => exact absurd (List.cons.inj hText).1 h
  · rfl

theorem readChars_eq (hSome : cs ≠ []) :
    readChars limit cs =
      if unsigned cs = [] then .error .invalidDigit else readDigits limit 0 (unsigned cs) := by
  cases cs with
  | nil => exact absurd rfl hSome
  | cons c cs =>
    by_cases hSign : c = '+'
    · subst hSign
      cases cs with
      | nil => rfl
      | cons c cs => rfl
    · rw [unsigned_of_ne hSign, if_neg (List.cons_ne_nil c cs)]
      unfold readChars
      split
      · next hText => cases hText
      · next hText => exact absurd (List.cons.inj hText).1 hSign
      · next hText => exact absurd (List.cons.inj hText).1 hSign
      · rfl

/-- Behind the sign stand one or more digits, and together they write this number. -/
structure Writes (cs : List Char) (n : Nat) : Prop where
  some : unsigned cs ≠ []
  digits : ∀ d ∈ unsigned cs, d.isDigit = true
  value : Nat.ofDigitChars 10 (unsigned cs) 0 = n

/-- Why a text writes no number within the limit. A sign alone counts as a character that is no
digit. -/
inductive Fails (limit : Nat) (cs : List Char) : Fault → Prop
  | empty (h : cs = []) : Fails limit cs .empty
  | loneSign (h : cs = ['+']) : Fails limit cs .invalidDigit
  | stops {ds rest : List Char} {c : Char} {f : Fault} (hText : unsigned cs = ds ++ c :: rest)
      (h : StopsAt limit 0 ds c f) : Fails limit cs f

theorem readChars_eq_ok_iff : readChars limit cs = .ok n ↔ Writes cs n ∧ n ≤ limit := by
  by_cases hSome : cs = []
  · subst hSome
    simp only [readChars, reduceCtorEq, false_iff]
    rintro ⟨h, _⟩
    exact h.some rfl
  · rw [readChars_eq hSome]
    split
    · next hNone =>
      simp only [reduceCtorEq, false_iff]
      rintro ⟨h, _⟩
      exact h.some hNone
    · next hDigits =>
      rw [readDigits_eq_ok_iff (Nat.zero_le limit)]
      constructor
      · rintro ⟨hAll, hValue, hLe⟩
        exact ⟨⟨hDigits, hAll, hValue⟩, hLe⟩
      · rintro ⟨⟨_, hAll, hValue⟩, hLe⟩
        exact ⟨hAll, hValue, hLe⟩

theorem eq_loneSign (hSome : cs ≠ []) (h : unsigned cs = []) : cs = ['+'] := by
  cases cs with
  | nil => exact absurd rfl hSome
  | cons c cs =>
    by_cases hSign : c = '+'
    · subst hSign
      exact congrArg ('+' :: ·) h
    · rw [unsigned_of_ne hSign] at h
      cases h

theorem readChars_eq_error_iff : readChars limit cs = .error f ↔ Fails limit cs f := by
  by_cases hSome : cs = []
  · subst hSome
    constructor
    · intro h
      cases h
      exact .empty rfl
    · rintro (_ | h | ⟨hText, _⟩)
      · rfl
      · cases h
      · exact absurd hText.symm (by simp [unsigned])
  · rw [readChars_eq hSome]
    split
    · next hNone =>
      constructor
      · intro h
        cases h
        exact .loneSign (eq_loneSign hSome hNone)
      · rintro (h | _ | ⟨hText, _⟩)
        · exact absurd h hSome
        · rfl
        · exact absurd (hNone.symm.trans hText).symm (by simp)
    · next hDigits =>
      rw [readDigits_eq_error_iff (Nat.zero_le limit)]
      constructor
      · rintro ⟨ds, c, rest, hText, hStops⟩
        exact .stops hText hStops
      · rintro (h | h | ⟨hText, hStops⟩)
        · exact absurd h hSome
        · exact absurd (congrArg unsigned h) hDigits
        · exact ⟨_, _, _, hText, hStops⟩

theorem isDigit_of_mem_toString (h : c ∈ (toString n).toList) : c.isDigit = true := by
  rw [Nat.toString_eq_repr, Nat.toList_repr] at h
  exact Nat.isDigit_of_mem_toDigits (by decide) (Nat.le_refl 10) h

/-- What is printed for a number has no sign. -/
theorem writes_toString (n : Nat) : Writes (toString n).toList n := by
  have hUnsigned : unsigned (toString n).toList = (toString n).toList := by
    cases hText : (toString n).toList with
    | nil => rfl
    | cons c cs =>
      apply unsigned_of_ne
      rintro rfl
      have hSign : '+' ∈ (toString n).toList := hText ▸ List.mem_cons_self
      exact absurd (isDigit_of_mem_toString hSign) (by decide)
  constructor
  · rw [hUnsigned, Nat.toString_eq_repr, Nat.toList_repr]
    exact Nat.toDigits_ne_nil
  · rw [hUnsigned]
    exact fun c => isDigit_of_mem_toString
  · rw [hUnsigned, Nat.toString_eq_repr, Nat.toList_repr]
    exact Nat.ofDigitChars_toDigits (by decide) (Nat.le_refl 10)

end FieldExtract.Text.Numeral
