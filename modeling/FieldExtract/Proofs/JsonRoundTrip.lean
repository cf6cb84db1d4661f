import FieldExtract.Context
import FieldExtract.Key.Json

/-!
# Keys and contexts through JSON

What is written for a character, a literal, a list or an object is read back from the front of any
text, and what follows it is left. Each piece begins with a quote or an opening bracket, so neither
a blank nor the end of its enclosure can be taken for it; by this the two forms of a selector are
told apart.
-/

namespace FieldExtract

namespace Json

theorem hexValue?_hexDigit : ∀ n < 16, hexValue? (hexDigit n) = some n := by decide

theorem readHex_of_lt {n : Nat} (h : n < 256) (rest : List Char) :
    readHex ('0' :: '0' :: hexDigit (n / 16) :: hexDigit (n % 16) :: rest) = some (n, rest) := by
  have hZero : hexValue? '0' = some 0 := rfl
  have hHigh := hexValue?_hexDigit (n / 16) (by omega)
  have hLow := hexValue?_hexDigit (n % 16) (by omega)
  simp only [readHex, hZero, hHigh, hLow]
  congr 2
  omega

/-- A control character is no half of a pair. -/
theorem readUnicode_of_control {c : Char} (h : c.toNat < 32) (rest : List Char) :
    readUnicode ('0' :: '0' :: hexDigit (c.toNat / 16) :: hexDigit (c.toNat % 16) :: rest) =
      some (c, rest) := by
  have hLeading : isLeading c.toNat = false := by
    simp only [isLeading, Bool.and_eq_false_iff, decide_eq_false_iff_not]
    omega
  have hTrailing : isTrailing c.toNat = false := by
    simp only [isTrailing, Bool.and_eq_false_iff, decide_eq_false_iff_not]
    omega
  simp only [readUnicode, readHex_of_lt (Nat.lt_trans h (by decide)), hLeading, hTrailing,
    Bool.false_eq_true, if_false, Char.ofNat_toNat]

/-- What is written for a character does not begin with a quote, and that character is read. -/
theorem escape_eq (c : Char) :
    ∃ d ds, escape c = d :: ds ∧ d ≠ '"' ∧ ∀ rest, readChar (d :: (ds ++ rest)) = some (c, rest) := by
  unfold escape
  split
  · next h =>
    subst h
    exact ⟨'\\', _, rfl, by decide, fun _ => rfl⟩
  · next hQuote =>
    split
    · next h =>
      subst h
      exact ⟨'\\', _, rfl, by decide, fun _ => rfl⟩
    · next hSlash =>
      -- five control characters have a name, the others are written by number
      split
      · next h => exact ⟨'\\', _, rfl, by decide, fun _ => h ▸ rfl⟩
      split
      · next h => exact ⟨'\\', _, rfl, by decide, fun _ => h ▸ rfl⟩
      split
      · next h => exact ⟨'\\', _, rfl, by decide, fun _ => h ▸ rfl⟩
      split
      · next h => exact ⟨'\\', _, rfl, by decide, fun _ => h ▸ rfl⟩
      split
      · next h => exact ⟨'\\', _, rfl, by decide, fun _ => h ▸ rfl⟩
      split
      · next h => exact ⟨'\\', _, rfl, by decide, readUnicode_of_control h⟩
      · next h =>
        refine ⟨c, [], rfl, hQuote, fun rest => ?_⟩
        rw [List.nil_append, readChar, if_neg hSlash, if_neg h]

theorem readBody_of_readChar {d c : Char} {ds rest : List Char} (hQuote : d ≠ '"')
    (hChar : readChar (d :: ds) = some (c, rest)) :
    readBody (d :: ds) = (readBody rest).map fun p => (c :: p.1, p.2) := by
  rw [readBody, if_neg hQuote]
  split
  · next hNone => cases hNone.symm.trans hChar
  · next hSome =>
    cases hSome.symm.trans hChar
    rfl

theorem readBody_escaped (cs rest : List Char) :
    readBody (cs.flatMap escape ++ '"' :: rest) = some (cs, rest) := by
  induction cs with
  | nil =>
    rw [List.flatMap_nil, List.nil_append, readBody]
    rfl
  | cons c cs ih =>
    obtain ⟨d, ds, hEscape, hQuote, hChar⟩ := escape_eq c
    rw [List.flatMap_cons, List.append_assoc, hEscape, List.cons_append,
      readBody_of_readChar hQuote (hChar _), ih]
    rfl

theorem readLiteral_literal (s : String) (rest : List Char) :
    readLiteral (literal s ++ rest) = some (s, rest) := by
  rw [literal, List.cons_append, List.append_assoc, List.singleton_append, readLiteral,
    readBody_escaped]
  simp only [Option.map_some, String.ofList_toList]

/-- The reader takes this text for this value, whatever follows. -/
structure Reader.Undoes {α : Type} (r : Reader α) (text : List Char) (a : α) : Prop where
  opens : ∃ c cs, text = c :: cs ∧ c ∈ ['"', '[', '\x7b']
  reads : ∀ rest, r.read (text ++ rest) = some (a, rest)

namespace Reader.Undoes

variable {α : Type} {r : Reader α} {text : List Char} {a : α}

theorem skipBlanks_eq (h : r.Undoes text a) (rest : List Char) :
    skipBlanks (text ++ rest) = text ++ rest := by
  obtain ⟨c, cs, rfl, hOpens⟩ := h.opens
  have hBlank : ¬isBlank c := by
    simp only [List.mem_cons, List.not_mem_nil, or_false] at hOpens
    rcases hOpens with rfl | rfl | rfl <;> decide
  exact List.dropWhile_cons_of_neg hBlank

theorem readWhole_eq (h : r.Undoes text a) : readWhole r (String.ofList text) = some a := by
  have hReads := h.reads []
  have hStart := h.skipBlanks_eq []
  rw [List.append_nil] at hReads hStart
  rw [readWhole, String.toList_ofList, hStart, hReads]
  rfl

end Reader.Undoes

theorem undoes_literal (s : String) : readerOfLiteral.Undoes (literal s) s :=
  ⟨⟨'"', _, rfl, by decide⟩, readLiteral_literal s⟩

section

variable {α : Type} {item : Reader α} {closing : Char} {a : α} {cs tail : List Char}

theorem readItems_of_last (hItem : item.read cs = some (a, closing :: tail))
    (hBlank : ¬isBlank closing) : readItems item closing cs = some ([a], tail) := by
  have hRest : skipBlanks (closing :: tail) = closing :: tail :=
    List.dropWhile_cons_of_neg hBlank
  rw [readItems]
  split
  · next hNone => cases hNone.symm.trans hItem
  · next hSome =>
    cases hSome.symm.trans hItem
    split
    · next hNil => cases hNil.symm.trans hRest
    · next hCons =>
      cases hCons.symm.trans hRest
      exact if_pos rfl

theorem readItems_of_more (hItem : item.read cs = some (a, ',' :: tail))
    (hComma : ',' ≠ closing) (hTail : skipBlanks tail = tail) :
    readItems item closing cs = (readItems item closing tail).map fun p => (a :: p.1, p.2) := by
  have hRest : skipBlanks (',' :: tail) = ',' :: tail := List.dropWhile_cons_of_neg (by decide)
  rw [readItems]
  split
  · next hNone => cases hNone.symm.trans hItem
  · next hSome =>
    cases hSome.symm.trans hItem
    split
    · next hNil => cases hNil.symm.trans hRest
    · next hCons =>
      cases hCons.symm.trans hRest
      rw [if_neg hComma, if_pos rfl, hTail]

variable {write : α → List Char}

theorem exists_written_eq (write : α → List Char) (a : α) (as : List α) (tail : List Char) :
    ∃ later, [','].intercalate ((a :: as).map write) ++ tail = write a ++ later := by
  cases as with
  | nil => exact ⟨tail, by rw [List.map_singleton, List.intercalate_singleton]⟩
  | cons b as =>
    refine ⟨',' :: ([','].intercalate ((b :: as).map write) ++ tail), ?_⟩
    rw [List.map_cons, List.map_cons, List.intercalate_cons_cons, List.append_assoc,
      List.append_assoc, List.singleton_append]

theorem skipBlanks_written {as : List α} (h : item.Undoes (write a) a) (tail : List Char) :
    skipBlanks ([','].intercalate ((a :: as).map write) ++ tail) =
      [','].intercalate ((a :: as).map write) ++ tail := by
  obtain ⟨later, hLater⟩ := exists_written_eq write a as tail
  rw [hLater]
  exact h.skipBlanks_eq later

theorem readItems_written (hClosing : closing = ']' ∨ closing = '\x7d') {as : List α}
    (hWrite : ∀ b ∈ a :: as, item.Undoes (write b) b) (rest : List Char) :
    readItems item closing ([','].intercalate ((a :: as).map write) ++ closing :: rest) =
      some (a :: as, rest) := by
  induction as generalizing a with
  | nil =>
    have hBlank : ¬isBlank closing := by rcases hClosing with rfl | rfl <;> decide
    rw [List.map_singleton, List.intercalate_singleton]
    exact readItems_of_last ((hWrite a List.mem_cons_self).reads _) hBlank
  | cons b as ih =>
    have hComma : ',' ≠ closing := by rcases hClosing with rfl | rfl <;> decide
    have hNext := hWrite b (List.mem_cons_of_mem a List.mem_cons_self)
    have hRest := ih fun c hc => hWrite c (List.mem_cons_of_mem a hc)
    have hItem := (hWrite a List.mem_cons_self).reads
      (',' :: ([','].intercalate ((b :: as).map write) ++ closing :: rest))
    rw [List.map_cons, List.map_cons, List.intercalate_cons_cons, List.append_assoc,
      List.append_assoc, List.singleton_append, ← List.map_cons,
      readItems_of_more hItem hComma (skipBlanks_written hNext _), hRest]
    rfl

theorem undoes_enclosed {opening : Char} {as : List α} (hOpening : opening ∈ ['[', '\x7b'])
    (hClosing : closing = ']' ∨ closing = '\x7d') (hWrite : ∀ b ∈ as, item.Undoes (write b) b) :
    (enclosed opening closing item).Undoes (enclose opening closing (as.map write)) as := by
  refine ⟨⟨opening, _, rfl, List.mem_cons_of_mem _ hOpening⟩, fun rest => ?_⟩
  have hText : enclose opening closing (as.map write) ++ rest =
      opening :: ([','].intercalate (as.map write) ++ closing :: rest) := by
    rw [enclose, List.cons_append, List.append_assoc, List.singleton_append]
  simp only [hText, enclosed, readEnclosed, if_true]
  cases as with
  | nil =>
    have hBlank : ¬isBlank closing := by rcases hClosing with rfl | rfl <;> decide
    have hEnd : skipBlanks ([','].intercalate ([].map write) ++ closing :: rest) =
        closing :: rest := List.dropWhile_cons_of_neg hBlank
    rw [hEnd]
    exact if_pos rfl
  | cons a as =>
    have hFirst := hWrite a List.mem_cons_self
    have hItems := readItems_written hClosing hWrite rest
    obtain ⟨later, hLater⟩ := exists_written_eq write a as (closing :: rest)
    obtain ⟨c, cs, hStart, hOpens⟩ := hFirst.opens
    have hOther : c ≠ closing := by
      rintro rfl
      rcases hClosing with rfl | rfl <;> exact absurd hOpens (by decide)
    rw [skipBlanks_written hFirst]
    rw [hLater, hStart, List.cons_append] at hItems ⊢
    exact (if_neg hOther).trans hItems

theorem undoes_member {value : Reader α} {text : List Char} (h : value.Undoes text a)
    (name : String) : (member value).Undoes (literal name ++ ':' :: text) (name, a) := by
  refine ⟨⟨'"', _, rfl, by decide⟩, fun rest => ?_⟩
  have hColon : ∀ cs, skipBlanks (':' :: cs) = ':' :: cs := fun cs =>
    List.dropWhile_cons_of_neg (by decide)
  simp only [member, List.append_assoc, readLiteral_literal, List.cons_append, hColon,
    h.skipBlanks_eq, h.reads, Option.map_some]

end

end Json

namespace Selector

theorem undoes_json (s : Selector) : reader.Undoes s.json s := by
  cases s with
  | single v =>
    refine ⟨(Json.undoes_literal v).opens, fun rest => ?_⟩
    simp only [reader, json, Json.readLiteral_literal]
  | multi vs =>
    have hList : (Json.enclosed '[' ']' Json.readerOfLiteral).Undoes (json (.multi vs)) vs :=
      Json.undoes_enclosed (by decide) (.inl rfl) fun v _ => Json.undoes_literal v
    refine ⟨hList.opens, fun rest => ?_⟩
    have hBracket : Json.readLiteral (json (.multi vs) ++ rest) = none := rfl
    simp only [reader, hBracket, hList.reads, Option.map_some]

end Selector

/-- A context is written as the key that selects each of its values. -/
theorem Context.toJson_eq (c : Context) :
    c.toJson = Key.toJson ⟨c.entries.mapValues .single⟩ := by
  rw [toJson, Key.toJson, Key.pairs, OrderedMap.mapValues, List.map_map]
  rfl

namespace Key

/-- Members are read in the order in which they are written, repeated names and all. -/
theorem readWhole_object (pairs : List (String × Selector)) :
    Json.readWhole (Json.enclosed '\x7b' '\x7d' (Json.member Selector.reader))
      (String.ofList (Json.object (pairs.map fun p => (p.1, p.2.json)))) = some pairs := by
  apply Json.Reader.Undoes.readWhole_eq
  rw [Json.object, List.map_map]
  exact Json.undoes_enclosed (by decide) (.inr rfl) fun p _ =>
    Json.undoes_member p.2.undoes_json p.1

theorem ofJson?_toJson (k : Key) : ofJson? k.toJson = some k := by
  rw [ofJson?, toJson, readWhole_object, Option.map_some, ofList, pairs, OrderedMap.ofList_entries]

/-- Names and values may hold any character, and a selector any number of values. -/
theorem json_round_trip :
    (∀ k : Key, ofJson? k.toJson = some k) ∧
      ∀ c : Context, ∃ k, ofJson? c.toJson = some k ∧
        k.pairs = c.entries.entries.map fun e => (e.1, .single e.2) := by
  refine ⟨ofJson?_toJson, fun c => ⟨⟨c.entries.mapValues .single⟩, ?_, rfl⟩⟩
  rw [c.toJson_eq, ofJson?_toJson]

end Key

end FieldExtract
