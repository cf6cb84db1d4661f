import FieldExtract.Json.Literal

/-!
# Lists and objects of JSON

Items stand between an opening and a closing bracket and are separated by commas. On writing there
are no blanks; on reading, spaces, tabs and line ends may stand around each item and bracket.
-/

namespace FieldExtract.Json

def isBlank (c : Char) : Bool := c = ' ' || c = '\t' || c = '\n' || c = '\r'

def skipBlanks (cs : List Char) : List Char := cs.dropWhile isBlank

theorem length_skipBlanks_le (cs : List Char) : (skipBlanks cs).length ≤ cs.length :=
  (List.dropWhile_sublist _).length_le

def enclose (opening closing : Char) (items : List (List Char)) : List Char :=
  opening :: ([','].intercalate items ++ [closing])

def list (items : List (List Char)) : List Char := enclose '[' ']' items

def object (members : List (String × List Char)) : List Char :=
  enclose '{' '}' (members.map fun m => literal m.1 ++ ':' :: m.2)

structure Reader (α : Type) where
  read : List Char → Option (α × List Char)
  shorter : ∀ {cs rest a}, read cs = some (a, rest) → rest.length < cs.length

def readItems {α : Type} (item : Reader α) (closing : Char) (cs : List Char) :
    Option (List α × List Char) :=
  match hItem : item.read cs with
  | none => none
  | some (a, rest) =>
    match hRest : skipBlanks rest with
    | [] => none
    | c :: tail =>
      if c = closing then some ([a], tail)
      else if c = ',' then
        have : (skipBlanks tail).length < cs.length := by
          have hShort := item.shorter hItem
          have hSkip := length_skipBlanks_le rest
          have hTail := length_skipBlanks_le tail
          rw [hRest, List.length_cons] at hSkip
          omega
        (readItems item closing (skipBlanks tail)).map fun p => (a :: p.1, p.2)
      else none
termination_by cs.length

theorem length_readItems {α : Type} {item : Reader α} {closing : Char} {cs rest : List Char}
    {as : List α} (h : readItems item closing cs = some (as, rest)) : rest.length < cs.length := by
  fun_induction readItems item closing cs generalizing as with
  | case1 => cases h
  | case2 => cases h
  | case3 cs a after hItem tail hRest =>
    cases h
    have hShort := item.shorter hItem
    have hSkip := length_skipBlanks_le after
    rw [hRest, List.length_cons] at hSkip
    omega
  | case4 cs a after hItem tail hRest _ hShorter ih =>
    obtain ⟨⟨_, _⟩, hTail, hPair⟩ := Option.map_eq_some_iff.mp h
    cases hPair
    exact Nat.lt_trans (ih hTail) hShorter
  | case5 => cases h

def readEnclosed {α : Type} (opening closing : Char) (item : Reader α) :
    List Char → Option (List α × List Char)
  | [] => none
  | c :: cs =>
    if c = opening then
      match skipBlanks cs with
      | [] => none
      | d :: ds => if d = closing then some ([], ds) else readItems item closing (d :: ds)
    else none

theorem length_readEnclosed {α : Type} {opening closing : Char} {item : Reader α}
    {cs rest : List Char} {as : List α}
    (h : readEnclosed opening closing item cs = some (as, rest)) : rest.length < cs.length := by
  cases cs with
  | nil => cases h
  | cons c cs =>
    have hSkip := length_skipBlanks_le cs
    rw [readEnclosed] at h
    split at h
    · split at h
      · cases h
      · next d ds hBlanks =>
        rw [hBlanks, List.length_cons] at hSkip
        rw [List.length_cons]
        split at h
        · cases h
          omega
        · have hItems := length_readItems h
          rw [List.length_cons] at hItems
          omega
    · cases h

def enclosed {α : Type} (opening closing : Char) (item : Reader α) : Reader (List α) :=
  ⟨readEnclosed opening closing item, length_readEnclosed⟩

def readerOfLiteral : Reader String := ⟨readLiteral, length_readLiteral⟩

/-- A name, a colon and a value. -/
def member {α : Type} (value : Reader α) : Reader (String × α) where
  read cs :=
    match readLiteral cs with
    | none => none
    | some (name, rest) =>
      match skipBlanks rest with
      | ':' :: tail => (value.read (skipBlanks tail)).map fun p => ((name, p.1), p.2)
      | _ => none
  shorter := by
    intro cs rest a h
    split at h
    · cases h
    · next name after hName =>
      have hShort := length_readLiteral hName
      have hSkip := length_skipBlanks_le after
      split at h
      · next tail hTail =>
        obtain ⟨⟨_, _⟩, hValue, hPair⟩ := Option.map_eq_some_iff.mp h
        cases hPair
        have hSkip' := length_skipBlanks_le tail
        rw [hTail, List.length_cons] at hSkip
        exact Nat.lt_trans (value.shorter hValue) (by omega)
      · cases h

/-- A whole text: one value with blanks around it and nothing else. -/
def readWhole {α : Type} (value : Reader α) (s : String) : Option α :=
  match value.read (skipBlanks s.toList) with
  | some (a, rest) => if (skipBlanks rest).isEmpty then some a else none
  | none => none

end FieldExtract.Json
