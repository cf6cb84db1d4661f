/-!
# String literals of JSON

Writing escapes the quote, the backslash and the control characters, by name where JSON has one.
Reading takes every escape of RFC 8259 and refuses raw control characters and surrogates that are
not part of a pair.
-/

namespace FieldExtract.Json

def hexDigit (n : Nat) : Char := Char.ofNat (if n < 10 then 48 + n else 87 + n)

def escape (c : Char) : List Char :=
  if c = '"' then ['\\', '"']
  else if c = '\\' then ['\\', '\\']
  else if c = '\x08' then ['\\', 'b']
  else if c = '\t' then ['\\', 't']
  else if c = '\n' then ['\\', 'n']
  else if c = '\x0c' then ['\\', 'f']
  else if c = '\r' then ['\\', 'r']
  else if c.toNat < 32 then
    ['\\', 'u', '0', '0', hexDigit (c.toNat / 16), hexDigit (c.toNat % 16)]
  else [c]

def literal (s : String) : List Char := '"' :: (s.toList.flatMap escape ++ ['"'])

def hexValue? (c : Char) : Option Nat :=
  if 48 ≤ c.toNat ∧ c.toNat ≤ 57 then some (c.toNat - 48)
  else if 97 ≤ c.toNat ∧ c.toNat ≤ 102 then some (c.toNat - 87)
  else if 65 ≤ c.toNat ∧ c.toNat ≤ 70 then some (c.toNat - 55)
  else none

def readHex : List Char → Option (Nat × List Char)
  | a :: b :: c :: d :: rest =>
    match hexValue? a, hexValue? b, hexValue? c, hexValue? d with
    | some a, some b, some c, some d => some (a * 4096 + b * 256 + c * 16 + d, rest)
    | _, _, _, _ => none
  | _ => none

def isLeading (n : Nat) : Bool := decide (0xd800 ≤ n) && decide (n < 0xdc00)

def isTrailing (n : Nat) : Bool := decide (0xdc00 ≤ n) && decide (n < 0xe000)

/-- The character of a four-digit escape; a leading surrogate needs a trailing one behind it. -/
def readUnicode (cs : List Char) : Option (Char × List Char) :=
  match readHex cs with
  | none => none
  | some (n, rest) =>
    if isLeading n then
      match rest with
      | '\\' :: 'u' :: rest =>
        match readHex rest with
        | none => none
        | some (m, rest) =>
          if isTrailing m then
            some (Char.ofNat (0x10000 + (n - 0xd800) * 0x400 + (m - 0xdc00)), rest)
          else none
      | _ => none
    else if isTrailing n then none
    else some (Char.ofNat n, rest)

def namedEscape? (c : Char) : Option Char :=
  if c = '"' ∨ c = '\\' ∨ c = '/' then some c
  else if c = 'b' then some '\x08'
  else if c = 'f' then some '\x0c'
  else if c = 'n' then some '\n'
  else if c = 'r' then some '\r'
  else if c = 't' then some '\t'
  else none

def readEscape : List Char → Option (Char × List Char)
  | [] => none
  | c :: cs => if c = 'u' then readUnicode cs else (namedEscape? c).map fun d => (d, cs)

def readChar : List Char → Option (Char × List Char)
  | [] => none
  | c :: cs =>
    if c = '\\' then readEscape cs else if c.toNat < 32 then none else some (c, cs)

theorem length_readHex {cs rest : List Char} {n : Nat} (h : readHex cs = some (n, rest)) :
    rest.length < cs.length := by
  unfold readHex at h
  split at h
  · split at h
    · cases h
      simp only [List.length_cons]
      omega
    · cases h
  · cases h

theorem length_readUnicode {cs rest : List Char} {c : Char}
    (h : readUnicode cs = some (c, rest)) : rest.length < cs.length := by
  unfold readUnicode at h
  split at h
  · cases h
  · next n first hFirst =>
    have hLength := length_readHex hFirst
    split at h
    · split at h
      · split at h
        · cases h
        · next m second hSecond =>
          have hLength' := length_readHex hSecond
          split at h
          · obtain ⟨_, rfl⟩ := Prod.mk.injEq .. ▸ Option.some.inj h
            simp only [List.length_cons] at hLength
            omega
          · cases h
      · cases h
    · split at h
      · cases h
      · obtain ⟨_, rfl⟩ := Prod.mk.injEq .. ▸ Option.some.inj h
        exact hLength

theorem length_readChar {cs rest : List Char} {c : Char} (h : readChar cs = some (c, rest)) :
    rest.length < cs.length := by
  unfold readChar at h
  split at h
  · cases h
  · next d ds =>
    split at h
    · unfold readEscape at h
      split at h
      · cases h
      · split at h
        · have := length_readUnicode h
          simp only [List.length_cons]
          omega
        · obtain ⟨_, _, hRest⟩ := Option.map_eq_some_iff.mp h
          cases hRest
          simp only [List.length_cons]
          omega
    · split at h
      · cases h
      · cases h
        simp

/-- The rest of a literal after its opening quote. -/
def readBody (cs : List Char) : Option (List Char × List Char) :=
  match cs with
  | [] => none
  | d :: ds =>
    if d = '"' then some ([], ds)
    else
      match h : readChar (d :: ds) with
      | none => none
      | some (c, rest) =>
        have := length_readChar h
        (readBody rest).map fun p => (c :: p.1, p.2)
termination_by cs.length
decreasing_by assumption

def readLiteral : List Char → Option (String × List Char)
  | '"' :: cs => (readBody cs).map fun p => (String.ofList p.1, p.2)
  | _ => none

theorem length_readBody {cs rest s : List Char} (h : readBody cs = some (s, rest)) :
    rest.length < cs.length := by
  fun_induction readBody cs generalizing s with
  | case1 => cases h
  | case2 =>
    cases h
    simp
  | case3 => cases h
  | case4 d ds _ c tail hChar hShort ih =>
    obtain ⟨⟨_, _⟩, hTail, hPair⟩ := Option.map_eq_some_iff.mp h
    cases hPair
    exact Nat.lt_trans (ih hTail) hShort

theorem length_readLiteral {cs rest : List Char} {s : String}
    (h : readLiteral cs = some (s, rest)) : rest.length < cs.length := by
  unfold readLiteral at h
  split at h
  · obtain ⟨⟨_, _⟩, hBody, hPair⟩ := Option.map_eq_some_iff.mp h
    cases hPair
    exact Nat.lt_trans (length_readBody hBody) (by simp)
  · cases h

end FieldExtract.Json
