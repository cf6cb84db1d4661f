/-!
# Bounded decimal numerals

An optional plus sign and one or more decimal digits, read from left to right. The first character
that cannot be taken decides the fault: being no digit counts before leaving the range.
-/

namespace FieldExtract.Text.Numeral

inductive Fault
  | empty
  | invalidDigit
  | tooLarge
deriving DecidableEq

def Fault.message : Fault → String
  | .empty => "cannot parse integer from empty string"
  | .invalidDigit => "invalid digit found in string"
  | .tooLarge => "number too large to fit in target type"

def digit? (c : Char) : Option Nat :=
  if 48 ≤ c.toNat ∧ c.toNat ≤ 57 then some (c.toNat - 48) else none

def readDigits (limit : Nat) : Nat → List Char → Except Fault Nat
  | n, [] => .ok n
  | n, c :: cs =>
    match digit? c with
    | none => .error .invalidDigit
    | some d =>
      if 10 * n + d ≤ limit then readDigits limit (10 * n + d) cs else .error .tooLarge

def readChars (limit : Nat) : List Char → Except Fault Nat
  | [] => .error .empty
  | ['+'] => .error .invalidDigit
  | '+' :: cs => readDigits limit 0 cs
  | cs => readDigits limit 0 cs

def read (limit : Nat) (s : String) : Except Fault Nat :=
  readChars limit s.toList

example : read 255 "+0255" = .ok 255 := rfl
example : read 255 "256x" = .error .tooLarge := rfl
example : read 255 "25x6" = .error .invalidDigit := rfl

end FieldExtract.Text.Numeral
