import FieldExtract.Selection.Basic
import FieldExtract.Text.Blank
import FieldExtract.Text.Cut
import FieldExtract.Text.Numeral

/-!
# Selections as text

A selection is written `lo-hi,lo-hi`. On reading, blanks may stand around each part and each
bound; of several faulty parts the first is reported. The total length is not checked here.
-/

namespace FieldExtract.Selection

def format (s : Selection) : String :=
  ",".intercalate (s.map fun r => toString r.lo ++ "-" ++ toString r.hi)

def parseBound (part bound : String) : Except RangeError Nat :=
  match Text.Numeral.read maxPosition (Text.trim bound) with
  | .ok n => .ok n
  | .error f => .error (.malformed part ("bad bound '" ++ bound ++ "': " ++ f.message))

def parsePart (index : Nat) (part : String) : Except RangeError Range :=
  match Text.cutFirst '-' part with
  | none => .error (.malformed part "expected 'lo-hi'")
  | some (left, right) => do
    let lo ← parseBound part left
    let hi ← parseBound part right
    Range.ofBounds index lo hi

def parse (s : String) : Except RangeError Selection :=
  let body := Text.trim s
  if body.isEmpty then .error .empty
  else collectFrom (fun i part => parsePart i (Text.trim part)) 0 (Text.cut ',' body)

end FieldExtract.Selection
