import FieldExtract.Key.Basic
import FieldExtract.Status
import FieldExtract.Text.Cut

/-!
# Keys on the wire

A key is sent as `name=value` parts joined by commas, the values of one selector joined by
slashes. Nothing is escaped. Reading skips empty parts, takes a slash as the sign of several
values and lets the last of two parts with one name win. The canonical text of a key has its parts
sorted, so that keys that differ in order alone share it.
-/

namespace FieldExtract.Key

def partText (p : String × String) : String := p.1 ++ "=" ++ p.2

def serialize (k : Key) : String :=
  ",".intercalate (k.pairs.map fun p => partText (p.1, p.2.text))

def readSelector (value : String) : Selector :=
  if '/' ∈ value.toList then .multi (Text.cut '/' value) else .single value

def readPart (part : String) : Except EngineError (String × Selector) :=
  match Text.cutFirst '=' part with
  | some (name, value) => .ok (name, readSelector value)
  | none =>
    .error (.ofStatus "parse_request" .invalidArgument ("selector '" ++ part ++ "' has no '='"))

def parse (s : String) : Except EngineError Key :=
  (((Text.cut ',' s).filter fun part => !part.isEmpty).mapM readPart).map ofList

/-- Parts are ordered by name, then by value, character by character. -/
def partLe (a b : String × String) : Bool :=
  decide (a.1 < b.1) || (a.1 == b.1 && decide (a.2 ≤ b.2))

def canonical (k : Key) : String :=
  ",".intercalate
    (((k.pairs.map fun p => (p.1, p.2.text)).mergeSort partLe).map partText)

end FieldExtract.Key
