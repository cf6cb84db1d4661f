import FieldExtract.Json.Items
import FieldExtract.Key.Basic

/-!
# Keys as JSON

A key is an object in the order of its selectors. A single value is a string and several values
are a list of strings. Of two members with one name, the first gives the place and the last the
value.
-/

namespace FieldExtract

def Selector.json : Selector → List Char
  | .single v => Json.literal v
  | .multi vs => Json.list (vs.map Json.literal)

def Selector.reader : Json.Reader Selector where
  read cs :=
    match Json.readLiteral cs with
    | some (v, rest) => some (.single v, rest)
    | none =>
      ((Json.enclosed '[' ']' Json.readerOfLiteral).read cs).map fun p => (.multi p.1, p.2)
  shorter := by
    intro cs rest a h
    split at h
    · next v tail hLiteral =>
      cases h
      exact Json.length_readLiteral hLiteral
    · obtain ⟨⟨_, _⟩, hList, hPair⟩ := Option.map_eq_some_iff.mp h
      cases hPair
      exact (Json.enclosed '[' ']' Json.readerOfLiteral).shorter hList

namespace Key

def toJson (k : Key) : String :=
  String.ofList (Json.object (k.pairs.map fun p => (p.1, p.2.json)))

def ofJson? (s : String) : Option Key :=
  (Json.readWhole (Json.enclosed '{' '}' (Json.member Selector.reader)) s).map ofList

end Key

end FieldExtract
