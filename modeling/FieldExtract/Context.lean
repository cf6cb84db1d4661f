import FieldExtract.Json.Items
import FieldExtract.OrderedMap

/-!
# Contexts

Every call to an engine carries entries that say who makes it. The caller's entries come first and
win over the defaults; the engine receives all of them as one JSON object.
-/

namespace FieldExtract

/-- Who runs the client, and where. -/
structure Identity where
  user : String
  host : String

/-- The first of the usual variables that is set and not empty. -/
def Identity.userOfLookup (lookup : String → Option String) : String :=
  (["USER", "USERNAME", "LOGNAME"].findSome? fun name =>
    (lookup name).filter fun value => !value.isEmpty).getD "unknown"

structure Context where
  entries : OrderedMap String String
deriving DecidableEq

namespace Context

def clientVersion : String := "0.3.0"

def empty : Context := ⟨OrderedMap.empty⟩

def ofList (entries : List (String × String)) : Context := ⟨OrderedMap.ofList entries⟩

def set (c : Context) (name value : String) : Context := ⟨c.entries.insert name value⟩

def get? (c : Context) (name : String) : Option String := c.entries.get? name

def size (c : Context) : Nat := c.entries.size

def same (a b : Context) : Bool := a.entries.same b.entries

def defaults (source action engineVersion : String) (who : Identity) : Context :=
  ofList
    [("source", source), ("action", action), ("client_version", clientVersion),
      ("engine_version", engineVersion), ("user", who.user), ("hostname", who.host)]

def mergedOver (c base : Context) : Context :=
  ⟨base.entries.entries.foldl (fun m e => m.insertIfNew e.1 e.2) c.entries⟩

def toJson (c : Context) : String :=
  String.ofList (Json.object (c.entries.entries.map fun e => (e.1, Json.literal e.2)))

end Context

end FieldExtract
