/-!
# Status codes of an engine

An engine answers each call with a code. Negative codes are failures; a failure carries the name
of the operation and a description, and its code need not be a known one.
-/

namespace FieldExtract

inductive Status
  | success
  | complete
  | failure
  | notFound
  | invalidArgument
  | outOfRange
  | gridHashMismatch
  | invalidHandle
  | decodeFailed
deriving DecidableEq

namespace Status

def code : Status → Int
  | .success => 0
  | .complete => 1
  | .failure => -1
  | .notFound => -2
  | .invalidArgument => -3
  | .outOfRange => -4
  | .gridHashMismatch => -5
  | .invalidHandle => -6
  | .decodeFailed => -7

def all : List Status :=
  [.success, .complete, .failure, .notFound, .invalidArgument, .outOfRange, .gridHashMismatch,
    .invalidHandle, .decodeFailed]

def ofCode? (code : Int) : Option Status := all.find? fun s => s.code == code

def isFailure (s : Status) : Bool := decide (s.code < 0)

theorem ofCode?_eq_some_iff {code : Int} {s : Status} : ofCode? code = some s ↔ s.code = code := by
  constructor
  · intro h
    simpa using List.find?_some h
  · rintro rfl
    cases s <;> rfl

end Status

structure EngineError where
  operation : String
  code : Int
  description : String
deriving DecidableEq

namespace EngineError

def ofStatus (operation : String) (status : Status) (description : String) : EngineError :=
  ⟨operation, status.code, description⟩

def status? (e : EngineError) : Option Status := Status.ofCode? e.code

theorem status?_ofStatus (operation : String) (status : Status) (description : String) :
    (ofStatus operation status description).status? = some status :=
  Status.ofCode?_eq_some_iff.mpr rfl

def message (e : EngineError) : String :=
  "engine call '" ++ e.operation ++ "' failed with status " ++ toString e.code ++ ": " ++
    e.description

end EngineError

end FieldExtract
