import FieldExtract.Status

/-!
# Failures of decoding one result

Either the engine refuses to load a buffer, or the buffer it loads does not have the length that
the shape of the request asks for.
-/

namespace FieldExtract

inductive BufferKind
  | values
  | mask
deriving DecidableEq

def BufferKind.name : BufferKind → String
  | .values => "values"
  | .mask => "mask"

structure ShapeMismatch where
  buffer : BufferKind
  expected : Nat
  actual : Nat
deriving DecidableEq

def ShapeMismatch.message (m : ShapeMismatch) : String :=
  m.buffer.name ++ " buffer holds " ++ toString m.actual ++ " elements, request shape expects " ++
    toString m.expected

inductive DecodeError
  | engine (e : EngineError)
  | shape (m : ShapeMismatch)
deriving DecidableEq

def DecodeError.message : DecodeError → String
  | .engine e => e.message
  | .shape m => m.message

end FieldExtract
