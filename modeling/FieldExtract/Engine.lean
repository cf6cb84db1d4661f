import FieldExtract.Source

/-!
# Engines

What a client needs of an engine: its version, taking on a submission, and naming the axes that
can be reached from a key. The context is for the engine's records only. An engine that is asked
twice need not answer alike, so every call yields its state afterwards.
-/

namespace FieldExtract

class Engine (ε : Type) where
  version : ε → String
  submit : ε → Submission → (context : String) → Outcome ε (Except EngineError BoundedSource)
  axes : ε → (request : String) → (level : Nat) → (context : String) →
    Outcome ε (Except EngineError (List (String × List String)))

end FieldExtract
