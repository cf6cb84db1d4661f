import FieldExtract.Engine

/-!
# Scripted engines

A scripted engine takes on every call and answers it with the next entry of its script: batches of
replies for submissions, pairs for axes. Past the end of the script it answers with nothing.
-/

namespace FieldExtract

structure Script where
  version : String
  batches : List (Except EngineError (List Reply))
  axes : List (Except EngineError (List (String × List String)))

namespace Script

def submit (s : Script) (submission : Submission) (context : String) :
    Outcome Script (Except EngineError BoundedSource) :=
  let batch := s.batches.head?.getD (.ok [])
  ⟨batch.map BoundedSource.ofReplies, { s with batches := s.batches.tail },
    [.called (.submit submission) context]⟩

def answerAxes (s : Script) (request : String) (level : Nat) (context : String) :
    Outcome Script (Except EngineError (List (String × List String))) :=
  ⟨s.axes.head?.getD (.ok []), { s with axes := s.axes.tail },
    [.called (.axes request level) context]⟩

instance : Engine Script := ⟨version, submit, answerAxes⟩

end Script

end FieldExtract
