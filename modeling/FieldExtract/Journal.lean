import FieldExtract.DecodeError
import FieldExtract.Request

/-!
# The journal of a client

Everything a client does to an engine, and every event it reports, is one entry of a journal. What
an engine has counted or received so far is read off the journal.
-/

namespace FieldExtract

inductive Action
  | extract
  | extractFromPaths
  | extractSingle
  | axes
deriving DecidableEq

def Action.name : Action → String
  | .extract => "extract"
  | .extractFromPaths => "extract_from_paths"
  | .extractSingle => "extract_single"
  | .axes => "axes"

inductive Level
  | debug
  | info
  | warn
deriving DecidableEq

inductive FieldValue
  | text (s : String)
  | number (n : Int)
deriving DecidableEq

inductive Event
  | gridHashSuppressed (action : Action) (requests : Nat)
  | batchSubmitted (action : Action) (requests : Nat)
  | keySubmitted (action : Action) (fields : Nat)
  | callFailed (action : Action) (e : EngineError)
  | sourceFailed (action : Action) (position : Nat) (e : EngineError)
  | countMismatch (action : Action) (expected yielded : Nat)
  | extractionComplete (action : Action) (yielded : Nat)
  | axesDiscovered (level keys : Nat)
  | shapeMismatch (m : ShapeMismatch)
deriving DecidableEq

namespace Event

def level : Event → Level
  | .gridHashSuppressed .. | .batchSubmitted .. | .keySubmitted .. => .info
  | .extractionComplete .. | .axesDiscovered .. => .debug
  | .callFailed .. | .sourceFailed .. | .countMismatch .. | .shapeMismatch .. => .warn

/-- The stream to which all events go. -/
def stream : String := "gribjump"

def name : Event → String
  | .gridHashSuppressed .. => "grid_hash_suppressed"
  | .batchSubmitted .. | .keySubmitted .. => "batch_submitted"
  | .callFailed .. | .sourceFailed .. => "engine_failure"
  | .countMismatch .. => "result_count_mismatch"
  | .extractionComplete .. => "extraction_complete"
  | .axesDiscovered .. => "axes_discovered"
  | .shapeMismatch .. => "shape_mismatch"

def component : Event → String
  | .gridHashSuppressed .. | .batchSubmitted .. | .keySubmitted .. | .callFailed .. => "client"
  | .sourceFailed .. | .countMismatch .. | .extractionComplete .. => "iterator"
  | .axesDiscovered .. => "axes"
  | .shapeMismatch .. => "decode"

def details : Event → List (String × FieldValue)
  | .gridHashSuppressed action requests | .batchSubmitted action requests =>
    [("action", .text action.name), ("requests", .number requests)]
  | .keySubmitted action fields => [("action", .text action.name), ("fields", .number fields)]
  | .callFailed action e =>
    [("action", .text action.name), ("operation", .text e.operation), ("code", .number e.code),
      ("message", .text e.description)]
  | .sourceFailed action position e =>
    [("action", .text action.name), ("position", .number position), ("code", .number e.code),
      ("message", .text e.description)]
  | .countMismatch action expected yielded =>
    [("action", .text action.name), ("expected", .number expected), ("yielded", .number yielded)]
  | .extractionComplete action yielded =>
    [("action", .text action.name), ("yielded", .number yielded)]
  | .axesDiscovered level keys => [("axes_level", .number level), ("keys", .number keys)]
  | .shapeMismatch m =>
    [("buffer", .text m.buffer.name), ("expected", .number m.expected),
      ("actual", .number m.actual)]

def fields (e : Event) : List (String × FieldValue) :=
  ("event", .text e.name) :: ("component", .text e.component) :: e.details

end Event

/-- What a client hands to an engine for extraction. -/
inductive Submission
  | keys (requests : List KeyRequest)
  | paths (requests : List PathRequest)
  | single (request : String) (bounds : List Nat) (gridHash : Option String)

def Submission.action : Submission → Action
  | .keys _ => .extract
  | .paths _ => .extractFromPaths
  | .single .. => .extractSingle

/-- A call that an engine has taken on. -/
inductive Call
  | submit (submission : Submission)
  | axes (request : String) (level : Nat)

/-- An advance of a source tells whether a handle was handed out. -/
inductive Entry
  | called (call : Call) (context : String)
  | advanced (handed : Bool)
  | loaded (buffer : BufferKind)
  | resultReleased
  | sourceReleased
  | reported (event : Event)

abbrev Journal := List Entry

namespace Journal

structure Counts where
  submissions : Nat
  advances : Nat
  handles : Nat
  valueLoads : Nat
  maskLoads : Nat
  axesCalls : Nat
  resultsReleased : Nat
  sourcesReleased : Nat
deriving DecidableEq

def calls (j : Journal) : List (Call × String) :=
  j.filterMap fun
    | .called call context => some (call, context)
    | _ => none

def contexts (j : Journal) : List String := j.calls.map Prod.snd

def events (j : Journal) : List Event :=
  j.filterMap fun
    | .reported event => some event
    | _ => none

def counts (j : Journal) : Counts where
  submissions := j.countP fun | .called (.submit _) _ => true | _ => false
  advances := j.countP fun | .advanced _ => true | _ => false
  handles := j.countP fun | .advanced true => true | _ => false
  valueLoads := j.countP fun | .loaded .values => true | _ => false
  maskLoads := j.countP fun | .loaded .mask => true | _ => false
  axesCalls := j.countP fun | .called (.axes ..) _ => true | _ => false
  resultsReleased := j.countP fun | .resultReleased => true | _ => false
  sourcesReleased := j.countP fun | .sourceReleased => true | _ => false

namespace Counts

def zero : Counts := ⟨0, 0, 0, 0, 0, 0, 0, 0⟩

instance : Add Counts where
  add a b :=
    { submissions := a.submissions + b.submissions
      advances := a.advances + b.advances
      handles := a.handles + b.handles
      valueLoads := a.valueLoads + b.valueLoads
      maskLoads := a.maskLoads + b.maskLoads
      axesCalls := a.axesCalls + b.axesCalls
      resultsReleased := a.resultsReleased + b.resultsReleased
      sourcesReleased := a.sourcesReleased + b.sourcesReleased }

theorem zero_add (c : Counts) : zero + c = c := by
  change Counts.mk (0 + _) (0 + _) (0 + _) (0 + _) (0 + _) (0 + _) (0 + _) (0 + _) = c
  simp only [Nat.zero_add]

theorem add_zero (c : Counts) : c + zero = c := rfl

end Counts

theorem counts_append (j k : Journal) : Journal.counts (j ++ k) = j.counts + k.counts := by
  simp only [counts, List.countP_append]
  rfl

theorem calls_append (j k : Journal) : Journal.calls (j ++ k) = j.calls ++ k.calls :=
  List.filterMap_append

theorem contexts_append (j k : Journal) :
    Journal.contexts (j ++ k) = j.contexts ++ k.contexts := by
  rw [contexts, calls_append, List.map_append]
  rfl

theorem events_append (j k : Journal) : Journal.events (j ++ k) = j.events ++ k.events :=
  List.filterMap_append

theorem advances_append (j k : Journal) :
    (Journal.counts (j ++ k)).advances = j.counts.advances + k.counts.advances :=
  congrArg Counts.advances (counts_append j k)

end Journal

/-- What a step leaves behind: its answer, the state after it, and the entries it adds. -/
structure Outcome (σ α : Type) where
  answer : α
  state : σ
  journal : Journal

namespace Outcome

variable {σ α β : Type}

def map (f : α → β) (o : Outcome σ α) : Outcome σ β :=
  ⟨f o.answer, o.state, o.journal⟩

@[simp] theorem map_answer (f : α → β) (o : Outcome σ α) : (o.map f).answer = f o.answer := rfl

@[simp] theorem map_state (f : α → β) (o : Outcome σ α) : (o.map f).state = o.state := rfl

@[simp] theorem map_journal (f : α → β) (o : Outcome σ α) : (o.map f).journal = o.journal := rfl

end Outcome

end FieldExtract
