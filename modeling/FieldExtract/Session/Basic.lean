import FieldExtract.Client
import FieldExtract.Session.Slots

/-!
# Sessions

A session is one engine with everything that has been opened on it: iterators, results, and the
sources and handles of calls made to the engine directly. Each command treats one of them and adds
what it does to the journal of the session.
-/

namespace FieldExtract

/-- The calls of a client that open an iterator. -/
inductive Extraction
  | batch (requests : List KeyRequest)
  | paths (requests : List PathRequest)
  | single (key : Key) (pairs : List (Nat × Nat)) (gridHash : Option String)
  | fromRanges (keys : List Key) (pairs : List (Nat × Nat)) (gridHash : Option String)
  | fromMask (keys : List Key) (mask : List Bool) (gridHash : Option String)
  | fromPoints (keys : List Key) (points : List Nat) (gridHash : Option String)

def Client.openIterator {ε : Type} [Engine ε] (c : Client) (x : Extraction)
    (context : Option Context) (e : ε) : Outcome ε (Except ClientError BoundedIterator) :=
  match x with
  | .batch requests => c.extract requests context e
  | .paths requests => c.extractFromPaths requests context e
  | .single key pairs gridHash => c.extractSingle key pairs gridHash context e
  | .fromRanges keys pairs gridHash => c.extractFromRanges keys pairs gridHash context e
  | .fromMask keys mask gridHash => c.extractFromMask keys mask gridHash context e
  | .fromPoints keys points gridHash => c.extractFromPoints keys points gridHash context e

inductive Command
  | extract (x : Extraction) (context : Option Context)
  | axes (key : Key) (level : Option Nat) (context : Option Context)
  | discover (key : Key) (level : Nat) (context : String)
  | next (iterator : SlotRef)
  | dumpValues (iterator : SlotRef)
  | dumpNested (iterator : SlotRef)
  | dropIterator (iterator : SlotRef)
  | access (result : SlotRef) (accessor : Result.Accessor)
  | dropResult (result : SlotRef)
  | engineSubmit (submission : Submission) (context : String)
  | engineAxes (request : String) (level : Nat) (context : String)
  | sourceNext (source : SlotRef)
  | dropSource (source : SlotRef)
  | handleLoad (handle : SlotRef)
  | dropHandle (handle : SlotRef)

inductive Answer
  | noSlot
  | dropped
  | opened (slot : Nat) (expected : Option Nat)
  | refused (e : ClientError)
  | engineFailed (e : EngineError)
  | undecoded (e : DecodeError)
  | axes (found : Axes)
  | axisPairs (pairs : List (String × List String))
  | item (result : Option (Nat × Shape)) (finished : Bool) (yielded : Nat)
  | itemFailed (e : ClientError) (finished : Bool) (yielded : Nat)
  | values (dump : List (List (List Sample)))
  | nested (dump : List (List (List (List Sample × List UInt64))))
  | reading (r : Result.Reading)
  | sourceOpened (slot : Nat)
  | handle (slot : Option Nat)
  | buffers (values : List Sample) (mask : List UInt64)

structure Session (ε : Type) where
  engine : ε
  iterators : Slots BoundedIterator
  results : Slots Result
  sources : Slots Feed
  handles : Slots Handle
  journal : Journal

namespace Session

variable {ε : Type}

def start (engine : ε) : Session ε :=
  ⟨engine, Slots.empty, Slots.empty, Slots.empty, Slots.empty, []⟩

def record (s : Session ε) (entries : Journal) : Session ε :=
  { s with journal := s.journal ++ entries }

def nextResult (s : Session ε) (ref : SlotRef) : Answer × Session ε :=
  match s.iterators.get? ref with
  | none => (.noSlot, s)
  | some it =>
    let o := it.next
    let after := { s with iterators := s.iterators.put ref o.state }.record o.journal
    match o.answer with
    | none => (.item none o.state.isFinished o.state.yielded, after)
    | some (.error e) => (.itemFailed e o.state.isFinished o.state.yielded, after)
    | some (.ok r) =>
      (.item (some (s.results.size, r.shape)) o.state.isFinished o.state.yielded,
        { after with results := s.results.add r })

def dump {α : Type} (s : Session ε) (ref : SlotRef)
    (run : BoundedIterator → Except ClientError α × Journal) (answer : α → Answer) :
    Answer × Session ε :=
  match s.iterators.get? ref with
  | none => (.noSlot, s)
  | some it =>
    let after := { s with iterators := s.iterators.clear ref }.record (run it).2
    match (run it).1 with
    | .error e => (.refused e, after)
    | .ok a => (answer a, after)

def dropIterator (s : Session ε) (ref : SlotRef) : Answer × Session ε :=
  match s.iterators.get? ref with
  | none => (.noSlot, s)
  | some it => (.dropped, { s with iterators := s.iterators.clear ref }.record it.release)

def accessResult (s : Session ε) (ref : SlotRef) (accessor : Result.Accessor) :
    Answer × Session ε :=
  match s.results.get? ref with
  | none => (.noSlot, s)
  | some r =>
    let o := r.access accessor
    let after := { s with results := s.results.put ref o.state }.record o.journal
    match o.answer with
    | .error e => (.undecoded e, after)
    | .ok reading => (.reading reading, after)

def dropResult (s : Session ε) (ref : SlotRef) : Answer × Session ε :=
  match s.results.get? ref with
  | none => (.noSlot, s)
  | some _ => (.dropped, { s with results := s.results.clear ref }.record [.resultReleased])

def advanceSource (s : Session ε) (ref : SlotRef) : Answer × Session ε :=
  match s.sources.get? ref with
  | none => (.noSlot, s)
  | some feed =>
    let after := { s with sources := s.sources.put ref feed.next.2 }.record
      [.advanced (Source.handed feed.next.1)]
    match feed.next.1 with
    | .error e => (.engineFailed e, after)
    | .ok none => (.handle none, after)
    | .ok (some h) =>
      (.handle (some s.handles.size), { after with handles := s.handles.add h })

def dropSource (s : Session ε) (ref : SlotRef) : Answer × Session ε :=
  match s.sources.get? ref with
  | none => (.noSlot, s)
  | some _ => (.dropped, { s with sources := s.sources.clear ref }.record [.sourceReleased])

def loadHandle (s : Session ε) (ref : SlotRef) : Answer × Session ε :=
  match s.handles.get? ref with
  | none => (.noSlot, s)
  | some h =>
    let o := h.load
    let after := { s with handles := s.handles.put ref o.state }.record o.journal
    match o.answer with
    | .error e => (.engineFailed e, after)
    | .ok (values, mask) => (.buffers values mask, after)

def dropHandle (s : Session ε) (ref : SlotRef) : Answer × Session ε :=
  match s.handles.get? ref with
  | none => (.noSlot, s)
  | some _ => (.dropped, { s with handles := s.handles.clear ref }.record [.resultReleased])

section

variable [Engine ε]

def extract (c : Client) (x : Extraction) (context : Option Context) (s : Session ε) :
    Answer × Session ε :=
  let o := c.openIterator x context s.engine
  let after := { s with engine := o.state }.record o.journal
  match o.answer with
  | .error e => (.refused e, after)
  | .ok it =>
    (.opened s.iterators.size it.expected, { after with iterators := s.iterators.add it })

def settleAxes (s : Session ε) (o : Outcome ε (Except ClientError Axes)) : Answer × Session ε :=
  let after := { s with engine := o.state }.record o.journal
  match o.answer with
  | .error e => (.refused e, after)
  | .ok found => (.axes found, after)

def submitDirectly (s : Session ε) (submission : Submission) (context : String) :
    Answer × Session ε :=
  let o := Engine.submit s.engine submission context
  let after := { s with engine := o.state }.record o.journal
  match o.answer with
  | .error e => (.engineFailed e, after)
  | .ok source =>
    (.sourceOpened s.sources.size, { after with sources := s.sources.add ⟨source.toSource, 0⟩ })

def axesDirectly (s : Session ε) (request : String) (level : Nat) (context : String) :
    Answer × Session ε :=
  let o := Engine.axes s.engine request level context
  let after := { s with engine := o.state }.record o.journal
  match o.answer with
  | .error e => (.engineFailed e, after)
  | .ok pairs => (.axisPairs pairs, after)

def perform (c : Client) (command : Command) (s : Session ε) : Answer × Session ε :=
  match command with
  | .extract x context => s.extract c x context
  | .axes key level context => s.settleAxes (c.axes key level context s.engine)
  | .discover key level context => s.settleAxes (Axes.discover key level context s.engine)
  | .next ref => s.nextResult ref
  | .dumpValues ref => s.dump ref BoundedIterator.dumpValues .values
  | .dumpNested ref => s.dump ref BoundedIterator.dumpNested .nested
  | .dropIterator ref => s.dropIterator ref
  | .access ref accessor => s.accessResult ref accessor
  | .dropResult ref => s.dropResult ref
  | .engineSubmit submission context => s.submitDirectly submission context
  | .engineAxes request level context => s.axesDirectly request level context
  | .sourceNext ref => s.advanceSource ref
  | .dropSource ref => s.dropSource ref
  | .handleLoad ref => s.loadHandle ref
  | .dropHandle ref => s.dropHandle ref

/-- Performs commands in order, each by a client of its own. -/
def run (s : Session ε) : List (Client × Command) → List Answer × Session ε
  | [] => ([], s)
  | (c, command) :: rest =>
    let (answer, after) := s.perform c command
    let (answers, final) := after.run rest
    (answer :: answers, final)

end

end Session

end FieldExtract
