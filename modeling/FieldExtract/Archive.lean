import FieldExtract.Engine
import FieldExtract.OrderedSet

/-!
# Archives in memory

An archive holds fields under the canonical texts of their keys, and fields at places in files.
What is archived last under one key or place is what is found there. It resolves a request only
when its source is advanced, and can be made to refuse submissions, to fail at one advance of
every source, or to cut samples off the end of what it loads.
-/

namespace FieldExtract

structure Field where
  selectors : OrderedMap String String
  samples : List Sample
  gridHash : Option String

structure Faults where
  submission : Option Status
  nextAt : Option Nat
  truncate : Nat

structure Archive where
  version : String
  fields : OrderedMap String Field
  files : OrderedMap (String × Nat) (List Sample)
  faults : Faults

namespace Archive

def empty : Archive := ⟨"stub-0.0.0", OrderedMap.empty, OrderedMap.empty, ⟨none, none, 0⟩⟩

/-- Archives the samples under every single-valued key that the key stands for. -/
def addField (a : Archive) (key : Key) (samples : List Sample) (gridHash : Option String) :
    Archive :=
  { a with
    fields := a.fields.insertMany (key.expand.map fun k =>
      (k.canonical, ⟨k.selectors.mapValues Selector.text, samples, gridHash⟩)) }

def addFile (a : Archive) (path : String) (offset : Nat) (samples : List Sample) : Archive :=
  { a with files := a.files.insert (path, offset) samples }

inductive Target
  | key (canonical : String)
  | file (path : String) (offset : Nat)
deriving DecidableEq

structure Job where
  target : Target
  bounds : List (Nat × Nat)
  gridHash : Option String
deriving DecidableEq

def find (a : Archive) : Target → Except EngineError (List Sample × Option String)
  | .key canonical =>
    match a.fields.get? canonical with
    | some field => .ok (field.samples, field.gridHash)
    | none => .error (.ofStatus "next" .notFound ("no field for '" ++ canonical ++ "'"))
  | .file path offset =>
    match a.files.get? (path, offset) with
    | some samples => .ok (samples, none)
    | none =>
      .error (.ofStatus "next" .notFound ("nothing at " ++ path ++ ":" ++ toString offset))

/-- Hashes are compared only where both the request and the field carry one. -/
def checkGrid : Option String → Option String → Except EngineError Unit
  | some wanted, some actual =>
    if wanted = actual then .ok ()
    else
      .error (.ofStatus "next" .gridHashMismatch
        ("grid hash '" ++ wanted ++ "' does not match field grid '" ++ actual ++ "'"))
  | _, _ => .ok ()

def slice (samples : List Sample) (bounds : Nat × Nat) : Except EngineError (List Sample) :=
  if bounds.1 ≤ bounds.2 ∧ bounds.2 ≤ samples.length then
    .ok ((samples.drop bounds.1).take (bounds.2 - bounds.1))
  else
    .error (.ofStatus "next" .outOfRange
      ("range [" ++ toString bounds.1 ++ ", " ++ toString bounds.2 ++ ") outside field of " ++
        toString samples.length))

def resolve (a : Archive) (job : Job) : Except EngineError Handle := do
  let (samples, gridHash) ← a.find job.target
  checkGrid job.gridHash gridHash
  let slices ← job.bounds.mapM (slice samples)
  let flat := slices.flatten
  return Handle.ofBuffers (flat.take (flat.length - a.faults.truncate))
    (slices.flatMap fun s => BitMask.pack (validity s))

/-- How many jobs the first `n` advances have used up: an injected failure uses up none. -/
def jobAt (a : Archive) (n : Nat) : Nat :=
  match a.faults.nextAt with
  | some k => if k < n then n - 1 else n
  | none => n

def reply (a : Archive) (jobs : List Job) (n : Nat) : Reply :=
  if a.faults.nextAt = some n then
    .error (.ofStatus "next" .failure ("injected failure at position " ++ toString n))
  else
    match jobs[a.jobAt n]? with
    | some job => (a.resolve job).map some
    | none => .ok none

theorem le_jobAt (a : Archive) (n : Nat) : n - 1 ≤ a.jobAt n := by
  unfold jobAt
  split
  · split <;> omega
  · omega

/-- The source that treats the given jobs in order. -/
def source (a : Archive) (jobs : List Job) : BoundedSource where
  reply := a.reply jobs
  bound := jobs.length + 1
  ends h := by
    have hNone : jobs[a.jobAt (jobs.length + 1)]? = none :=
      List.getElem?_eq_none (by have := a.le_jobAt (jobs.length + 1); omega)
    unfold reply
    split
    · simp
    · simp [hNone]

def jobOfKey (gridHash : Option String) (bounds : List (Nat × Nat)) (key : Key) : Job :=
  ⟨.key key.canonical, bounds, gridHash⟩

def pairUp : List Nat → Option (List (Nat × Nat))
  | [] => some []
  | [_] => none
  | lo :: hi :: rest => (pairUp rest).map ((lo, hi) :: ·)

def invalidCall (description : String) : EngineError :=
  .ofStatus "extract_single" .invalidArgument description

def jobs : Submission → Except EngineError (List Job)
  | .keys requests =>
    .ok (requests.map fun r => jobOfKey r.gridHash r.ranges.bounds r.target)
  | .paths requests =>
    .ok (requests.map fun r =>
      ⟨.file r.target.path r.target.offset, r.ranges.bounds, r.gridHash⟩)
  | .single request bounds gridHash =>
    match Text.afterStart? "retrieve," request with
    | none => .error (invalidCall "request must start with 'retrieve,'")
    | some body =>
      match Key.parse body with
      | .error e => .error e
      | .ok key =>
        match pairUp bounds with
        | none => .error (invalidCall "odd number of range bounds")
        | some pairs => .ok (key.expand.map (jobOfKey gridHash pairs))

/-- A submission that cannot be read is turned away before it counts as a call. -/
def submit (a : Archive) (submission : Submission) (context : String) :
    Outcome Archive (Except EngineError BoundedSource) :=
  match jobs submission with
  | .error e => ⟨.error e, a, []⟩
  | .ok js =>
    let answer :=
      match a.faults.submission with
      | some status =>
        .error (.ofStatus submission.action.name status "submission refused")
      | none => .ok (a.source js)
    ⟨answer, a, [.called (.submit submission) context]⟩

/-- The selector names of each level, the coarsest first. -/
def axisNames : List (List String) :=
  [["class", "date", "domain", "expver", "stream", "time"], ["levtype", "type"],
    ["levelist", "param", "step"]]

def Field.matchesKey (field : Field) (key : Key) : Bool :=
  key.pairs.all fun p =>
    match field.selectors.get? p.1 with
    | some value => decide (value ∈ p.2.values)
    | none => false

def Field.valueOf (field : Field) (name : String) : String :=
  (field.selectors.get? name).getD ""

def axisPairs (fields : List Field) (level : Nat) : List (String × List String) :=
  (axisNames.take level).flatten.map fun name =>
    (name, (OrderedSet.ofList (fields.map fun f => Field.valueOf f name)).toList)

def axes (a : Archive) (request : String) (level : Nat) (context : String) :
    Outcome Archive (Except EngineError (List (String × List String))) :=
  let answer :=
    if 1 ≤ level ∧ level ≤ axisNames.length then
      (Key.parse request).map fun key =>
        axisPairs (a.fields.values.filter fun f => Field.matchesKey f key) level
    else
      .error (.ofStatus "axes" .invalidArgument ("level " ++ toString level ++ " not supported"))
  ⟨answer, a, [.called (.axes request level) context]⟩

instance : Engine Archive := ⟨version, submit, axes⟩

end Archive

end FieldExtract
