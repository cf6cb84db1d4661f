import FieldExtract.Axes
import FieldExtract.Context
import FieldExtract.Engine
import FieldExtract.ResultIterator
import FieldExtract.Text.Quoted

/-!
# Clients

A client has valid settings. It rejects what cannot be requested before the engine sees it, adds
its defaults to the caller's context, and makes one call to the engine. Extraction answers with an
iterator; nothing is fetched before that is advanced.
-/

namespace FieldExtract

structure Client where
  settings : Settings
  identity : Identity
  valid : settings.validate = .ok ()

namespace Client

def new (identity : Identity) : Client := ⟨Settings.default, identity, rfl⟩

def ofSettings (settings : Settings) (identity : Identity) : Except ClientError Client :=
  match h : settings.validate with
  | .ok () => .ok ⟨settings, identity, h⟩
  | .error e => .error (.settings e)

def describe (c : Client) : String :=
  "GribJump \x7b config: ClientConfig \x7b default_axes_level: " ++
    toString c.settings.axesLevel ++ ", context_source: " ++ Text.quoted c.settings.source ++
    ", ignore_grid_hash: " ++ toString c.settings.ignoreGridHash ++ " \x7d, .. \x7d"

def contextJson (c : Client) (engineVersion action : String) (context : Option Context) :
    String :=
  let defaults := Context.defaults c.settings.source action engineVersion c.identity
  match context with
  | some own => (own.mergedOver defaults).toJson
  | none => defaults.toJson

/-- Reports that hashes are withheld, where there are any to withhold. -/
def suppression (c : Client) (action : Action) (hashed : Nat) : Journal :=
  if c.settings.ignoreGridHash && decide (0 < hashed) then
    [.reported (.gridHashSuppressed action hashed)]
  else []

section

variable {ε : Type} [Engine ε]

def submit (c : Client) (submission : Submission) (hashed : Nat) (notice : Event)
    (plan : ShapePlan) (context : Option Context) (e : ε) :
    Outcome ε (Except ClientError BoundedIterator) :=
  let action := submission.action
  let o := Engine.submit e submission (c.contextJson (Engine.version e) action.name context)
  let before := c.suppression action hashed ++ [.reported notice]
  match o.answer with
  | .ok source =>
    ⟨.ok (BoundedIterator.start source plan action), o.state, before ++ o.journal⟩
  | .error err =>
    ⟨.error (.engine err), o.state,
      before ++ o.journal ++ [.reported (.callFailed action err)]⟩

def admitted {τ : Type} (c : Client) (requests : List (Request τ)) : List (Request τ) :=
  if c.settings.ignoreGridHash then requests.map Request.withoutGridHash else requests

def extractBatch {τ : Type} (c : Client) (submission : List (Request τ) → Submission)
    (requests : List (Request τ)) (context : Option Context) (e : ε) :
    Outcome ε (Except ClientError BoundedIterator) :=
  if requests.isEmpty then ⟨.error .emptyBatch, e, []⟩
  else
    let sent := submission (c.admitted requests)
    c.submit sent (requests.countP fun r => r.gridHash.isSome)
      (.batchSubmitted sent.action requests.length)
      (.perRequest (requests.map Request.shape)) context e

def extract (c : Client) (requests : List KeyRequest) (context : Option Context) (e : ε) :
    Outcome ε (Except ClientError BoundedIterator) :=
  c.extractBatch .keys requests context e

def extractFromPaths (c : Client) (requests : List PathRequest) (context : Option Context)
    (e : ε) : Outcome ε (Except ClientError BoundedIterator) :=
  c.extractBatch .paths requests context e

/-- One submission for all fields that a key stands for; how many those are, the engine decides. -/
def extractSingle (c : Client) (key : Key) (pairs : List (Nat × Nat)) (gridHash : Option String)
    (context : Option Context) (e : ε) : Outcome ε (Except ClientError BoundedIterator) :=
  match Request.ofPairs key pairs gridHash with
  | .error err => ⟨.error (.invalidRange err), e, []⟩
  | .ok request =>
    let sent := if c.settings.ignoreGridHash then none else request.gridHash
    c.submit (.single (KeyRequest.retrieveText request) request.flatBounds sent)
      (if request.gridHash.isSome then 1 else 0)
      (.keySubmitted .extractSingle key.cardinality) (.repeated request.shape) context e

/-- One selection for many keys; a selection that is refused comes before a lack of keys. -/
def extractMany (c : Client) (keys : List Key) (selection : Except RangeError Selection)
    (gridHash : Option String) (context : Option Context) (e : ε) :
    Outcome ε (Except ClientError BoundedIterator) :=
  match selection with
  | .error err => ⟨.error (.invalidRange err), e, []⟩
  | .ok ranges =>
    match keys.mapM fun key => Request.ofSelection key ranges gridHash with
    | .error err => ⟨.error (.invalidRange err), e, []⟩
    | .ok requests => c.extract requests context e

def extractFromRanges (c : Client) (keys : List Key) (pairs : List (Nat × Nat))
    (gridHash : Option String) (context : Option Context) (e : ε) :
    Outcome ε (Except ClientError BoundedIterator) :=
  c.extractMany keys (Selection.validate pairs) gridHash context e

def extractFromMask (c : Client) (keys : List Key) (mask : List Bool)
    (gridHash : Option String) (context : Option Context) (e : ε) :
    Outcome ε (Except ClientError BoundedIterator) :=
  c.extractMany keys (Selection.ofMask mask) gridHash context e

def extractFromPoints (c : Client) (keys : List Key) (points : List Nat)
    (gridHash : Option String) (context : Option Context) (e : ε) :
    Outcome ε (Except ClientError BoundedIterator) :=
  c.extractMany keys (Selection.ofPoints points) gridHash context e

end

end Client

/-- The axes that an engine reports for a key at a level that is checked first. -/
def Axes.discover {ε : Type} [Engine ε] (key : Key) (level : Nat) (context : String) (e : ε) :
    Outcome ε (Except ClientError Axes) :=
  match Settings.checkLevel level with
  | .error err => ⟨.error (.settings err), e, []⟩
  | .ok () =>
    let o := Engine.axes e key.serialize level context
    match o.answer with
    | .error err => ⟨.error (.engine err), o.state, o.journal⟩
    | .ok pairs =>
      let found := Axes.ofPairs level pairs
      ⟨.ok found, o.state, o.journal ++ [.reported (.axesDiscovered level found.size)]⟩

def Client.axes {ε : Type} [Engine ε] (c : Client) (key : Key) (level : Option Nat)
    (context : Option Context) (e : ε) : Outcome ε (Except ClientError Axes) :=
  let sent := c.contextJson (Engine.version e) Action.axes.name context
  let o := Axes.discover key (level.getD c.settings.axesLevel) sent e
  match o.answer with
  | .error (.engine err) =>
    ⟨o.answer, o.state, o.journal ++ [.reported (.callFailed .axes err)]⟩
  | _ => o

end FieldExtract
