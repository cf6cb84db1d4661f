import FieldExtract.Proofs.KeyExtraction
import FieldExtract.Proofs.Ledger
import FieldExtract.Proofs.SelectionTotal
import FieldExtract.Session.Basic

/-!
# What reaches an engine

A call that cannot be served is turned away by the client, and then it is as if it had not been
made. Any other call reaches the engine once, under the merged context, and does nothing else:
nothing is advanced, loaded or released, whatever the engine makes of it.
-/

namespace FieldExtract

namespace Extraction

def action : Extraction → Action
  | .batch _ | .fromRanges .. | .fromMask .. | .fromPoints .. => .extract
  | .paths _ => .extractFromPaths
  | .single .. => .extractSingle

def rangeFault : Except RangeError Selection → Option ClientError
  | .error e => some (.invalidRange e)
  | .ok _ => none

def emptiness {α : Type} (xs : List α) : Option ClientError :=
  if xs.isEmpty then some .emptyBatch else none

theorem emptiness_of_length {α β : Type} {xs : List α} {ys : List β}
    (h : xs.length = ys.length) : emptiness xs = emptiness ys := by
  cases xs with
  | nil => rw [List.length_eq_zero_iff.mp h.symm]; rfl
  | cons x xs =>
    cases ys with
    | nil => cases h
    | cons y ys => rfl

/-- Why a call is turned away; a faulty selection comes before a lack of keys. -/
def rejection : Extraction → Option ClientError
  | .batch requests => emptiness requests
  | .paths requests => emptiness requests
  | .single _ pairs _ => rangeFault (Selection.validate pairs)
  | .fromRanges keys pairs _ => (rangeFault (Selection.validate pairs)).or (emptiness keys)
  | .fromMask keys mask _ => (rangeFault (Selection.ofMask mask)).or (emptiness keys)
  | .fromPoints keys points _ => (rangeFault (Selection.ofPoints points)).or (emptiness keys)

/-- The caller's mask and points have positions that can be counted. -/
def Countable : Extraction → Prop
  | .fromMask _ mask _ => mask.length ≤ maxPosition
  | .fromPoints _ points _ => points.length ≤ maxPosition
  | .batch _ | .paths _ | .single .. | .fromRanges .. => True

/-- The text of a key that is sent as such can be read. -/
def Readable : Extraction → Prop
  | .single key _ _ => ∃ k, Key.parse key.serialize = .ok k
  | .batch _ | .paths _ | .fromRanges .. | .fromMask .. | .fromPoints .. => True

end Extraction

theorem Request.ofPairs_of_refusal {τ : Type} {pairs : List (Nat × Nat)} {err : RangeError}
    (h : Selection.validate pairs = .error err) (target : τ) (gridHash : Option String) :
    ofPairs target pairs gridHash = .error err := by
  rw [ofPairs, h]
  rfl

theorem Request.mapM_ofSelection {τ : Type} {ranges : Selection} (hNil : ranges ≠ [])
    (hTotal : ranges.total ≤ maxPosition) (targets : List τ) (gridHash : Option String) :
    (targets.mapM fun target => ofSelection target ranges gridHash) =
      .ok (targets.map fun target => ⟨target, ranges, gridHash, hNil, hTotal⟩) :=
  mapM_of_ok fun _ _ => ofSelection_eq_ok_iff.mpr ⟨rfl, rfl, rfl⟩

namespace Client

section

variable {ε : Type} [Engine ε] {c : Client} {x : Extraction} {context : Option Context} {e : ε}

/-- An extraction is either turned away, for its reason, or is one submission of its kind. -/
inductive Course (c : Client) (x : Extraction) (context : Option Context) (e : ε) :
    Outcome ε (Except ClientError BoundedIterator) → Prop
  | rejected (err : ClientError) (hReason : x.Countable → x.rejection = some err) :
    Course c x context e ⟨.error err, e, []⟩
  | sent (submission : Submission) (hashed : Nat) (notice : Event) (plan : ShapePlan)
      (hAdmitted : x.rejection = none) (hAction : submission.action = x.action)
      (hReadable : x.Readable → ∃ js, Archive.jobs submission = .ok js) :
    Course c x context e (c.submit submission hashed notice plan context e)

theorem extractBatch_course {τ : Type} {submission : List (Request τ) → Submission}
    {requests : List (Request τ)} (hRejection : x.rejection = Extraction.emptiness requests)
    (hAction : ∀ rs, (submission rs).action = x.action)
    (hJobs : ∀ rs, ∃ js, Archive.jobs (submission rs) = .ok js) :
    c.Course x context e (c.extractBatch submission requests context e) := by
  unfold extractBatch
  unfold Extraction.emptiness at hRejection
  split
  · next hEmpty => exact .rejected _ fun _ => by rw [hRejection, if_pos hEmpty]
  · next hSome =>
    exact .sent _ _ _ _ (by rw [hRejection, if_neg hSome]) (hAction _) fun _ => hJobs _

theorem extractMany_course {keys : List Key} {selection : Except RangeError Selection}
    {gridHash : Option String} (hAction : x.action = .extract)
    (hRejection : x.rejection =
      (Extraction.rangeFault selection).or (Extraction.emptiness keys))
    (hSound : x.Countable → ∀ ranges, selection = .ok ranges →
      ranges ≠ [] ∧ ranges.total ≤ maxPosition) :
    c.Course x context e (c.extractMany keys selection gridHash context e) := by
  cases selection with
  | error err => exact .rejected _ fun _ => hRejection
  | ok ranges =>
    unfold extractMany
    dsimp only
    split
    · next err hMap =>
      refine .rejected _ fun hCountable => ?_
      obtain ⟨hNil, hTotal⟩ := hSound hCountable ranges rfl
      cases (Request.mapM_ofSelection hNil hTotal keys gridHash).symm.trans hMap
    · next requests hMap =>
      have hEmpty : Extraction.emptiness requests = Extraction.emptiness keys :=
        Extraction.emptiness_of_length (length_of_mapM hMap)
      exact extractBatch_course (hRejection.trans hEmpty.symm) (fun _ => hAction.symm)
        fun _ => ⟨_, rfl⟩

theorem openIterator_course (c : Client) (x : Extraction) (context : Option Context) (e : ε) :
    c.Course x context e (c.openIterator x context e) := by
  cases x with
  | batch requests => exact extractBatch_course rfl (fun _ => rfl) fun _ => ⟨_, rfl⟩
  | paths requests => exact extractBatch_course rfl (fun _ => rfl) fun _ => ⟨_, rfl⟩
  | single key pairs gridHash =>
    change c.Course _ context e (c.extractSingle key pairs gridHash context e)
    cases hRanges : Selection.validate pairs with
    | error err =>
      rw [extractSingle, Request.ofPairs_of_refusal hRanges]
      exact .rejected _ fun _ => by rw [Extraction.rejection, hRanges]; rfl
    | ok ranges =>
      obtain ⟨r, hRequest⟩ := Request.exists_ofPairs hRanges key gridHash
      have hTarget : r.target = key := (Request.ofPairs_eq_ok_iff.mp hRequest).2.1
      rw [extractSingle, hRequest]
      refine .sent _ _ _ _ (by rw [Extraction.rejection, hRanges]; rfl) rfl ?_
      rintro ⟨k, hParse⟩
      rw [KeyRequest.retrieveText, hTarget]
      exact ⟨_, Archive.jobs_of_parse hParse r.ranges _⟩
  | fromRanges keys pairs gridHash =>
    exact extractMany_course rfl rfl fun _ _ h => Selection.validate_sound h
  | fromMask keys mask gridHash =>
    refine extractMany_course rfl rfl fun hCountable ranges h => ?_
    obtain ⟨hNil, hTotal⟩ := Selection.ofMask_sound h
    exact ⟨hNil, hTotal ▸ Nat.le_trans List.count_le_length hCountable⟩
  | fromPoints keys points gridHash =>
    refine extractMany_course rfl rfl fun hCountable ranges h => ?_
    obtain ⟨hNil, hTotal⟩ := Selection.ofPoints_sound h
    exact ⟨hNil, hTotal ▸ hCountable⟩

theorem silent_suppression (c : Client) (action : Action) (hashed : Nat) :
    (c.suppression action hashed).Silent := by
  unfold suppression
  split
  · exact Journal.silent_singleton _
  · exact Journal.silent_nil

/-- What an engine makes of a submission, with reports around it. -/
theorem submit_eq (c : Client) (submission : Submission) (hashed : Nat) (notice : Event)
    (plan : ShapePlan) (context : Option Context) (e : ε) :
    let o := Engine.submit e submission
      (c.contextJson (Engine.version e) submission.action.name context)
    ∃ before after : Journal, before.Silent ∧ after.Silent ∧
      c.submit submission hashed notice plan context e =
        ⟨match o.answer with
          | .ok source => .ok (BoundedIterator.start source plan submission.action)
          | .error err => .error (.engine err),
          o.state, before ++ o.journal ++ after⟩ := by
  intro o
  have hBefore : Journal.Silent (c.suppression submission.action hashed ++ [.reported notice]) :=
    (c.silent_suppression _ _).append (Journal.silent_singleton notice)
  cases hAnswer : o.answer with
  | ok source =>
    refine ⟨_, [], hBefore, Journal.silent_nil, ?_⟩
    rw [List.append_nil]
    simp only [submit, o] at hAnswer ⊢
    rw [hAnswer]
  | error err =>
    refine ⟨_, [.reported (.callFailed submission.action err)], hBefore,
      Journal.silent_singleton _, ?_⟩
    simp only [submit, o] at hAnswer ⊢
    rw [hAnswer]

end

end Client

theorem Settings.checkLevel_eq_ok_iff {level : Nat} :
    checkLevel level = .ok () ↔ 1 ≤ level ∧ level ≤ 3 := by
  simp [checkLevel]

theorem Settings.checkLevel_of_validate {s : Settings} (h : s.validate = .ok ()) :
    checkLevel s.axesLevel = .ok () := by
  cases hLevel : checkLevel s.axesLevel with
  | ok => rfl
  | error err =>
    rw [validate, hLevel] at h
    cases h

section

variable {ε : Type} [Engine ε]

theorem Axes.discover_of_rejection {level : Nat} (h : ¬(1 ≤ level ∧ level ≤ 3)) (key : Key)
    (text : String) (e : ε) :
    discover key level text e = ⟨.error (.settings (.axesLevelOutOfRange level)), e, []⟩ := by
  rw [discover, Settings.checkLevel, if_neg h]

theorem Axes.discover_eq {level : Nat} (h : Settings.checkLevel level = .ok ()) (key : Key)
    (text : String) (e : ε) :
    let o := Engine.axes e key.serialize level text
    ∃ answer, ∃ after : Journal, after.Silent ∧
      discover key level text e = ⟨answer, o.state, o.journal ++ after⟩ := by
  intro o
  unfold discover
  rw [h]
  dsimp only
  split
  · exact ⟨_, [], Journal.silent_nil, by rw [List.append_nil]⟩
  · exact ⟨_, _, Journal.silent_singleton _, rfl⟩

theorem Client.axes_of_rejection {level : Nat} (c : Client) (h : ¬(1 ≤ level ∧ level ≤ 3))
    (key : Key) (context : Option Context) (e : ε) :
    c.axes key (some level) context e =
      ⟨.error (.settings (.axesLevelOutOfRange level)), e, []⟩ := by
  unfold axes
  dsimp only
  rw [Option.getD_some, Axes.discover_of_rejection h]

theorem Client.axes_eq (c : Client) {level : Option Nat}
    (h : Settings.checkLevel (level.getD c.settings.axesLevel) = .ok ()) (key : Key)
    (context : Option Context) (e : ε) :
    let o := Engine.axes e key.serialize (level.getD c.settings.axesLevel)
      (c.contextJson (Engine.version e) Action.axes.name context)
    ∃ answer, ∃ after : Journal, after.Silent ∧
      c.axes key level context e = ⟨answer, o.state, o.journal ++ after⟩ := by
  intro o
  obtain ⟨answer, after, hSilent, hEq⟩ := Axes.discover_eq h key
    (c.contextJson (Engine.version e) Action.axes.name context) e
  unfold axes
  dsimp only
  rw [hEq]
  dsimp only
  split
  · exact ⟨_, _, hSilent.append (Journal.silent_singleton _), by rw [List.append_assoc]⟩
  · exact ⟨_, _, hSilent, rfl⟩

end

namespace Journal.Counts

def oneSubmission : Counts := { zero with submissions := 1 }

def oneAxesCall : Counts := { zero with axesCalls := 1 }

end Journal.Counts

namespace Session

/-- One call more has reached the engine, under this context, and nothing else has been done. -/
structure AddsCall {ε : Type} (s after : Session ε) (call : Journal.Counts) (context : String) :
    Prop where
  counts : after.journal.counts = s.journal.counts + call
  contexts : after.journal.contexts = s.journal.contexts ++ [context]

theorem addsCall_of_journal {ε : Type} {s after : Session ε} {call : Call} {context : String}
    {left right : Journal} (hLeft : left.Silent) (hRight : right.Silent)
    (hJournal : after.journal = s.journal ++ (left ++ [.called call context] ++ right)) :
    s.AddsCall after (Journal.counts [.called call context]) context := by
  obtain ⟨hCounts, hContexts⟩ := hLeft.around hRight [.called call context]
  constructor
  · rw [hJournal, Journal.counts_append, hCounts]
  · rw [hJournal, Journal.contexts_append, hContexts]
    rfl

theorem settleAxes_of_rejection {ε : Type} {s : Session ε} {err : ClientError} :
    s.settleAxes ⟨.error err, s.engine, []⟩ = (.refused err, s) := by
  simp only [settleAxes, record, List.append_nil]

theorem settleAxes_journal {ε : Type} (s : Session ε)
    (o : Outcome ε (Except ClientError Axes)) :
    (s.settleAxes o).2.journal = s.journal ++ o.journal := by
  unfold settleAxes
  dsimp only
  split <;> rfl

section

variable {ε : Type} [Engine ε]

theorem extract_of_rejection {c : Client} {x : Extraction} {context : Option Context}
    {s : Session ε} {err : ClientError}
    (h : c.openIterator x context s.engine = ⟨.error err, s.engine, []⟩) :
    s.extract c x context = (.refused err, s) := by
  simp only [extract, h, record, List.append_nil]

theorem extract_journal (c : Client) (x : Extraction) (context : Option Context) (s : Session ε) :
    (s.extract c x context).2.journal =
      s.journal ++ (c.openIterator x context s.engine).journal := by
  unfold extract
  dsimp only
  split <;> rfl

end

theorem extract_addsCall {c : Client} {x : Extraction} {context : Option Context}
    {s : Session Archive} {submission : Submission} {hashed : Nat} {notice : Event}
    {plan : ShapePlan} {js : List Archive.Job} (hJobs : Archive.jobs submission = .ok js)
    (h : c.openIterator x context s.engine =
      c.submit submission hashed notice plan context s.engine) :
    s.AddsCall (s.extract c x context).2 .oneSubmission
      (c.contextJson s.engine.version submission.action.name context) := by
  obtain ⟨left, right, hLeft, hRight, hSubmit⟩ :=
    c.submit_eq submission hashed notice plan context s.engine
  have hEngine : ∀ text, (Engine.submit s.engine submission text).journal =
      [.called (.submit submission) text] := by
    intro text
    change (s.engine.submit submission text).journal = _
    simp only [Archive.submit, hJobs]
  have hJournal := s.extract_journal c x context
  rw [h, hSubmit, hEngine] at hJournal
  exact addsCall_of_journal hLeft hRight hJournal

theorem settleAxes_addsCall {s : Session Archive} {o : Outcome Archive (Except ClientError Axes)}
    {request context : String} {level : Nat} {right : Journal} (hRight : right.Silent)
    (h : o.journal = (Engine.axes s.engine request level context).journal ++ right) :
    s.AddsCall (s.settleAxes o).2 .oneAxesCall context := by
  have hCalled : (Engine.axes s.engine request level context).journal =
      [.called (.axes request level) context] := rfl
  have hJournal := s.settleAxes_journal o
  rw [h, hCalled] at hJournal
  exact addsCall_of_journal Journal.silent_nil hRight hJournal

/-- Turned away, a call leaves the whole session as it was; otherwise the engine is called once
and nothing is fetched, even if the engine then refuses. -/
theorem rejected_or_called_once (c : Client) (s : Session Archive) :
    (∀ (x : Extraction) (context : Option Context), x.Countable →
      (∀ err, x.rejection = some err →
        s.perform c (.extract x context) = (.refused err, s)) ∧
      (x.rejection = none → x.Readable →
        s.AddsCall (s.perform c (.extract x context)).2 .oneSubmission
          (c.contextJson s.engine.version x.action.name context))) ∧
    (∀ (key : Key) (level : Nat) (context : Option Context), ¬(1 ≤ level ∧ level ≤ 3) →
      s.perform c (.axes key (some level) context) =
        (.refused (.settings (.axesLevelOutOfRange level)), s)) ∧
    (∀ (key : Key) (level : Option Nat) (context : Option Context),
      (∀ l ∈ level, 1 ≤ l ∧ l ≤ 3) →
      s.AddsCall (s.perform c (.axes key level context)).2 .oneAxesCall
        (c.contextJson s.engine.version Action.axes.name context)) ∧
    ∀ (key : Key) (level : Nat) (context : String),
      (¬(1 ≤ level ∧ level ≤ 3) →
        s.perform c (.discover key level context) =
          (.refused (.settings (.axesLevelOutOfRange level)), s)) ∧
      (1 ≤ level ∧ level ≤ 3 →
        s.AddsCall (s.perform c (.discover key level context)).2 .oneAxesCall context) := by
  refine ⟨?_, ?_, ?_, ?_⟩
  · intro x context hCountable
    have hCourse := c.openIterator_course x context s.engine
    generalize hOpen : c.openIterator x context s.engine = o at hCourse
    cases hCourse with
    | rejected err hReason =>
      refine ⟨fun err' hRejected => ?_, fun hAdmitted => ?_⟩
      · cases (hReason hCountable).symm.trans hRejected
        exact extract_of_rejection hOpen
      · cases (hReason hCountable).symm.trans hAdmitted
    | sent submission hashed notice plan hAdmitted hAction hReadable =>
      refine ⟨fun err hRejected => ?_, fun _ hText => ?_⟩
      · cases hAdmitted.symm.trans hRejected
      · obtain ⟨js, hJobs⟩ := hReadable hText
        rw [← hAction]
        exact extract_addsCall hJobs hOpen
  · intro key level context hLevel
    change s.settleAxes (c.axes key (some level) context s.engine) = _
    rw [c.axes_of_rejection hLevel]
    exact settleAxes_of_rejection
  · intro key level context hLevel
    have hCheck : Settings.checkLevel (level.getD c.settings.axesLevel) = .ok () := by
      cases level with
      | none => exact Settings.checkLevel_of_validate c.valid
      | some l => exact if_pos (hLevel l rfl)
    obtain ⟨answer, right, hRight, hEq⟩ := c.axes_eq hCheck key context s.engine
    exact settleAxes_addsCall hRight (congrArg Outcome.journal hEq)
  · intro key level context
    constructor
    · intro hLevel
      change s.settleAxes (Axes.discover key level context s.engine) = _
      rw [Axes.discover_of_rejection hLevel]
      exact settleAxes_of_rejection
    · intro hLevel
      obtain ⟨answer, right, hRight, hEq⟩ := Axes.discover_eq (if_pos hLevel) key context s.engine
      exact settleAxes_addsCall hRight (congrArg Outcome.journal hEq)

/-- A mask without a set bit for no keys at all, and a key of two steps that the engine refuses. -/
theorem rejected_or_called_once_of_refusal :
    let k := Key.ofList [("step", .multi ["0", "6"])]
    let c := Client.new ⟨"user", "host"⟩
    let s := Session.start { Archive.empty with faults := ⟨some .failure, none, 0⟩ }
    let unset := Extraction.fromMask [] [false, false] none
    let steps := Extraction.single k [(0, 2)] none
    unset.Countable ∧ unset.rejection = some (.invalidRange .emptyMask) ∧
      s.perform c (.extract unset none) = (.refused (.invalidRange .emptyMask), s) ∧
      steps.Countable ∧ steps.rejection = none ∧ steps.Readable ∧
      s.AddsCall (s.perform c (.extract steps none)).2 .oneSubmission
        (c.contextJson "stub-0.0.0" "extract_single" none) ∧
      s.perform c (.axes k (some 4) none) =
        (.refused (.settings (.axesLevelOutOfRange 4)), s) := by
  intro k c s unset steps
  have hReadable : steps.Readable := ⟨_, Key.parse_serialize ⟨by decide, by decide⟩⟩
  have hCountable : unset.Countable := (by decide : 2 ≤ maxPosition)
  obtain ⟨hExtract, hAxes, _, _⟩ := rejected_or_called_once c s
  exact ⟨hCountable, rfl, (hExtract unset none hCountable).1 _ rfl, trivial, rfl, hReadable,
    (hExtract steps none trivial).2 rfl hReadable, hAxes k 4 none (by decide)⟩

end Session

end FieldExtract
