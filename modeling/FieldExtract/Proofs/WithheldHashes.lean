import FieldExtract.Proofs.Admission

/-!
# Withheld grid hashes

A client that withholds grid hashes does what a client that sends them does when there are none:
each call is turned away for the same reason or is the same submission, and only the first client
reports what it withholds. An archive that is sent no hash never finds a grid to differ.
-/

namespace FieldExtract

/-- The same call, without the grid hash of any of its requests. -/
def Extraction.withoutGridHashes : Extraction → Extraction
  | .batch requests => .batch (requests.map Request.withoutGridHash)
  | .paths requests => .paths (requests.map Request.withoutGridHash)
  | .single key pairs _ => .single key pairs none
  | .fromRanges keys pairs _ => .fromRanges keys pairs none
  | .fromMask keys mask _ => .fromMask keys mask none
  | .fromPoints keys points _ => .fromPoints keys points none

/-- No hash is sent. -/
def Submission.Hashless : Submission → Prop
  | .keys requests => ∀ r ∈ requests, r.gridHash = none
  | .paths requests => ∀ r ∈ requests, r.gridHash = none
  | .single _ _ gridHash => gridHash = none

namespace Request

variable {τ : Type}

theorem ofSelection_withoutGridHash (target : τ) (ranges : Selection) (gridHash : Option String) :
    ofSelection target ranges none =
      (ofSelection target ranges gridHash).map withoutGridHash := by
  unfold ofSelection
  split
  · rfl
  · split <;> rfl

theorem ofPairs_withoutGridHash (target : τ) (pairs : List (Nat × Nat))
    (gridHash : Option String) :
    ofPairs target pairs none = (ofPairs target pairs gridHash).map withoutGridHash := by
  unfold ofPairs
  cases Selection.validate pairs with
  | error e => rfl
  | ok ranges => exact ofSelection_withoutGridHash target ranges gridHash

theorem mapM_withoutGridHash (targets : List τ) (ranges : Selection) (gridHash : Option String) :
    (targets.mapM fun target => ofSelection target ranges none) =
      (targets.mapM fun target => ofSelection target ranges gridHash).map
        (List.map withoutGridHash) := by
  induction targets with
  | nil => rfl
  | cons target targets ih =>
    rw [List.mapM_cons, List.mapM_cons, ih, ofSelection_withoutGridHash target ranges gridHash]
    cases ofSelection target ranges gridHash with
    | error e => rfl
    | ok r =>
      cases targets.mapM fun target => ofSelection target ranges gridHash with
      | error e => rfl
      | ok rs => rfl

end Request

namespace Client

/-- The same client, but for sending the hashes that it is given. -/
def disclosing (c : Client) : Client where
  settings := { c.settings with ignoreGridHash := false }
  identity := c.identity
  valid := c.valid

section

variable {ε : Type} [Engine ε] {c : Client} {x : Extraction} {context : Option Context} {e : ε}

/-- Both calls are turned away for the same reason, or both are the same submission. -/
inductive Parallel (c : Client) (context : Option Context) (e : ε)
    (o plain : Outcome ε (Except ClientError BoundedIterator)) : Prop
  | rejected (err : ClientError) (hCall : o = ⟨.error err, e, []⟩)
      (hPlain : plain = ⟨.error err, e, []⟩)
  | sent (submission : Submission) (hashed : Nat) (notice : Event) (plan : ShapePlan)
      (hHashless : submission.Hashless)
      (hCall : o = c.submit submission hashed notice plan context e)
      (hPlain : plain = c.disclosing.submit submission 0 notice plan context e)

theorem extractBatch_parallel {τ : Type} (hIgnored : c.settings.ignoreGridHash = true)
    (submission : List (Request τ) → Submission)
    (hHashless : ∀ rs, (∀ r ∈ rs, Request.gridHash r = none) → (submission rs).Hashless)
    (requests : List (Request τ)) :
    Parallel c context e (c.extractBatch submission requests context e)
      (c.disclosing.extractBatch submission (requests.map Request.withoutGridHash) context e) := by
  have hWithheld : c.admitted requests = requests.map Request.withoutGridHash := if_pos hIgnored
  have hSent : c.disclosing.admitted (requests.map Request.withoutGridHash) =
      requests.map Request.withoutGridHash := if_neg Bool.false_ne_true
  have hNone : ∀ r ∈ requests.map Request.withoutGridHash, r.gridHash = none := by
    intro r hr
    obtain ⟨q, _, rfl⟩ := List.mem_map.mp hr
    rfl
  have hCount : (requests.map Request.withoutGridHash).countP (fun r => r.gridHash.isSome) = 0 := by
    rw [List.countP_eq_zero]
    intro r hr
    simp [hNone r hr]
  have hShapes : (requests.map Request.withoutGridHash).map Request.shape =
      requests.map Request.shape := by
    rw [List.map_map]
    rfl
  unfold extractBatch
  rw [hWithheld, hSent, hCount, hShapes, List.isEmpty_map, List.length_map]
  split
  · exact .rejected _ rfl rfl
  · exact .sent _ _ _ _ (hHashless _ hNone) rfl rfl

theorem extractMany_parallel (hIgnored : c.settings.ignoreGridHash = true) (keys : List Key)
    (selection : Except RangeError Selection) (gridHash : Option String) :
    Parallel c context e (c.extractMany keys selection gridHash context e)
      (c.disclosing.extractMany keys selection none context e) := by
  cases selection with
  | error err => exact .rejected _ rfl rfl
  | ok ranges =>
    unfold extractMany
    dsimp only
    rw [Request.mapM_withoutGridHash keys ranges gridHash]
    cases keys.mapM fun key => Request.ofSelection key ranges gridHash with
    | error err => exact .rejected _ rfl rfl
    | ok requests => exact extractBatch_parallel hIgnored .keys (fun _ h => h) requests

theorem extractSingle_parallel (hIgnored : c.settings.ignoreGridHash = true) (key : Key)
    (pairs : List (Nat × Nat)) (gridHash : Option String) :
    Parallel c context e (c.extractSingle key pairs gridHash context e)
      (c.disclosing.extractSingle key pairs none context e) := by
  unfold extractSingle
  rw [Request.ofPairs_withoutGridHash key pairs gridHash]
  cases Request.ofPairs key pairs gridHash with
  | error err => exact .rejected _ rfl rfl
  | ok r =>
    refine .sent _ _ _ _ ?_ (by dsimp only) ?_
    · exact if_pos hIgnored
    · dsimp only [Except.map]
      rw [if_pos hIgnored]
      rfl

theorem openIterator_parallel (hIgnored : c.settings.ignoreGridHash = true) (x : Extraction) :
    Parallel c context e (c.openIterator x context e)
      (c.disclosing.openIterator x.withoutGridHashes context e) := by
  cases x with
  | batch requests => exact extractBatch_parallel hIgnored .keys (fun _ h => h) requests
  | paths requests => exact extractBatch_parallel hIgnored .paths (fun _ h => h) requests
  | single key pairs gridHash => exact extractSingle_parallel hIgnored key pairs gridHash
  | fromRanges keys pairs gridHash => exact extractMany_parallel hIgnored keys _ gridHash
  | fromMask keys mask gridHash => exact extractMany_parallel hIgnored keys _ gridHash
  | fromPoints keys points gridHash => exact extractMany_parallel hIgnored keys _ gridHash

/-- The two outcomes are the same, except that one journal begins with further reports. -/
structure Echoes {σ α : Type} (o plain : Outcome σ α) : Prop where
  answer : o.answer = plain.answer
  state : o.state = plain.state
  journal : ∃ reports : Journal, reports.Silent ∧ o.journal = reports ++ plain.journal
  contexts : o.journal.contexts = plain.journal.contexts

theorem submit_echoes (c : Client) (submission : Submission) (hashed : Nat) (notice : Event)
    (plan : ShapePlan) (context : Option Context) (e : ε) :
    Echoes (c.submit submission hashed notice plan context e)
      (c.disclosing.submit submission 0 notice plan context e) := by
  have hReports := c.silent_suppression submission.action hashed
  have hContexts : ∀ j : Journal,
      Journal.contexts (c.suppression submission.action hashed ++ j) = j.contexts := by
    intro j
    rw [Journal.contexts_append, hReports.unheard.2, List.nil_append]
  have hContext : ∀ action, c.disclosing.contextJson (Engine.version e) action context =
      c.contextJson (Engine.version e) action context := fun _ => rfl
  have hNone : c.disclosing.suppression submission.action 0 = [] := rfl
  unfold submit
  dsimp only
  rw [hNone, hContext]
  split
  · refine ⟨rfl, rfl, ⟨_, hReports, List.append_assoc ..⟩, ?_⟩
    rw [List.append_assoc, hContexts]
    rfl
  · refine ⟨rfl, rfl, ⟨_, hReports, ?_⟩, ?_⟩
    · simp only [List.append_assoc, List.nil_append]
    · rw [List.append_assoc, List.append_assoc, hContexts]
      rfl

theorem Parallel.echoes {o plain : Outcome ε (Except ClientError BoundedIterator)}
    (h : Parallel c context e o plain) : Echoes o plain := by
  cases h with
  | rejected err hCall hPlain =>
    rw [hCall, hPlain]
    exact ⟨rfl, rfl, ⟨[], Journal.silent_nil, rfl⟩, rfl⟩
  | sent submission hashed notice plan hHashless hCall hPlain =>
    rw [hCall, hPlain]
    exact c.submit_echoes submission hashed notice plan context e

end

end Client

namespace ResultIterator

variable {it : ResultIterator} {e : EngineError}

theorem reply_of_next_failure (h : it.next.answer = some (.error (.engine e))) :
    ∃ feed, it.feed = some feed ∧ feed.source.reply feed.advances = .error e := by
  match hFeed : it.feed with
  | none => simp [next_of_finished hFeed] at h
  | some feed =>
    match hReply : feed.source.reply feed.advances with
    | .ok (some handle) =>
      match hShape : it.plan.take it.yielded with
      | some (shape, plan) => simp [next_of_handle hFeed hReply hShape] at h
      | none => simp [next_of_surplus hFeed hReply hShape, surplus] at h
    | .ok none =>
      rw [next_of_end hFeed hReply, completion] at h
      split at h <;> simp at h
    | .error err =>
      rw [next_of_failure hFeed hReply] at h
      cases h
      exact ⟨feed, rfl, hReply⟩

/-- A failure of the engine is one of the replies of the source. -/
theorem reply_of_item_failure {source : Source} {plan : ShapePlan} {action : Action} {n : Nat}
    (h : (start source plan action).item n = some (.error (.engine e))) :
    ∃ i, source.reply i = .error e := by
  obtain ⟨feed, hFeed, hReply⟩ := reply_of_next_failure h
  cases feed_after source plan action n feed hFeed
  exact ⟨n, hReply⟩

end ResultIterator

namespace Archive

variable {a : Archive} {job : Job} {js : List Job} {e : EngineError}

theorem status_of_slice {samples : List Sample} {bounds : Nat × Nat}
    (h : slice samples bounds = .error e) : e.status? = some .outOfRange := by
  unfold slice at h
  split at h
  · cases h
  · cases h
    exact EngineError.status?_ofStatus _ _ _

theorem status_of_find {target : Target} (h : a.find target = .error e) :
    e.status? = some .notFound := by
  cases hStored : a.stored target with
  | none =>
    obtain ⟨err, hFind, hStatus⟩ := find_of_not_stored hStored
    cases hFind.symm.trans h
    exact hStatus
  | some found => cases (find_of_stored hStored).symm.trans h

theorem status_of_resolve (hHash : job.gridHash = none) (h : a.resolve job = .error e) :
    e.status? = some .notFound ∨ e.status? = some .outOfRange := by
  simp only [resolve, bind_eq_error_iff] at h
  obtain hFind | ⟨⟨samples, actual⟩, _, hCheck | ⟨_, _, hSlices | ⟨_, _, hDone⟩⟩⟩ := h
  · exact .inl (status_of_find hFind)
  · rw [hHash] at hCheck
    cases hCheck
  · obtain ⟨bounds, _, hSlice⟩ := refused_of_mapM hSlices
    exact .inr (status_of_slice hSlice)
  · cases hDone

theorem gridHash_of_hashless {submission : Submission} (h : submission.Hashless)
    (hJobs : jobs submission = .ok js) : ∀ job ∈ js, job.gridHash = none := by
  intro job hJob
  cases submission with
  | keys requests =>
    cases hJobs
    obtain ⟨r, hr, rfl⟩ := List.mem_map.mp hJob
    exact h r hr
  | paths requests =>
    cases hJobs
    obtain ⟨r, hr, rfl⟩ := List.mem_map.mp hJob
    exact h r hr
  | single request bounds gridHash =>
    simp only [jobs] at hJobs
    split at hJobs
    · cases hJobs
    · split at hJobs
      · cases hJobs
      · split at hJobs
        · cases hJobs
        · cases hJobs
          obtain ⟨k, _, rfl⟩ := List.mem_map.mp hJob
          exact h

/-- Jobs without a hash fail for want of a field or of a position, or as they are made to. -/
theorem status_of_reply (hHashes : ∀ job ∈ js, job.gridHash = none) {n : Nat}
    (h : a.reply js n = .error e) : e.status? ≠ some .gridHashMismatch := by
  unfold reply at h
  split at h
  · cases h
    rw [EngineError.status?_ofStatus]
    decide
  · split at h
    · next job hJob =>
      have hHash := hHashes job (List.mem_of_getElem? hJob)
      cases hResolve : a.resolve job with
      | error err =>
        rw [hResolve] at h
        cases h
        rcases status_of_resolve hHash hResolve with hStatus | hStatus <;> rw [hStatus] <;> decide
      | ok handle =>
        rw [hResolve] at h
        cases h
    · cases h

end Archive

namespace Client

/-- The iterator over an archive that has been sent no hash. -/
theorem status_of_submit {c : Client} {submission : Submission} (h : submission.Hashless)
    {hashed : Nat} {notice : Event} {plan : ShapePlan} {context : Option Context} {a : Archive}
    {it : BoundedIterator}
    (hOpen : (c.submit submission hashed notice plan context a).answer = .ok it) {n : Nat}
    {err : EngineError} (hItem : it.item n = some (.error (.engine err))) :
    err.status? ≠ some .gridHashMismatch := by
  have hEngine : ∀ text, Engine.submit a submission text = a.submit submission text :=
    fun _ => rfl
  cases hJobs : Archive.jobs submission with
  | error refusal =>
    simp only [submit, hEngine, Archive.submit, hJobs] at hOpen
    cases hOpen
  | ok js =>
    cases hFault : a.faults.submission with
    | some status =>
      simp only [submit, hEngine, Archive.submit, hJobs, hFault] at hOpen
      cases hOpen
    | none =>
      cases (c.submit_answer hashed notice plan context hFault hJobs).symm.trans hOpen
      obtain ⟨i, hReply⟩ := ResultIterator.reply_of_item_failure hItem
      exact Archive.status_of_reply (Archive.gridHash_of_hashless h hJobs) hReply

/-- Whatever is asked for: withheld hashes make no difference to the answer, to the engine or to
what it is told, and no result is ever refused for its grid. -/
theorem withholding_is_omitting (c : Client) (hIgnored : c.settings.ignoreGridHash = true)
    (a : Archive) (x : Extraction) (context : Option Context) :
    let o := c.openIterator x context a
    Echoes o (c.disclosing.openIterator x.withoutGridHashes context a) ∧
      ∀ it, o.answer = .ok it → ∀ n err, it.item n = some (.error (.engine err)) →
        err.status? ≠ some .gridHashMismatch := by
  intro o
  have hParallel : Parallel c context a o
      (c.disclosing.openIterator x.withoutGridHashes context a) := openIterator_parallel hIgnored x
  refine ⟨hParallel.echoes, fun it hOpen n err hItem => ?_⟩
  cases hParallel with
  | rejected reason hCall =>
    cases (congrArg Outcome.answer hCall).symm.trans hOpen
  | sent submission hashed notice plan hHashless hCall =>
    exact status_of_submit hHashless ((congrArg Outcome.answer hCall).symm.trans hOpen) hItem

/-- A field on one grid, asked for with the hash of another. -/
theorem withholding_is_omitting_of_other_grid :
    let k := Key.ofList [("param", .single "t")]
    let a := Archive.empty.addField k [⟨0⟩, ⟨1⟩] (some "n640")
    let c : Client := ⟨⟨3, "gribjump-rs", true⟩, ⟨"user", "host"⟩, rfl⟩
    let x := Extraction.fromRanges [k] [(0, 2)] (some "o1280")
    let o := c.openIterator x none a
    c.settings.ignoreGridHash = true ∧
      Echoes o (c.disclosing.openIterator (.fromRanges [k] [(0, 2)] none) none a) ∧
      ∃ it, o.answer = .ok it ∧ ∀ n err, it.item n = some (.error (.engine err)) →
        err.status? ≠ some .gridHashMismatch := by
  intro k a c x o
  obtain ⟨hEchoes, hItems⟩ := withholding_is_omitting c rfl a x none
  obtain ⟨it, hOpen⟩ : ∃ it, o.answer = .ok it := ⟨_, rfl⟩
  exact ⟨rfl, hEchoes, it, hOpen, hItems it hOpen⟩

end Client

end FieldExtract
