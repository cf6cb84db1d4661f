import FieldExtract.Client
import FieldExtract.Proofs.IterationTrace
import FieldExtract.Proofs.Resolution

/-!
# Batches of requests to an archive

A batch is answered in the order in which it was submitted. Each request before the first that
cannot be served yields a result that reads as its ranges of the archived samples; that one yields
a failure with the status of its defect, and nothing follows.
-/

namespace FieldExtract

namespace Result

/-- Whatever has been read before, the result reads as these ranges of the samples. -/
structure ReadsAs (r : Result) (samples : List Sample) (ranges : Selection) : Prop where
  shape_eq : r.shape = ranges.shape
  inside : ∀ range ∈ ranges, range.hi ≤ samples.length
  values : ∀ history, (r.after history).rangeValues.answer = .ok (ranges.map (Range.slice samples))
  bits : ∀ history, (r.after history).boolMasks.answer =
    .ok (ranges.map fun range => range.points.map (presentAt samples))
  valid : ∀ history, (r.after history).countValid.answer =
    .ok (ranges.points.countP (presentAt samples))

theorem serves_blocks {samples : List Sample} {ranges : Selection}
    (h : ∀ r ∈ ranges, r.hi ≤ samples.length) (history : List Accessor) :
    ((ofHandle (Block.handle (ranges.blocks samples)) ranges.shape).after history).Serves
      (ranges.blocks samples) := by
  rw [← Selection.shape_blocks h]
  exact (serves_ofHandle _).after history

theorem readsAs_ofHandle {samples : List Sample} {ranges : Selection}
    (h : ∀ r ∈ ranges, r.hi ≤ samples.length) :
    (ofHandle (Block.handle (ranges.blocks samples)) ranges.shape).ReadsAs samples ranges := by
  have hServes := serves_blocks h
  refine ⟨rfl, h, ?_, ?_, ?_⟩
  · intro history
    rw [(hServes history).rangeValues_answer, Selection.samples_blocks]
  · intro history
    rw [(hServes history).boolMasks_answer, Selection.bits_blocks h]
  · intro history
    rw [(hServes history).countValid_answer, Selection.count_blocks h]

end Result

/-- The call returns at once with an iterator over the jobs that the archive makes of it. -/
theorem Client.submit_answer {a : Archive} {submission : Submission} {js : List Archive.Job}
    (c : Client) (hashed : Nat) (notice : Event) (plan : ShapePlan) (context : Option Context)
    (hFault : a.faults.submission = none) (hJobs : Archive.jobs submission = .ok js) :
    (c.submit submission hashed notice plan context a).answer =
      .ok (BoundedIterator.start (a.source js) plan submission.action) := by
  have hEngine : ∀ text, (Engine.submit a submission text).answer = .ok (a.source js) := by
    intro text
    change (a.submit submission text).answer = _
    simp only [Archive.submit, hJobs, hFault]
  simp only [submit, hEngine]

namespace Archive

variable {τ : Type} {a : Archive} {target : τ → Target}

def keyTarget (key : Key) : Target := .key key.canonical

def placeTarget (l : Location) : Target := .file l.path l.offset

def jobOf (target : τ → Target) (r : Request τ) : Job :=
  ⟨target r.target, r.ranges.bounds, r.gridHash⟩

def defectOf (a : Archive) (target : τ → Target) (r : Request τ) : Option Status :=
  a.defect (target r.target) r.ranges r.gridHash

/-- The answers to a batch, up to and after the first request that has a defect. -/
structure Answers (a : Archive) (target : τ → Target) (requests : List (Request τ))
    (it : ResultIterator) : Prop where
  served : ∀ i r, requests[i]? = some r →
    (∀ q ∈ requests.take (i + 1), a.defectOf target q = none) →
    ∃ samples gridHash result, a.stored (target r.target) = some (samples, gridHash) ∧
      it.item i = some (.ok result) ∧ result.ReadsAs samples r.ranges
  refused : ∀ i r status, requests[i]? = some r →
    (∀ q ∈ requests.take i, a.defectOf target q = none) → a.defectOf target r = some status →
    ∃ e, it.item i = some (.error (.engine e)) ∧ e.status? = some status ∧
      ∀ n > i, it.item n = none
  complete : (∀ q ∈ requests, a.defectOf target q = none) →
    ∀ n ≥ requests.length, it.item n = none

section

variable {requests : List (Request τ)} {r : Request τ} {i : Nat}

theorem reply_of_request (hFault : a.faults.nextAt = none) (hr : requests[i]? = some r) :
    a.reply (requests.map (jobOf target)) i = (a.resolve (jobOf target r)).map some := by
  have hJob : (requests.map (jobOf target))[i]? = some (jobOf target r) := by
    rw [List.getElem?_map, hr, Option.map_some]
  simp only [reply, jobAt, hFault, hJob, reduceCtorEq, if_false]

theorem reply_of_end (hFault : a.faults.nextAt = none) :
    a.reply (requests.map (jobOf target)) requests.length = .ok none := by
  have hEnd : (requests.map (jobOf target))[requests.length]? = none :=
    List.getElem?_eq_none (Nat.le_of_eq (List.length_map _))
  simp only [reply, jobAt, hFault, hEnd, reduceCtorEq, if_false]

theorem reply_of_sound (hFaults : a.faults = ⟨none, none, 0⟩) (hr : requests[i]? = some r)
    (hSound : a.defectOf target r = none) :
    ∃ samples gridHash, a.stored (target r.target) = some (samples, gridHash) ∧
      (∀ range ∈ r.ranges, range.hi ≤ samples.length) ∧
      a.reply (requests.map (jobOf target)) i =
        .ok (some (Block.handle (r.ranges.blocks samples))) := by
  obtain ⟨samples, gridHash, hStored, hRanges, hResolve⟩ := resolve_of_sound hSound
  refine ⟨samples, gridHash, hStored, hRanges, ?_⟩
  rw [reply_of_request (by rw [hFaults]) hr, jobOf, hResolve, hFaults, Nat.sub_zero,
    List.take_length]
  rfl

theorem reply_of_defect {status : Status} (hFault : a.faults.nextAt = none)
    (hr : requests[i]? = some r) (hDefect : a.defectOf target r = some status) :
    ∃ e, a.reply (requests.map (jobOf target)) i = .error e ∧ e.status? = some status := by
  obtain ⟨e, hResolve, hStatus⟩ := resolve_of_defect hDefect
  refine ⟨e, ?_, hStatus⟩
  rw [reply_of_request hFault hr, jobOf, hResolve]
  rfl

theorem shapeAt_of_request (hr : requests[i]? = some r) :
    (ShapePlan.perRequest (requests.map Request.shape)).shapeAt i = some r.shape := by
  rw [ShapePlan.shapeAt, List.getElem?_map, hr, Option.map_some]

theorem mem_take_of_lt {n : Nat} (hi : i < requests.length) (hn : i < n) :
    requests[i] ∈ requests.take n := by
  rw [List.mem_take_iff_getElem]
  exact ⟨i, by omega, rfl⟩

theorem feeds_of_sound {n : Nat} (hFaults : a.faults = ⟨none, none, 0⟩) (hn : n ≤ requests.length)
    (hSound : ∀ q ∈ requests.take n, a.defectOf target q = none) :
    ResultIterator.Feeds (a.source (requests.map (jobOf target))).toSource
      (.perRequest (requests.map Request.shape)) n := by
  intro i hi
  have hLt := Nat.lt_of_lt_of_le hi hn
  have hr : requests[i]? = some requests[i] := List.getElem?_eq_getElem hLt
  obtain ⟨_, _, _, _, hReply⟩ := reply_of_sound hFaults hr (hSound _ (mem_take_of_lt hLt hi))
  exact ⟨_, _, hReply, shapeAt_of_request hr⟩

/-- The result at a position, if neither that request nor one before it has a defect. -/
theorem item_of_sound (action : Action) (hFaults : a.faults = ⟨none, none, 0⟩)
    (hr : requests[i]? = some r)
    (hSound : ∀ q ∈ requests.take (i + 1), a.defectOf target q = none) :
    ∃ samples gridHash, a.stored (target r.target) = some (samples, gridHash) ∧
      (∀ range ∈ r.ranges, range.hi ≤ samples.length) ∧
      (ResultIterator.start (a.source (requests.map (jobOf target))).toSource
        (.perRequest (requests.map Request.shape)) action).item i =
          some (.ok (Result.ofHandle (Block.handle (r.ranges.blocks samples)) r.shape)) := by
  obtain ⟨hi, rfl⟩ := List.getElem?_eq_some_iff.mp hr
  obtain ⟨samples, gridHash, hStored, hRanges, hReply⟩ :=
    reply_of_sound hFaults hr (hSound _ (mem_take_of_lt hi (Nat.lt_succ_self i)))
  have hItem := ResultIterator.item_of_feeds action (feeds_of_sound hFaults hi hSound)
    (Nat.lt_succ_self i) hReply (shapeAt_of_request hr)
  exact ⟨samples, gridHash, hStored, hRanges, hItem⟩

end

theorem answers_of_no_fault (requests : List (Request τ)) (action : Action)
    (hFaults : a.faults = ⟨none, none, 0⟩) :
    a.Answers target requests
      (.start (a.source (requests.map (jobOf target))).toSource
        (.perRequest (requests.map Request.shape)) action) := by
  have hNext : a.faults.nextAt = none := by rw [hFaults]
  refine ⟨?_, ?_, ?_⟩
  · intro i r hr hSound
    obtain ⟨samples, gridHash, hStored, hRanges, hItem⟩ := item_of_sound action hFaults hr hSound
    exact ⟨samples, gridHash, _, hStored, hItem, Result.readsAs_ofHandle hRanges⟩
  · intro i r status hr hSound hDefect
    obtain ⟨hi, _⟩ := List.getElem?_eq_some_iff.mp hr
    obtain ⟨e, hReply, hStatus⟩ := reply_of_defect hNext hr hDefect
    have hTrace := ResultIterator.trace_of_failure action
      (feeds_of_sound hFaults (Nat.le_of_lt hi) hSound) hReply
    exact ⟨e, hTrace.last, hStatus, hTrace.silent⟩
  · intro hSound n hn
    have hTrace := ResultIterator.trace_of_completion action
      (feeds_of_sound hFaults (Nat.le_refl _) (by rwa [List.take_length])) (reply_of_end hNext)
      (by rintro m ⟨⟩; rw [List.length_map])
    rcases Nat.lt_or_eq_of_le hn with hLt | rfl
    · exact hTrace.silent n hLt
    · exact hTrace.last

end Archive

namespace Client

theorem extractBatch_answer {τ : Type} {a : Archive} {submission : List (Request τ) → Submission}
    {requests : List (Request τ)} {js : List Archive.Job} (c : Client) (context : Option Context)
    (hFault : a.faults.submission = none) (hSome : requests ≠ [])
    (hJobs : Archive.jobs (submission (c.admitted requests)) = .ok js) :
    (c.extractBatch submission requests context a).answer =
      .ok (.start (a.source js) (.perRequest (requests.map Request.shape))
        (submission (c.admitted requests)).action) := by
  have hEmpty : ¬requests.isEmpty := by simpa using hSome
  rw [extractBatch, if_neg hEmpty]
  exact submit_answer c _ _ _ context hFault hJobs

theorem admitted_of_not_ignored {τ : Type} {c : Client} (requests : List (Request τ))
    (h : c.settings.ignoreGridHash = false) : c.admitted requests = requests :=
  if_neg (by simp [h])

/-- Extraction from an archive without injected faults, by keys and by places in files. -/
theorem extract_from_archive (c : Client) (a : Archive) (context : Option Context)
    (hFaults : a.faults = ⟨none, none, 0⟩) (hHashes : c.settings.ignoreGridHash = false) :
    (∀ requests : List KeyRequest, requests ≠ [] →
      ∃ it, (c.extract requests context a).answer = .ok it ∧
        a.Answers Archive.keyTarget requests it.toResultIterator) ∧
    ∀ requests : List PathRequest, requests ≠ [] →
      ∃ it, (c.extractFromPaths requests context a).answer = .ok it ∧
        a.Answers Archive.placeTarget requests it.toResultIterator := by
  have hFault : a.faults.submission = none := by rw [hFaults]
  constructor
  · intro requests hSome
    have hJobs : Archive.jobs (.keys (c.admitted requests)) =
        .ok (requests.map (Archive.jobOf Archive.keyTarget)) := by
      rw [admitted_of_not_ignored requests hHashes]
      rfl
    exact ⟨_, extractBatch_answer c context hFault hSome hJobs,
      Archive.answers_of_no_fault requests _ hFaults⟩
  · intro requests hSome
    have hJobs : Archive.jobs (.paths (c.admitted requests)) =
        .ok (requests.map (Archive.jobOf Archive.placeTarget)) := by
      rw [admitted_of_not_ignored requests hHashes]
      rfl
    exact ⟨_, extractBatch_answer c context hFault hSome hJobs,
      Archive.answers_of_no_fault requests _ hFaults⟩

/-- Of two requests for one field the first reaches its end and the second past it. -/
theorem extract_from_archive_of_two :
    let samples : List Sample := [⟨0⟩, Sample.missing, ⟨1⟩]
    let place := Location.ofFile "t850.grib" 4
    let a := Archive.empty.addFile "t850.grib" 4 samples
    let c := Client.new ⟨"user", "host"⟩
    let ranges : Selection := [⟨1, 3, by decide⟩, ⟨0, 1, by decide⟩]
    let inside : PathRequest := ⟨place, ranges, none, by decide, by decide⟩
    let outside : PathRequest := ⟨place, [⟨2, 4, by decide⟩], none, by decide, by decide⟩
    a.faults = ⟨none, none, 0⟩ ∧ c.settings.ignoreGridHash = false ∧
      ∃ it, (c.extractFromPaths [inside, outside] none a).answer = .ok it ∧
        (∃ result, it.item 0 = some (.ok result) ∧ result.ReadsAs samples ranges) ∧
        ∃ e, it.item 1 = some (.error (.engine e)) ∧ e.status? = some .outOfRange ∧
          ∀ n > 1, it.item n = none := by
  intro samples place a c ranges inside outside
  obtain ⟨it, hAnswer, hAnswers⟩ :=
    (extract_from_archive c a none rfl rfl).2 [inside, outside] (by simp)
  have hStored : a.stored (Archive.placeTarget place) = some (samples, none) := by decide
  have hSound : a.defectOf Archive.placeTarget inside = none := by decide
  have hDefect : a.defectOf Archive.placeTarget outside = some .outOfRange := by decide
  refine ⟨rfl, rfl, it, hAnswer, ?_, ?_⟩
  · obtain ⟨found, gridHash, result, hFound, hItem, hReads⟩ :=
      hAnswers.served 0 inside rfl (by simpa using hSound)
    cases hStored.symm.trans hFound
    exact ⟨result, hItem, hReads⟩
  · exact hAnswers.refused 1 outside .outOfRange rfl (by simpa using hSound) hDefect

end Client

end FieldExtract
