import FieldExtract.Proofs.BatchExtraction
import FieldExtract.Proofs.KeyCodec

/-!
# One submission of a key for many fields

A key sent as text makes an archive do the jobs of its expansion, as a batch of the expanded keys
does. Either iterator stops at the first position where the archive hands out nothing, and an end
there comes only after the last job; so the two agree, though one knows how many results to expect
and the other does not.
-/

namespace FieldExtract

namespace Archive

theorem pairUp_flatBounds (ranges : Selection) : pairUp ranges.flatBounds = some ranges.bounds := by
  induction ranges with
  | nil => rfl
  | cons r rs ih =>
    rw [Selection.flatBounds, Selection.bounds] at ih
    rw [Selection.flatBounds, List.flatMap_cons, List.cons_append, List.cons_append,
      List.nil_append, pairUp, ih, Option.map_some]
    rfl

theorem jobs_of_parse {key k : Key} (h : Key.parse key.serialize = .ok k) (ranges : Selection)
    (gridHash : Option String) :
    jobs (.single ("retrieve," ++ key.serialize) ranges.flatBounds gridHash) =
      .ok (k.expand.map (jobOfKey gridHash ranges.bounds)) := by
  simp only [jobs, Text.afterStart?_append, h, pairUp_flatBounds]

theorem jobs_single {k : Key} (ranges : Selection) (gridHash : Option String) (hKey : k.Separable)
    (hFilled : ∀ p ∈ k.pairs, p.2.values ≠ []) :
    jobs (.single ("retrieve," ++ k.serialize) ranges.flatBounds gridHash) =
      .ok (k.expand.map (jobOfKey gridHash ranges.bounds)) := by
  rw [jobs_of_parse (Key.parse_serialize hKey), Key.expand_reread hFilled]

section

variable {a : Archive} {js : List Job} {n : Nat}

/-- An injected failure is no handle, so it comes at the stop or after it. -/
theorem le_fault_of_handsOut (h : (a.source js).HandsOut n) : ∀ f ∈ a.faults.nextAt, n ≤ f := by
  intro f hf
  rcases Nat.lt_or_ge f n with hLt | hLe
  · obtain ⟨handle, hReply⟩ := h f hLt
    have hFault : (a.source js).reply f =
        .error (.ofStatus "next" .failure ("injected failure at position " ++ toString f)) :=
      if_pos hf
    cases hFault.symm.trans hReply
  · exact hLe

theorem jobAt_of_handsOut (h : (a.source js).HandsOut n) : a.jobAt n = n := by
  unfold jobAt
  split
  · next f hf => exact if_neg (Nat.not_lt_of_le (le_fault_of_handsOut h f hf))
  · rfl

theorem eq_length_of_end (h : (a.source js).HandsOut n) (hn : n ≤ js.length)
    (hEnd : (a.source js).reply n = .ok none) : n = js.length := by
  have hReply : a.reply js n = .ok none := hEnd
  unfold reply at hReply
  rw [jobAt_of_handsOut h] at hReply
  split at hReply
  · cases hReply
  · split at hReply
    · next job _ =>
      cases hResolve : a.resolve job with
      | error e => rw [hResolve] at hReply; cases hReply
      | ok handle => rw [hResolve] at hReply; cases hReply
    · next hNone => exact Nat.le_antisymm hn (List.getElem?_eq_none_iff.mp hNone)

theorem not_handsOut_past_jobs : ¬(a.source js).HandsOut (js.length + 1) := by
  intro h
  obtain ⟨handle, hReply⟩ := h js.length (Nat.lt_succ_self _)
  have hPrefix : (a.source js).HandsOut js.length := fun i hi => h i (Nat.lt_succ_of_lt hi)
  have hFault : a.faults.nextAt ≠ some js.length := fun hf =>
    Nat.not_succ_le_self _ (le_fault_of_handsOut h js.length hf)
  have hEnd : a.reply js js.length = .ok none := by
    rw [reply, if_neg hFault, jobAt_of_handsOut hPrefix, List.getElem?_eq_none (Nat.le_refl _)]
  cases hEnd.symm.trans hReply

theorem source_stops (a : Archive) (js : List Job) :
    ∃ k ≤ js.length, (a.source js).StopsAt k := by
  rcases (a.source js).handsOut_or_stops (js.length + 1) with hHands | ⟨k, hk, hStop⟩
  · exact absurd hHands not_handsOut_past_jobs
  · exact ⟨k, Nat.le_of_lt_succ hk, hStop⟩

end

/-- Over the jobs of an archive it makes no difference whether their number is known beforehand. -/
theorem agrees_of_plans (a : Archive) (js : List Job) (shape : Shape) (first second : Action) :
    (ResultIterator.start (a.source js).toSource (.repeated shape) first).Agrees
      (.start (a.source js).toSource (.perRequest (List.replicate js.length shape)) second) := by
  obtain ⟨k, hk, hStop⟩ := source_stops a js
  have hCount : k ≤ (List.replicate js.length shape).length := by rwa [List.length_replicate]
  have hPlans : ∀ i < k, (ShapePlan.repeated shape).shapeAt i =
      (ShapePlan.perRequest (List.replicate js.length shape)).shapeAt i := by
    intro i hi
    rw [ShapePlan.shapeAt, ShapePlan.shapeAt, List.getElem?_replicate,
      if_pos (Nat.lt_of_lt_of_le hi hk)]
  have hOpen : ResultIterator.Feeds (a.source js).toSource (.repeated shape) k :=
    ResultIterator.feeds_repeated hStop.before
  have hSingle := ResultIterator.trace_of_stop first hOpen hStop.stop (fun _ => by rintro m ⟨⟩)
  have hBatch := ResultIterator.trace_of_stop second
    (ResultIterator.feeds_perRequest hStop.before hCount) hStop.stop
    (fun hEnd => by rintro m ⟨⟩; rw [List.length_replicate, eq_length_of_end hStop.before hk hEnd])
  exact hSingle.agrees hBatch hPlans

end Archive

namespace Request

variable {σ τ : Type}

/-- The same ranges of another target. -/
def retarget (r : Request τ) (target : σ) : Request σ := { r with target := target }

theorem ofPairs_retarget {pairs : List (Nat × Nat)} {gridHash : Option String} {target : τ}
    {r : Request τ} (h : ofPairs target pairs gridHash = .ok r) (other : σ) :
    ofPairs other pairs gridHash = .ok (r.retarget other) := by
  obtain ⟨hRanges, _, hHash⟩ := ofPairs_eq_ok_iff.mp h
  exact ofPairs_eq_ok_iff.mpr ⟨hRanges, rfl, hHash⟩

theorem exists_ofPairs {pairs : List (Nat × Nat)} {ranges : Selection}
    (hRanges : Selection.validate pairs = .ok ranges) (target : τ) (gridHash : Option String) :
    ∃ r, ofPairs target pairs gridHash = .ok r := by
  obtain ⟨hNil, hTotal⟩ := Selection.validate_sound hRanges
  exact ⟨⟨target, ranges, gridHash, hNil, hTotal⟩, ofPairs_eq_ok_iff.mpr ⟨hRanges, rfl, rfl⟩⟩

theorem shapes_retarget (r : Request τ) (targets : List σ) :
    (targets.map r.retarget).map shape = List.replicate targets.length r.shape := by
  rw [List.map_map, ← List.map_const']
  rfl

end Request

namespace Client

/-- The hash that is sent, if the client does not withhold it. -/
def sentHash (c : Client) (gridHash : Option String) : Option String :=
  if c.settings.ignoreGridHash then none else gridHash

theorem jobs_admitted (c : Client) (r : KeyRequest) (keys : List Key) :
    Archive.jobs (.keys (c.admitted (keys.map r.retarget))) =
      .ok (keys.map (Archive.jobOfKey (c.sentHash r.gridHash) r.ranges.bounds)) := by
  unfold admitted sentHash
  split
  · rw [Archive.jobs, List.map_map, List.map_map]
    rfl
  · rw [Archive.jobs, List.map_map]
    rfl

/-- A request as it reaches the engine. -/
def sentRequest {τ : Type} (c : Client) (r : Request τ) : Request τ :=
  { r with gridHash := c.sentHash r.gridHash }

theorem admitted_eq_map {τ : Type} (c : Client) (requests : List (Request τ)) :
    c.admitted requests = requests.map c.sentRequest := by
  unfold admitted
  split
  · next hIgnored =>
    apply List.map_congr_left
    intro r _
    rw [sentRequest, sentHash, if_pos hIgnored]
    rfl
  · next hSent =>
    calc
      requests = requests.map id := (List.map_id _).symm
      _ = requests.map c.sentRequest := by
        apply List.map_congr_left
        intro r _
        rw [sentRequest, sentHash, if_neg hSent]
        rfl

/-- A batch iterates over the jobs of its requests as they are sent. -/
theorem extractBatch_sent {τ : Type} {a : Archive} {submission : List (Request τ) → Submission}
    {target : τ → Archive.Target} {requests : List (Request τ)} (c : Client)
    (context : Option Context) (hFault : a.faults.submission = none) (hSome : requests ≠ [])
    (hJobs : ∀ sent, Archive.jobs (submission sent) = .ok (sent.map (Archive.jobOf target))) :
    (c.extractBatch submission requests context a).answer =
      .ok (.start (a.source ((requests.map c.sentRequest).map (Archive.jobOf target)))
        (.perRequest ((requests.map c.sentRequest).map Request.shape))
        (submission (requests.map c.sentRequest)).action) := by
  have hShapes : (requests.map c.sentRequest).map Request.shape = requests.map Request.shape := by
    rw [List.map_map]
    rfl
  rw [hShapes, ← admitted_eq_map]
  exact extractBatch_answer c context hFault hSome (hJobs (c.admitted requests))

/-- An extraction by keys iterates over the jobs of the requests as they are sent. -/
theorem extract_answer {a : Archive} {requests : List KeyRequest} (c : Client)
    (context : Option Context) (hFault : a.faults.submission = none) (hSome : requests ≠ []) :
    (c.extract requests context a).answer =
      .ok (.start
        (a.source ((requests.map c.sentRequest).map (Archive.jobOf Archive.keyTarget)))
        (.perRequest ((requests.map c.sentRequest).map Request.shape)) .extract) :=
  extractBatch_sent c context hFault hSome fun _ => rfl

/-- Extraction of a key in one submission and as a batch of the keys that it stands for, whatever
the archive holds and wherever it fails or cuts off samples. -/
theorem extractSingle_agrees (c : Client) (a : Archive) (k : Key) (pairs : List (Nat × Nat))
    (ranges : Selection) (gridHash : Option String) (context other : Option Context)
    (hFault : a.faults.submission = none) (hKey : k.Separable)
    (hFilled : ∀ p ∈ k.pairs, p.2.values ≠ []) (hRanges : Selection.validate pairs = .ok ranges) :
    ∃ requests single batch,
      (k.expand.mapM fun one => Request.ofPairs one pairs gridHash) = .ok requests ∧
      (c.extractSingle k pairs gridHash context a).answer = .ok single ∧
      (c.extract requests other a).answer = .ok batch ∧
      single.Agrees batch.toResultIterator := by
  obtain ⟨r, hRequest⟩ := Request.exists_ofPairs hRanges k gridHash
  have hTarget : r.target = k := (Request.ofPairs_eq_ok_iff.mp hRequest).2.1
  have hRequests : (k.expand.mapM fun one => Request.ofPairs one pairs gridHash) =
      .ok (k.expand.map r.retarget) :=
    mapM_of_ok fun one _ => Request.ofPairs_retarget hRequest one
  have hSingle : (c.extractSingle k pairs gridHash context a).answer =
      .ok (.start (a.source (k.expand.map
        (Archive.jobOfKey (c.sentHash r.gridHash) r.ranges.bounds))) (.repeated r.shape)
        .extractSingle) := by
    rw [extractSingle, hRequest]
    refine submit_answer c _ _ _ context hFault ?_
    rw [KeyRequest.retrieveText, hTarget]
    exact Archive.jobs_single r.ranges _ hKey hFilled
  have hSome : k.expand.map r.retarget ≠ [] := by
    rw [Ne, List.map_eq_nil_iff]
    exact Key.expand_ne_nil hFilled
  have hBatch : (c.extract (k.expand.map r.retarget) other a).answer = _ :=
    extractBatch_answer c other hFault hSome (c.jobs_admitted r k.expand)
  rw [Request.shapes_retarget] at hBatch
  refine ⟨_, _, _, hRequests, hSingle, hBatch, ?_⟩
  have hLength : k.expand.length = (k.expand.map
      (Archive.jobOfKey (c.sentHash r.gridHash) r.ranges.bounds)).length :=
    (List.length_map _).symm
  rw [hLength]
  exact a.agrees_of_plans _ r.shape _ _

/-- Two steps of one parameter; the second advance fails, and the first result lacks a sample. -/
theorem extractSingle_agrees_of_two_steps :
    let k := Key.ofList [("param", .single "t"), ("step", .multi ["0", "6"])]
    let a := { Archive.empty.addField k [⟨0⟩, Sample.missing] none with
      faults := ⟨none, some 1, 1⟩ }
    let c := Client.new ⟨"user", "host"⟩
    let ranges : Selection := [⟨0, 2, by decide⟩]
    a.faults.submission = none ∧ k.Separable ∧ (∀ p ∈ k.pairs, p.2.values ≠ []) ∧
      Selection.validate [(0, 2)] = .ok ranges ∧
      ∃ requests single batch,
        (k.expand.mapM fun one => Request.ofPairs one [(0, 2)] none) = .ok requests ∧
        (c.extractSingle k [(0, 2)] none none a).answer = .ok single ∧
        (c.extract requests none a).answer = .ok batch ∧
        single.Agrees batch.toResultIterator := by
  intro k a c ranges
  have hKey : k.Separable := ⟨by decide, by decide⟩
  have hFilled : ∀ p ∈ k.pairs, p.2.values ≠ [] := by decide
  have hRanges : Selection.validate [(0, 2)] = .ok ranges := rfl
  exact ⟨rfl, hKey, hFilled, hRanges,
    extractSingle_agrees c a k [(0, 2)] ranges none none none rfl hKey hFilled hRanges⟩

end Client

end FieldExtract
