import FieldExtract.Proofs.KeyExtraction
import FieldExtract.Proofs.Materialization

/-!
# Injected faults

Two runs of one batch, over an archive as it is and over the same archive made to fail, stay in step
as long as they are replied to alike. A failure at one advance breaks a run off there, or is never
reached. Samples cut off make every result short of samples and change nothing else: the iterator
hands the results on as they come, and the mask is a buffer of its own.
-/

namespace FieldExtract

/-- The same loader, but each of its buffers lacks so many elements at its end. -/
def Loader.cut {α : Type} (n : Nat) (l : Loader α) : Loader α :=
  { l with reply := fun i => (l.reply i).map fun xs => xs.take (xs.length - n) }

def Handle.cut (n : Nat) (h : Handle) : Handle := { h with values := h.values.cut n }

namespace Buffer

variable {α : Type} {b : Buffer α} {expected t : Nat} {xs : List α}

theorem Asked.serves (h : b.Asked expected (fun _ => .ok xs) t) : b.Serves xs := by
  rcases h.progress with ⟨hEmpty, _, _⟩ | ⟨_, _, _, hLoaded, hFirst⟩
  · exact .inr ⟨hEmpty, fun _ => by rw [h.reply_eq]⟩
  · cases hFirst.reply_eq
    exact .inl hLoaded

theorem Asked.fetch_of_misfit (h : b.Asked expected (fun _ => .ok xs) t) (kind : BufferKind)
    (hLength : xs.length ≠ expected) :
    (b.fetch kind expected).answer = .error (.shape ⟨kind, expected, xs.length⟩) := by
  have hNone : ∀ i < t, ¬Usable expected (.ok xs) := by
    rintro _ _ ⟨ys, hReply, hFits⟩
    cases hReply
    exact hLength hFits
  rw [fetch_of_empty (h.loaded_eq_none hNone).1, h.reply_eq]
  simp only [hLength, if_false]

end Buffer

namespace Result

def cut (n : Nat) (r : Result) : Result :=
  { r with values := { r.values with loader := r.values.loader.cut n } }

/-- The result reads as the whole one, except that its samples are too few for its shape. -/
structure Lacks (n : Nat) (r whole : Result) : Prop where
  shape_eq : r.shape = whole.shape
  masks : ∀ a : Accessor, a.buffer = .mask → ∃ reading, ∀ history,
    ((r.after history).access a).answer = .ok reading ∧
      ((whole.after history).access a).answer = .ok reading
  values : ∀ a : Accessor, a.buffer = .values → ∀ history,
    ((r.after history).access a).answer =
      .error (.shape ⟨.values, whole.shape.total, whole.shape.total - n⟩)

section

variable {a : Accessor} {shape : Shape} {calls : List BufferKind} {r : Result}

theorem access_of_values (h : a.buffer = .values) (shape : Shape) :
    ∃ read : List Sample → Reading, ∀ r : Result, r.shape = shape →
      (r.access a).answer = r.flatValues.answer.map read := by
  cases hView : a.view shape with
  | ofWords read => cases a <;> cases h <;> cases hView
  | ofSamples read =>
    refine ⟨read, ?_⟩
    rintro r rfl
    rw [access_eq, hView, Outcome.map_answer]

theorem access_of_mask (h : a.buffer = .mask) (shape : Shape) :
    ∃ read : List UInt64 → Reading, ∀ r : Result, r.shape = shape →
      (r.access a).answer = r.flatMasks.answer.map read := by
  cases hView : a.view shape with
  | ofSamples read => cases a <;> cases h <;> cases hView
  | ofWords read =>
    refine ⟨read, ?_⟩
    rintro r rfl
    rw [access_eq, hView, Outcome.map_answer]

theorem Asked.flatMasks_of_constant {values : Nat → Except EngineError (List Sample)}
    {words : List UInt64} (h : r.Asked shape values (fun _ => .ok words) calls)
    (hLength : shape.totalMaskWords = words.length) : r.flatMasks.answer = .ok words := by
  obtain ⟨rfl, _, hMask⟩ := h
  exact hMask.serves.fetch_answer .mask hLength

theorem Asked.flatValues_of_misfit {mask : Nat → Except EngineError (List UInt64)}
    {samples : List Sample} (h : r.Asked shape (fun _ => .ok samples) mask calls)
    (hLength : samples.length ≠ shape.total) :
    r.flatValues.answer = .error (.shape ⟨.values, shape.total, samples.length⟩) := by
  obtain ⟨rfl, hValues, _⟩ := h
  exact hValues.fetch_of_misfit .values hLength

end

/-- Samples cut off the blocks of a result, of which there must be some. -/
theorem lacks_cut {blocks : List Block} {n : Nat} (hn : 0 < n)
    (hSome : 0 < (Block.shape blocks).total) :
    (cut n (ofHandle (Block.handle blocks) (Block.shape blocks))).Lacks n
      (ofHandle (Block.handle blocks) (Block.shape blocks)) := by
  let samples := blocks.flatMap Block.samples
  let words := blocks.flatMap Block.words
  have hTotal : (Block.shape blocks).total = samples.length := Block.total_shape blocks
  have hLength : (samples.take (samples.length - n)).length = (Block.shape blocks).total - n := by
    rw [List.length_take, hTotal]
    omega
  have hAsked : ∀ history,
      ((cut n (ofHandle (Block.handle blocks) (Block.shape blocks))).after history).Asked
        (Block.shape blocks) (fun _ => .ok (samples.take (samples.length - n)))
        (fun _ => .ok words) (history.map Accessor.buffer) :=
    asked_ofReplies _ _ _
  refine ⟨rfl, ?_, ?_⟩
  · intro a hBuffer
    obtain ⟨read, hRead⟩ := access_of_mask hBuffer (Block.shape blocks)
    refine ⟨read words, fun history => ⟨?_, ?_⟩⟩
    · rw [hRead _ (hAsked history).shape_eq,
        (hAsked history).flatMasks_of_constant (Block.totalMaskWords_shape blocks)]
      rfl
    · have hServes := (serves_ofHandle blocks).after history
      rw [hRead _ hServes.shape_eq, hServes.flatMasks_answer]
      rfl
  · intro a hBuffer history
    obtain ⟨read, hRead⟩ := access_of_values hBuffer (Block.shape blocks)
    rw [hRead _ (hAsked history).shape_eq,
      (hAsked history).flatValues_of_misfit (by rw [hLength]; omega), hLength]
    rfl

end Result

namespace ResultIterator

/-- So many results come, and then the end or a failure of the engine. -/
structure Gives (it : ResultIterator) (m : Nat) : Prop where
  results : ∀ i < m, ∃ r, it.item i = some (.ok r)
  stop : it.item m = none ∨ ∃ e, it.item m = some (.error (.engine e))

theorem Gives.not_lt {it : ResultIterator} {m n : Nat} (h : it.Gives m) (h' : it.Gives n) :
    ¬m < n := by
  intro hLt
  obtain ⟨r, hResult⟩ := h'.results m hLt
  rcases h.stop with hNone | ⟨e, hError⟩
  · cases hNone.symm.trans hResult
  · cases hError.symm.trans hResult

theorem Gives.unique {it : ResultIterator} {m n : Nat} (h : it.Gives m) (h' : it.Gives n) : m = n :=
  Nat.le_antisymm (Nat.le_of_not_lt (h'.not_lt h)) (Nat.le_of_not_lt (h.not_lt h'))

/-- Both iterators have come equally far after any number of calls, with the same journal. -/
structure KeepsPace (it other : ResultIterator) : Prop where
  history : ∀ n, it.history n = other.history n
  yielded : ∀ n, (it.after n).yielded = (other.after n).yielded
  finished : ∀ n, (it.after n).isFinished = (other.after n).isFinished

/-- The run is the other one up to a position, at which it fails and ends. -/
structure BreaksOff (it other : ResultIterator) (k : Nat) : Prop where
  before : ∀ i < k, it.item i = other.item i
  history : it.history k = other.history k
  failure : ∃ e, it.item k = some (.error (.engine e)) ∧ e.status? = some .failure
  silent : ∀ n > k, it.item n = none

structure Repeats (it other : ResultIterator) : Prop where
  item : ∀ i, it.item i = other.item i
  pace : it.KeepsPace other

/-- The run is the other one, but for results that lack samples. -/
structure RunsShort (n : Nat) (it other : ResultIterator) : Prop where
  results : ∀ i whole, other.item i = some (.ok whole) →
    ∃ r, it.item i = some (.ok r) ∧ r.Lacks n whole
  failed : ∀ i e, it.item i = some (.error e) ↔ other.item i = some (.error e)
  ended : ∀ i, it.item i = none ↔ other.item i = none
  pace : it.KeepsPace other

/-- The runs of one call over one archive, by the position at which the archive is made to fail and
by how many samples it cuts off. -/
structure FaultsIsolated (run : Option Nat → Nat → ResultIterator) : Prop where
  failure : ∀ n, ∃ m, (run none n).Gives m ∧ ∀ k,
    (k ≤ m → (run (some k) n).BreaksOff (run none n) k) ∧
      (m < k → (run (some k) n).Repeats (run none n))
  truncation : ∀ n > 0, (run none n).RunsShort n (run none 0)

section

variable {source t : Source} {plan : ShapePlan} {action : Action} {n : Nat} {f : Handle → Handle}
  {g : Result → Result}

theorem Trace.gives {it : ResultIterator} {m : Nat}
    (h : it.Trace source plan m (source.failureAt m)) : it.Gives m where
  results i hi := by
    obtain ⟨handle, s, _, _, hItem⟩ := h.results i hi
    exact ⟨_, hItem⟩
  stop := by
    rw [h.last, Source.failureAt]
    cases source.reply m with
    | ok _ => exact .inl rfl
    | error e => exact .inr ⟨e, rfl⟩

/-- The same iterator with another source, advanced as often. -/
def fedBy (t : Source) (it : ResultIterator) : ResultIterator :=
  { it with feed := it.feed.map fun feed => { feed with source := t } }

theorem isFinished_fedBy (t : Source) (it : ResultIterator) :
    (it.fedBy t).isFinished = it.isFinished :=
  Option.isNone_map

theorem completion_fedBy (g : Result → Result) (t : Source) (it : ResultIterator) :
    (it.fedBy t).completion =
      ⟨it.completion.answer.map (Except.map g), it.completion.state.fedBy t,
        it.completion.journal⟩ := by
  have hSame : ((it.fedBy t).expected.filter fun n => n != (it.fedBy t).yielded) =
      it.expected.filter fun n => n != it.yielded := rfl
  unfold completion
  rw [hSame]
  cases it.expected.filter fun n => n != it.yielded <;> rfl

/-- One call in two runs; a source that hands out other handles makes other results of them. -/
theorem next_fedBy {it : ResultIterator} (hMade : ∀ h s, g (.ofHandle h s) = .ofHandle (f h) s)
    (hReplies : ∀ feed ∈ it.feed, t.reply feed.advances =
      (feed.source.reply feed.advances).map (Option.map f)) :
    (it.fedBy t).next =
      ⟨it.next.answer.map (Except.map g), it.next.state.fedBy t, it.next.journal⟩ := by
  cases hFeed : it.feed with
  | none =>
    have hFed : (it.fedBy t).feed = none := by rw [fedBy, hFeed, Option.map_none]
    rw [next_of_finished hFeed, next_of_finished hFed]
    rfl
  | some feed =>
    have hFed : (it.fedBy t).feed = some ⟨t, feed.advances⟩ := by rw [fedBy, hFeed, Option.map_some]
    have hReply := hReplies feed hFeed
    cases hSource : feed.source.reply feed.advances with
    | error e =>
      rw [hSource] at hReply
      rw [next_of_failure hFeed hSource, next_of_failure hFed hReply]
      rfl
    | ok answer =>
      rw [hSource] at hReply
      cases answer with
      | none =>
        rw [next_of_end hFeed hSource, next_of_end hFed hReply]
        exact completion_fedBy g t it
      | some handle =>
        cases hShape : it.plan.take it.yielded with
        | none =>
          rw [next_of_surplus hFeed hSource hShape, next_of_surplus hFed hReply hShape]
          rfl
        | some taken =>
          rw [next_of_handle hFeed hSource hShape, next_of_handle hFed hReply hShape,
            Option.map_some, Except.map, hMade]
          rfl

/-- Wherever the first run is replied to before a position, the other source replies with what `f`
makes of the handle. -/
def Mirrors (f : Handle → Handle) (it : ResultIterator) (source t : Source) (n : Nat) : Prop :=
  ∀ i < n, (it.after i).isFinished = false → t.reply i = (source.reply i).map (Option.map f)

theorem Mirrors.mono {it : ResultIterator} {m : Nat} (h : it.Mirrors f source t n) (hm : m ≤ n) :
    it.Mirrors f source t m :=
  fun i hi => h i (Nat.lt_of_lt_of_le hi hm)

theorem mirrors_of_same {it : ResultIterator}
    (h : ∀ i < n, (it.after i).isFinished = false → t.reply i = source.reply i) :
    it.Mirrors id source t n := by
  intro i hi hOpen
  rw [h i hi hOpen, Option.map_id]
  cases source.reply i <;> rfl

theorem next_of_mirrors (hMade : ∀ h s, g (.ofHandle h s) = .ofHandle (f h) s)
    (h : (start source plan action).Mirrors f source t (n + 1)) :
    (((start source plan action).after n).fedBy t).next =
      ⟨((start source plan action).item n).map (Except.map g),
        ((start source plan action).after (n + 1)).fedBy t,
        ((start source plan action).after n).next.journal⟩ := by
  apply next_fedBy hMade
  intro feed hFeed
  have hOpen : ((start source plan action).after n).isFinished = false := by
    rw [isFinished, hFeed]
    rfl
  cases feed_after source plan action n feed hFeed
  exact h n (Nat.lt_succ_self n) hOpen

/-- The two runs stay in step: what is made of the handles is never looked at. -/
theorem after_of_mirrors (h : (start source plan action).Mirrors f source t n) :
    (start t plan action).after n = ((start source plan action).after n).fedBy t ∧
      (start t plan action).history n = (start source plan action).history n := by
  induction n with
  | zero => exact ⟨rfl, rfl⟩
  | succ n ih =>
    obtain ⟨hAfter, hHistory⟩ := ih (h.mono (Nat.le_succ n))
    let g : Result → Result := fun r => .ofHandle (f ⟨r.values.loader, r.mask.loader⟩) r.shape
    have hNext := next_of_mirrors (g := g) (fun _ _ => rfl) h
    rw [← hAfter] at hNext
    constructor
    · rw [after, hNext]
    · rw [history, history, hNext, hHistory]

theorem item_of_mirrors (hMade : ∀ h s, g (.ofHandle h s) = .ofHandle (f h) s)
    (h : (start source plan action).Mirrors f source t (n + 1)) :
    (start t plan action).item n = ((start source plan action).item n).map (Except.map g) := by
  rw [item, (after_of_mirrors (h.mono (Nat.le_succ n))).1, next_of_mirrors hMade h]

theorem keepsPace_of_mirrors (h : ∀ n, (start source plan action).Mirrors f source t n) :
    (start t plan action).KeepsPace (start source plan action) where
  history n := (after_of_mirrors (h n)).2
  yielded n := by
    rw [(after_of_mirrors (h n)).1]
    rfl
  finished n := by rw [(after_of_mirrors (h n)).1, isFinished_fedBy]

theorem item_of_same (h : (start source plan action).Mirrors id source t (n + 1)) :
    (start t plan action).item n = (start source plan action).item n := by
  rw [item_of_mirrors (g := id) (fun _ _ => rfl) h]
  cases (start source plan action).item n with
  | none => rfl
  | some answer => cases answer <;> rfl

section

variable {m k : Nat} (hTrace : (start source plan action).Trace source plan m (source.failureAt m))
  (hSame : ∀ i < k, t.reply i = source.reply i)
include hTrace hSame

/-- A failure no later than the position at which the run would have stopped. -/
theorem breaksOff_of_failure {e : EngineError} (hk : k ≤ m) (hReply : t.reply k = .error e)
    (hStatus : e.status? = some .failure) :
    (start t plan action).BreaksOff (start source plan action) k := by
  have hMirrors : (start source plan action).Mirrors id source t k :=
    mirrors_of_same fun i hi _ => hSame i hi
  have hFeeds : Feeds t plan k := by
    intro i hi
    obtain ⟨h, s, hHandle, hShape, _⟩ := hTrace.results i (Nat.lt_of_lt_of_le hi hk)
    exact ⟨h, s, (hSame i hi).trans hHandle, hShape⟩
  have hBroken := trace_of_failure action hFeeds hReply
  exact
    { before := fun i hi => item_of_same (hMirrors.mono hi)
      history := (after_of_mirrors hMirrors).2
      failure := ⟨e, hBroken.last, hStatus⟩
      silent := hBroken.silent }

/-- The run has stopped before the two sources reply differently. -/
theorem repeats_of_stop (hk : m < k) :
    (start t plan action).Repeats (start source plan action) := by
  have hBefore : ∀ i, ((start source plan action).after i).isFinished = false → i < k := by
    intro i hOpen
    have hLe : ¬m < i := by
      rw [← hTrace.finished, hOpen]
      exact Bool.false_ne_true
    omega
  have hMirrors : ∀ n, (start source plan action).Mirrors id source t n :=
    fun n => mirrors_of_same fun i _ hOpen => hSame i (hBefore i hOpen)
  exact ⟨fun i => item_of_same (hMirrors (i + 1)), keepsPace_of_mirrors hMirrors⟩

end

/-- Handles that are cut make results that are cut. -/
theorem runsShort_of_cut
    (hReplies : ∀ i, t.reply i = (source.reply i).map (Option.map (Handle.cut n)))
    (hLacks : ∀ i whole, (start source plan action).item i = some (.ok whole) →
      (whole.cut n).Lacks n whole) :
    (start t plan action).RunsShort n (start source plan action) := by
  have hMirrors : ∀ m, (start source plan action).Mirrors (Handle.cut n) source t m :=
    fun m i _ _ => hReplies i
  have hItem : ∀ i, (start t plan action).item i =
      ((start source plan action).item i).map (Except.map (Result.cut n)) :=
    fun i => item_of_mirrors (fun _ _ => rfl) (hMirrors (i + 1))
  refine ⟨?_, ?_, ?_, keepsPace_of_mirrors hMirrors⟩
  · intro i whole hWhole
    exact ⟨whole.cut n, by rw [hItem, hWhole]; rfl, hLacks i whole hWhole⟩
  · intro i e
    rw [hItem]
    cases (start source plan action).item i with
    | none => exact Iff.rfl
    | some answer => cases answer <;> simp [Except.map]
  · intro i
    rw [hItem, Option.map_eq_none_iff]

end

end ResultIterator

theorem Selection.total_shape_pos {s : Selection} (h : s ≠ []) : 0 < s.shape.total := by
  cases s with
  | nil => exact absurd rfl h
  | cons r rs => exact Nat.lt_of_lt_of_le r.len_pos (Nat.le_add_right _ _)

namespace Archive

/-- The same archive, made to fail at one advance of each source or to cut off samples. -/
def withFaults (a : Archive) (nextAt : Option Nat) (truncate : Nat) : Archive :=
  { a with faults := ⟨none, nextAt, truncate⟩ }

section

variable {a : Archive} {js : List Job} {i k n : Nat}

theorem find_withFaults (a : Archive) (nextAt : Option Nat) (n : Nat) (target : Target) :
    (a.withFaults nextAt n).find target = a.find target := by
  cases target <;> rfl

theorem resolve_withFaults (a : Archive) (nextAt : Option Nat) (n : Nat) (job : Job) :
    (a.withFaults nextAt n).resolve job =
      ((a.withFaults none 0).resolve job).map (Handle.cut n) := by
  unfold resolve
  rw [find_withFaults, find_withFaults]
  cases a.find job.target with
  | error e => rfl
  | ok found =>
    obtain ⟨samples, gridHash⟩ := found
    simp only [bind, Except.bind, pure, Except.pure]
    cases checkGrid job.gridHash gridHash with
    | error e => rfl
    | ok _ =>
      cases job.bounds.mapM (slice samples) with
      | error e => rfl
      | ok slices =>
        have hWhole : slices.flatten.take (slices.flatten.length - 0) = slices.flatten := by
          rw [Nat.sub_zero, List.take_length]
        simp only [withFaults, hWhole]
        rfl

theorem reply_of_truncation :
    (a.withFaults none n).reply js i =
      ((a.withFaults none 0).reply js i).map (Option.map (Handle.cut n)) := by
  have hNext : ∀ n, (a.withFaults none n).faults.nextAt = none := fun _ => rfl
  cases hJob : js[i]? with
  | none =>
    simp only [reply, jobAt, hNext, hJob, reduceCtorEq, if_false]
    rfl
  | some job =>
    simp only [reply, jobAt, hNext, hJob, reduceCtorEq, if_false]
    rw [resolve_withFaults]
    cases (a.withFaults none 0).resolve job <;> rfl

theorem reply_before_failure (hi : i < k) :
    (a.withFaults (some k) n).reply js i = (a.withFaults none n).reply js i := by
  have hOther : (a.withFaults (some k) n).faults.nextAt ≠ some i :=
    fun h => Nat.ne_of_gt hi (Option.some.inj h)
  have hJob : (a.withFaults (some k) n).jobAt i = i := if_neg (Nat.not_lt_of_lt hi)
  have hResolve : ∀ job, (a.withFaults (some k) n).resolve job =
      (a.withFaults none n).resolve job := by
    intro job
    rw [resolve_withFaults, ← resolve_withFaults]
  rw [reply, if_neg hOther, hJob]
  simp only [hResolve]
  rfl

theorem reply_at_failure :
    (a.withFaults (some k) n).reply js k =
      .error (.ofStatus "next" .failure ("injected failure at position " ++ toString k)) :=
  if_pos rfl

end

section

variable {τ : Type} {a : Archive} {target : τ → Target} {requests : List (Request τ)}

/-- What is handed out for a request are the blocks of its ranges. -/
theorem handle_of_reply {r : Request τ} {h : Handle} {i : Nat}
    (hFaults : a.faults = ⟨none, none, 0⟩) (hr : requests[i]? = some r)
    (hReply : a.reply (requests.map (jobOf target)) i = .ok (some h)) :
    ∃ samples, (∀ range ∈ r.ranges, range.hi ≤ samples.length) ∧
      h = Block.handle (r.ranges.blocks samples) := by
  cases hDefect : a.defectOf target r with
  | none =>
    obtain ⟨samples, _, _, hRanges, hSound⟩ := reply_of_sound hFaults hr hDefect
    cases hSound.symm.trans hReply
    exact ⟨samples, hRanges, rfl⟩
  | some status =>
    obtain ⟨e, hRefused, _⟩ := reply_of_defect (by rw [hFaults]) hr hDefect
    cases hRefused.symm.trans hReply

/-- The run of a batch over the archive, made to fail like this. -/
def run (a : Archive) (target : τ → Target) (requests : List (Request τ)) (action : Action)
    (nextAt : Option Nat) (truncate : Nat) : ResultIterator :=
  .start ((a.withFaults nextAt truncate).source (requests.map (jobOf target))).toSource
    (.perRequest (requests.map Request.shape)) action

theorem trace_of_run (a : Archive) (target : τ → Target) (requests : List (Request τ))
    (action : Action) (n : Nat) :
    let source := (a.withFaults none n).source (requests.map (jobOf target))
    ∃ m, (a.run target requests action none n).Trace source.toSource
      (.perRequest (requests.map Request.shape)) m (source.failureAt m) := by
  intro source
  obtain ⟨m, hm, hStop⟩ := source_stops (a.withFaults none n) (requests.map (jobOf target))
  have hShapes : m ≤ (requests.map Request.shape).length := by
    rwa [List.length_map, ← List.length_map (jobOf target)]
  refine ⟨m, ResultIterator.trace_of_stop action
    (ResultIterator.feeds_perRequest hStop.before hShapes) hStop.stop ?_⟩
  rintro hEnd _ ⟨⟩
  rw [List.length_map, eq_length_of_end hStop.before hm hEnd, List.length_map]

theorem lacks_of_run {action : Action} {n i : Nat} {whole : Result} (hn : 0 < n)
    (hItem : (a.run target requests action none 0).item i = some (.ok whole)) :
    (whole.cut n).Lacks n whole := by
  obtain ⟨m, hTrace⟩ := trace_of_run a target requests action 0
  obtain ⟨h, s, hReply, hShape, rfl⟩ := hTrace.reply_of_result hItem
  rw [ShapePlan.shapeAt, List.getElem?_map, Option.map_eq_some_iff] at hShape
  obtain ⟨r, hr, rfl⟩ := hShape
  obtain ⟨samples, hRanges, rfl⟩ := handle_of_reply (a := a.withFaults none 0) rfl hr hReply
  have hBlocks : Block.shape (r.ranges.blocks samples) = r.shape := Selection.shape_blocks hRanges
  rw [← hBlocks]
  exact Result.lacks_cut hn (hBlocks ▸ Selection.total_shape_pos r.nonempty)

theorem faultsIsolated_run (a : Archive) (target : τ → Target) (requests : List (Request τ))
    (action : Action) : ResultIterator.FaultsIsolated (a.run target requests action) where
  failure n := by
    obtain ⟨m, hTrace⟩ := trace_of_run a target requests action n
    have hSame : ∀ k, ∀ i < k, (a.withFaults (some k) n).reply (requests.map (jobOf target)) i =
        (a.withFaults none n).reply (requests.map (jobOf target)) i :=
      fun k i hi => reply_before_failure hi
    refine ⟨m, hTrace.gives, fun k => ⟨fun hk => ?_, fun hk => ?_⟩⟩
    · exact ResultIterator.breaksOff_of_failure hTrace (hSame k) hk reply_at_failure
        (EngineError.status?_ofStatus _ _ _)
    · exact ResultIterator.repeats_of_stop hTrace (hSame k) hk
  truncation n hn :=
    ResultIterator.runsShort_of_cut (fun _ => reply_of_truncation) fun _ _ => lacks_of_run hn

end

end Archive

namespace Client

theorem faultsIsolated_of_batch {τ : Type} {submission : List (Request τ) → Submission}
    {requests : List (Request τ)} (c : Client) (a : Archive) (target : τ → Archive.Target)
    (context : Option Context) (hSome : requests ≠ [])
    (hJobs : ∀ sent, Archive.jobs (submission sent) = .ok (sent.map (Archive.jobOf target))) :
    ∃ run : Option Nat → Nat → BoundedIterator,
      (∀ nextAt n, (c.extractBatch submission requests context (a.withFaults nextAt n)).answer =
        .ok (run nextAt n)) ∧
      ResultIterator.FaultsIsolated fun nextAt n => (run nextAt n).toResultIterator :=
  ⟨_, fun nextAt n => extractBatch_sent (a := a.withFaults nextAt n) c context rfl hSome hJobs,
    a.faultsIsolated_run target (requests.map c.sentRequest) _⟩

/-- Any archive, and any batch of keys or of places in files. Where the archive fails or cuts off
samples makes no difference to the call itself, which fetches nothing. -/
theorem injected_faults_isolated (c : Client) (a : Archive) (context : Option Context) :
    (∀ requests : List KeyRequest, requests ≠ [] → ∃ run : Option Nat → Nat → BoundedIterator,
      (∀ nextAt n, (c.extract requests context (a.withFaults nextAt n)).answer =
        .ok (run nextAt n)) ∧
      ResultIterator.FaultsIsolated fun nextAt n => (run nextAt n).toResultIterator) ∧
    ∀ requests : List PathRequest, requests ≠ [] → ∃ run : Option Nat → Nat → BoundedIterator,
      (∀ nextAt n, (c.extractFromPaths requests context (a.withFaults nextAt n)).answer =
        .ok (run nextAt n)) ∧
      ResultIterator.FaultsIsolated fun nextAt n => (run nextAt n).toResultIterator :=
  ⟨fun _ hSome => c.faultsIsolated_of_batch a Archive.keyTarget context hSome fun _ => rfl,
    fun _ hSome => c.faultsIsolated_of_batch a Archive.placeTarget context hSome fun _ => rfl⟩

/-- The second of two requests reaches past its field, so a fault at its position comes first; more
samples are cut off than the first request has. -/
theorem injected_faults_isolated_of_two :
    let place := Location.ofFile "t850.grib" 4
    let a := Archive.empty.addFile "t850.grib" 4 [⟨0⟩, Sample.missing, ⟨1⟩]
    let c := Client.new ⟨"user", "host"⟩
    let inside : PathRequest :=
      ⟨place, [⟨1, 3, by decide⟩, ⟨0, 1, by decide⟩], none, by decide, by decide⟩
    let outside : PathRequest := ⟨place, [⟨2, 4, by decide⟩], none, by decide, by decide⟩
    [inside, outside] ≠ [] ∧ ∃ run : Option Nat → Nat → BoundedIterator,
      (∀ nextAt n,
        (c.extractFromPaths [inside, outside] none (a.withFaults nextAt n)).answer =
          .ok (run nextAt n)) ∧
      (run none 0).Gives 1 ∧ (run (some 1) 0).BreaksOff (run none 0).toResultIterator 1 ∧
      ∃ r, (run none 5).item 0 = some (.ok r) ∧ ∀ history,
        ((r.after history).access .flatValues).answer = .error (.shape ⟨.values, 3, 0⟩) := by
  intro place a c inside outside
  have hSome : [inside, outside] ≠ [] := by simp
  obtain ⟨run, hCall, hIsolated⟩ := (injected_faults_isolated c a none).2 [inside, outside] hSome
  have hRun := Except.ok.inj ((hCall none 0).symm.trans rfl)
  have hFirst : ∃ whole, (run none 0).item 0 = some (.ok whole) ∧ whole.shape.total = 3 :=
    ⟨_, by rw [hRun]; rfl, rfl⟩
  have hGives : (run none 0).Gives 1 := by
    refine ⟨fun i hi => ?_, .inr ⟨_, by rw [hRun]; rfl⟩⟩
    obtain ⟨whole, hWhole, _⟩ := hFirst
    exact ⟨whole, Nat.lt_one_iff.mp hi ▸ hWhole⟩
  obtain ⟨m, hSteps, hFault⟩ := hIsolated.failure 0
  obtain ⟨whole, hWhole, hTotal⟩ := hFirst
  obtain ⟨r, hItem, hLacks⟩ := (hIsolated.truncation 5 (by decide)).results 0 whole hWhole
  have hAt : 1 ≤ m := Nat.le_of_eq (hGives.unique hSteps)
  refine ⟨hSome, run, hCall, hGives, (hFault 1).1 hAt, r, hItem, ?_⟩
  intro history
  rw [hLacks.values .flatValues rfl history, hTotal]

end Client

end FieldExtract
