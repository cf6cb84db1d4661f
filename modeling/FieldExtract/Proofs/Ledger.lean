import FieldExtract.Proofs.Materialization
import FieldExtract.ResultIterator

/-!
# What is held and what has been let go of

A journal settles a change of holdings if every source that it opens and every handle that it has
handed out is, in the end, either held or released. Each call of an iterator settles the change
that it makes, and a dump settles all that its iterator held, wherever it stops.
-/

namespace FieldExtract

/-- How many sources have been opened, and how many sources and results are held. -/
structure Holdings where
  opened : Nat
  sources : Nat
  results : Nat

namespace Holdings

def none : Holdings := ⟨0, 0, 0⟩

def source (held : Nat) : Holdings := ⟨0, held, 0⟩

end Holdings

/-- Loads, reports and calls for axes open nothing, hand out nothing and release nothing. -/
def Entry.isQuiet : Entry → Bool
  | .called (.axes ..) _ | .loaded _ | .reported _ => true
  | .called (.submit _) _ | .advanced _ | .resultReleased | .sourceReleased => false

namespace Journal

structure Settles (j : Journal) (before after : Holdings) : Prop where
  opened : before.opened + j.counts.submissions = after.opened
  sources : before.sources + j.counts.submissions = j.counts.sourcesReleased + after.sources
  results : before.results + j.counts.handles = j.counts.resultsReleased + after.results

theorem settles_nil (h : Holdings) : Settles [] h h :=
  ⟨Nat.add_zero _, (Nat.zero_add _).symm, (Nat.zero_add _).symm⟩

theorem Settles.append {j k : Journal} {before between after : Holdings}
    (hFirst : j.Settles before between) (hSecond : k.Settles between after) :
    Settles (j ++ k) before after := by
  obtain ⟨hOpened, hSources, hResults⟩ := hFirst
  obtain ⟨hOpened', hSources', hResults'⟩ := hSecond
  have hSubmissions := congrArg Counts.submissions (counts_append j k)
  have hSourcesReleased := congrArg Counts.sourcesReleased (counts_append j k)
  have hHandles := congrArg Counts.handles (counts_append j k)
  have hResultsReleased := congrArg Counts.resultsReleased (counts_append j k)
  change _ = j.counts.submissions + k.counts.submissions at hSubmissions
  change _ = j.counts.sourcesReleased + k.counts.sourcesReleased at hSourcesReleased
  change _ = j.counts.handles + k.counts.handles at hHandles
  change _ = j.counts.resultsReleased + k.counts.resultsReleased at hResultsReleased
  constructor <;> omega

/-- A change of one part of what is held settles the whole just as it settles the part. -/
theorem Settles.whole {j : Journal} {part part' all all' : Holdings} (h : j.Settles part part')
    (hOpened : all.opened + part'.opened = all'.opened + part.opened)
    (hSources : all.sources + part'.sources = all'.sources + part.sources)
    (hResults : all.results + part'.results = all'.results + part.results) :
    j.Settles all all' := by
  obtain ⟨hPartOpened, hPartSources, hPartResults⟩ := h
  constructor <;> omega

/-- Nothing but reports. -/
def Silent (j : Journal) : Prop := ∀ entry ∈ j, ∃ event, entry = .reported event

theorem silent_nil : Silent [] := fun _ h => absurd h List.not_mem_nil

theorem silent_singleton (event : Event) : Silent [.reported event] :=
  fun _ h => ⟨event, List.mem_singleton.mp h⟩

theorem Silent.append {j k : Journal} (hFirst : j.Silent) (hSecond : k.Silent) :
    Silent (j ++ k) := by
  intro entry hEntry
  rcases List.mem_append.mp hEntry with h | h
  · exact hFirst entry h
  · exact hSecond entry h

theorem Silent.unheard {j : Journal} (h : j.Silent) : j.counts = .zero ∧ j.contexts = [] := by
  induction j with
  | nil => exact ⟨rfl, rfl⟩
  | cons entry j ih =>
    obtain ⟨event, rfl⟩ := h entry List.mem_cons_self
    exact ih fun later hLater => h later (List.mem_cons_of_mem _ hLater)

/-- Reports around a journal change nothing that is counted or received. -/
theorem Silent.around {before after : Journal} (hBefore : before.Silent) (hAfter : after.Silent)
    (j : Journal) : Journal.counts (before ++ j ++ after) = j.counts ∧
      Journal.contexts (before ++ j ++ after) = j.contexts := by
  rw [counts_append, counts_append, contexts_append, contexts_append, hBefore.unheard.1,
    hBefore.unheard.2, hAfter.unheard.1, hAfter.unheard.2, Counts.zero_add, Counts.add_zero,
    List.nil_append, List.append_nil]
  exact ⟨rfl, rfl⟩

/-- Every entry is quiet. -/
def Quiet (j : Journal) : Prop := ∀ entry ∈ j, entry.isQuiet

theorem quiet_nil : Quiet [] := fun _ h => absurd h List.not_mem_nil

theorem Quiet.append {j k : Journal} (hFirst : j.Quiet) (hSecond : k.Quiet) : Quiet (j ++ k) := by
  intro entry hEntry
  rcases List.mem_append.mp hEntry with h | h
  · exact hFirst entry h
  · exact hSecond entry h

theorem Silent.quiet {j : Journal} (h : j.Silent) : j.Quiet := by
  intro entry hEntry
  obtain ⟨event, rfl⟩ := h entry hEntry
  rfl

theorem Quiet.counts_eq {j : Journal} (h : j.Quiet) :
    j.counts = ⟨0, 0, 0, j.counts.valueLoads, j.counts.maskLoads, j.counts.axesCalls, 0, 0⟩ := by
  have hNone : ∀ p : Entry → Bool, (∀ entry, entry.isQuiet → p entry = false) →
      j.countP p = 0 := by
    intro p hQuiet
    rw [List.countP_eq_zero]
    intro entry hEntry
    rw [hQuiet entry (h entry hEntry)]
    exact Bool.false_ne_true
  simp only [counts, Counts.mk.injEq, true_and]
  refine ⟨hNone _ ?_, hNone _ ?_, hNone _ ?_, hNone _ ?_, hNone _ ?_⟩ <;>
    rintro (⟨_ | _, _⟩ | _ | _ | _ | _ | _) hEntry <;> first | rfl | cases hEntry

theorem Quiet.settles {j : Journal} (h : j.Quiet) (held : Holdings) : j.Settles held held := by
  constructor <;> rw [h.counts_eq] <;> simp

theorem Quiet.advances_eq {j : Journal} (h : j.Quiet) : j.counts.advances = 0 := by
  rw [h.counts_eq]

end Journal

theorem Buffer.quiet_fetch {α : Type} (kind : BufferKind) (expected : Nat) (b : Buffer α) :
    (b.fetch kind expected).journal.Quiet := by
  unfold Journal.Quiet
  rcases b.fetch_journal kind expected with h | h | ⟨e, h⟩ <;> rw [h] <;> simp [Entry.isQuiet]

theorem Handle.quiet_load (h : Handle) : h.load.journal.Quiet := by
  unfold load Journal.Quiet
  dsimp only [Loader.load]
  split
  · simp [Entry.isQuiet]
  · split <;> simp [Entry.isQuiet]

namespace Result

theorem quiet_rangeValues (r : Result) : r.rangeValues.journal.Quiet :=
  r.values.quiet_fetch .values _

theorem quiet_rangeMasks (r : Result) : r.rangeMasks.journal.Quiet :=
  r.mask.quiet_fetch .mask _

theorem quiet_access (r : Result) (a : Accessor) : (r.access a).journal.Quiet := by
  rw [access_eq]
  cases a.view r.shape with
  | ofSamples read => exact r.values.quiet_fetch .values _
  | ofWords read => exact r.mask.quiet_fetch .mask _

end Result

namespace ResultIterator

variable {it : ResultIterator}

/-- How many sources the iterator holds: one, until it has come to its end. -/
def held (it : ResultIterator) : Nat := (!it.isFinished).toNat

theorem held_of_feed {feed : Feed} (h : it.feed = some feed) : it.held = 1 := by
  simp [held, isFinished, h]

theorem held_of_finished (h : it.feed = none) : it.held = 0 := by
  simp [held, isFinished, h]

/-- How many results an answer hands out. -/
def handed : Option (Except ClientError Result) → Nat
  | some (.ok _) => 1
  | _ => 0

theorem completion_counts (it : ResultIterator) :
    it.completion.journal.counts = ⟨0, 1, 0, 0, 0, 0, 0, 1⟩ ∧ handed it.completion.answer = 0 := by
  unfold completion
  split <;> exact ⟨rfl, rfl⟩

/-- What a call takes from the source is settled, and the iterator stays open just if it has handed
out a result. Only an open iterator advances its source. -/
theorem next_settles (it : ResultIterator) :
    it.next.journal.Settles (.source it.held) ⟨0, it.next.state.held, handed it.next.answer⟩ ∧
      it.next.state.held = handed it.next.answer ∧ it.next.journal.counts.advances = it.held := by
  match hFeed : it.feed with
  | none =>
    rw [next_of_finished hFeed, held_of_finished hFeed]
    exact ⟨Journal.settles_nil _, rfl, rfl⟩
  | some feed =>
    rw [held_of_feed hFeed]
    match hReply : feed.source.reply feed.advances with
    | .ok (some h) =>
      match hShape : it.plan.take it.yielded with
      | some (shape, plan) =>
        rw [next_of_handle hFeed hReply hShape]
        exact ⟨⟨rfl, rfl, rfl⟩, rfl, rfl⟩
      | none =>
        rw [next_of_surplus hFeed hReply hShape]
        exact ⟨⟨rfl, rfl, rfl⟩, rfl, rfl⟩
    | .ok none =>
      obtain ⟨hCounts, hHanded⟩ := it.completion_counts
      rw [next_of_end hFeed hReply, completion_state, hHanded]
      refine ⟨?_, rfl, by rw [hCounts]⟩
      constructor <;> rw [hCounts] <;> rfl
    | .error e =>
      rw [next_of_failure hFeed hReply]
      exact ⟨⟨rfl, rfl, rfl⟩, rfl, rfl⟩

theorem release_settles (it : ResultIterator) : it.release.Settles (.source it.held) .none ∧
    it.release.counts.advances = 0 := by
  cases hFeed : it.feed with
  | none =>
    have hRelease : it.release = [] := by simp [release, isFinished, hFeed]
    rw [held_of_finished hFeed, hRelease]
    exact ⟨Journal.settles_nil _, rfl⟩
  | some feed =>
    have hRelease : it.release = [.sourceReleased] := by simp [release, isFinished, hFeed]
    rw [held_of_feed hFeed, hRelease]
    exact ⟨⟨rfl, rfl, rfl⟩, rfl⟩

end ResultIterator

namespace BoundedIterator

variable {α : Type} {decode : Result → Except DecodeError α × Journal}

/-- How often a dump calls an iterator that has not come to its end. -/
def pulls (decode : Result → Except DecodeError α × Journal) (it : BoundedIterator) : Nat :=
  it.held +
    match hNext : it.next.answer with
    | some (.ok r) =>
      match (decode r).1 with
      | .ok _ =>
        have := remaining_next_lt hNext
        pulls decode it.next.state
      | .error _ => 0
    | _ => 0
termination_by it.remaining

section

variable {it : BoundedIterator} {r : Result} {a : α} {j : Journal}

theorem drain_of_end (hNext : it.next.answer = none) :
    it.drain decode = (.ok [], it.next.journal) := by
  rw [drain]
  split <;> simp_all

theorem drain_of_failure {e : ClientError} (hNext : it.next.answer = some (.error e)) :
    it.drain decode = (.error e, it.next.journal) := by
  rw [drain]
  split <;> simp_all

theorem drain_of_refusal {e : DecodeError} (hNext : it.next.answer = some (.ok r))
    (hDecode : decode r = (.error e, j)) :
    it.drain decode =
      (.error (.decode e), it.next.journal ++ j ++ .resultReleased :: it.next.state.release) := by
  rw [drain]
  split <;> simp_all

theorem drain_of_decoded (hNext : it.next.answer = some (.ok r))
    (hDecode : decode r = (.ok a, j)) :
    it.drain decode =
      ((it.next.state.drain decode).1.map (a :: ·),
        it.next.journal ++ j ++ .resultReleased :: (it.next.state.drain decode).2) := by
  rw [drain]
  split <;> simp_all

theorem pulls_of_decoded (hNext : it.next.answer = some (.ok r))
    (hDecode : (decode r).1 = .ok a) :
    it.pulls decode = it.held + it.next.state.pulls decode := by
  rw [pulls]
  split <;> simp_all

theorem pulls_of_refusal {e : DecodeError} (hNext : it.next.answer = some (.ok r))
    (hDecode : (decode r).1 = .error e) : it.pulls decode = it.held := by
  rw [pulls]
  split <;> simp_all

theorem pulls_of_no_result (hNext : ∀ r, it.next.answer ≠ some (.ok r)) :
    it.pulls decode = it.held := by
  rw [pulls]
  split <;> simp_all

theorem handed_of_no_result {answer : Option (Except ClientError Result)}
    (h : ∀ r, answer ≠ some (.ok r)) : ResultIterator.handed answer = 0 := by
  match answer with
  | none | some (.error _) => rfl
  | some (.ok r) => exact absurd rfl (h r)

theorem next_settles_of_no_result (hNext : ∀ r, it.next.answer ≠ some (.ok r)) :
    it.next.journal.Settles (.source it.held) .none := by
  obtain ⟨hSettles, hHeld, _⟩ := it.toResultIterator.next_settles
  have hHanded : ResultIterator.handed it.toResultIterator.next.answer = 0 :=
    handed_of_no_result hNext
  rwa [hHeld, hHanded] at hSettles

/-- The result is decoded and released before anything else happens. -/
theorem next_settles_of_result (hNext : it.next.answer = some (.ok r)) (hQuiet : j.Quiet) :
    Journal.Settles (it.next.journal ++ j ++ [.resultReleased]) (.source it.held)
      (.source it.next.state.held) := by
  obtain ⟨hSettles, _, _⟩ := it.toResultIterator.next_settles
  have hHanded : ResultIterator.handed it.toResultIterator.next.answer = 1 := by
    have hAnswer : it.toResultIterator.next.answer = some (.ok r) := hNext
    rw [hAnswer]
    rfl
  have hReleased : Journal.Settles [.resultReleased] ⟨0, it.next.state.held, 1⟩
      (.source it.next.state.held) := ⟨rfl, Nat.add_comm _ _, rfl⟩
  rw [hHanded] at hSettles
  exact (hSettles.append (hQuiet.settles _)).append hReleased

theorem advances_of_result (hQuiet : j.Quiet) :
    (Journal.counts (it.next.journal ++ j ++ [.resultReleased])).advances = it.held := by
  have hAdvances := it.toResultIterator.next_settles.2.2
  rw [Journal.advances_append, Journal.advances_append, hQuiet.advances_eq]
  exact hAdvances

end

/-- A dump holds nothing in the end, whether it reaches the end or stops at a failure. -/
theorem drain_settles (hDecode : ∀ r, (decode r).2.Quiet) (it : BoundedIterator) :
    (it.drain decode).2.Settles (.source it.held) .none ∧
      (it.drain decode).2.counts.advances = it.pulls decode := by
  -- the cases are the four ways a dump goes on; only the last takes a further result
  induction it using drain.induct decode with
  | case1 it hNext =>
    have hNone : ∀ r, it.next.answer ≠ some (.ok r) := by simp [hNext]
    rw [drain_of_end hNext, pulls_of_no_result hNone]
    exact ⟨next_settles_of_no_result hNone, it.toResultIterator.next_settles.2.2⟩
  | case2 it e hNext =>
    have hNone : ∀ r, it.next.answer ≠ some (.ok r) := by simp [hNext]
    rw [drain_of_failure hNext, pulls_of_no_result hNone]
    exact ⟨next_settles_of_no_result hNone, it.toResultIterator.next_settles.2.2⟩
  | case3 it r hNext e j hRefused =>
    have hQuiet : j.Quiet := by simpa [hRefused] using hDecode r
    obtain ⟨hRelease, hNoAdvance⟩ := it.next.state.release_settles
    rw [drain_of_refusal hNext hRefused, pulls_of_refusal hNext (by rw [hRefused]),
      List.append_cons]
    refine ⟨(next_settles_of_result hNext hQuiet).append hRelease, ?_⟩
    rw [Journal.advances_append, advances_of_result hQuiet, hNoAdvance, Nat.add_zero]
  | case4 it r hNext a j hDecoded _ ih =>
    have hQuiet : j.Quiet := by simpa [hDecoded] using hDecode r
    obtain ⟨hRest, hPulls⟩ := ih
    rw [drain_of_decoded hNext hDecoded, pulls_of_decoded hNext (by rw [hDecoded]),
      List.append_cons]
    refine ⟨(next_settles_of_result hNext hQuiet).append hRest, ?_⟩
    rw [Journal.advances_append, advances_of_result hQuiet, hPulls]

theorem quiet_decodeValues (r : Result) : (decodeValues r).2.Quiet := r.quiet_rangeValues

theorem quiet_decodeNested (r : Result) : (decodeNested r).2.Quiet := by
  unfold decodeNested
  dsimp only
  split
  · exact r.quiet_rangeValues
  · exact r.quiet_rangeValues.append (Result.quiet_rangeMasks _)

end BoundedIterator

end FieldExtract
