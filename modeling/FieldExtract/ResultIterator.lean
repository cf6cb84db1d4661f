import FieldExtract.ClientError
import FieldExtract.Source

/-!
# Iterating over results

The iterator takes handles from a source in order and gives each the shape of the request at the
same position, which it uses up. It ends for good at the first reply that is not a handle, or when
more handles come than requests were made, and lets go of the source there. A dump runs through
what is left of a bounded iterator and stops at the first failure.
-/

namespace FieldExtract

/-- One shape for each request, or one shape for however many results there are. -/
inductive ShapePlan
  | perRequest (shapes : List Shape)
  | repeated (shape : Shape)

namespace ShapePlan

/-- The shape for the result at a position, and the plan without it. -/
def take (i : Nat) : ShapePlan → Option (Shape × ShapePlan)
  | .perRequest shapes => shapes[i]?.map fun s => (s, .perRequest (shapes.set i ⟨[]⟩))
  | .repeated shape => some (shape, .repeated shape)

def expected : ShapePlan → Option Nat
  | .perRequest shapes => some shapes.length
  | .repeated _ => none

end ShapePlan

structure ResultIterator where
  feed : Option Feed
  plan : ShapePlan
  action : Action
  yielded : Nat

namespace ResultIterator

def start (source : Source) (plan : ShapePlan) (action : Action) : ResultIterator :=
  ⟨some ⟨source, 0⟩, plan, action, 0⟩

def isFinished (it : ResultIterator) : Bool := it.feed.isNone

def finish (it : ResultIterator) : ResultIterator := { it with feed := none }

def expected (it : ResultIterator) : Option Nat := it.plan.expected

def surplus (it : ResultIterator) :
    Outcome ResultIterator (Option (Except ClientError Result)) :=
  let expected := it.expected.getD it.yielded
  ⟨some (.error (.countMismatch expected (it.yielded + 1))), it.finish,
    [.advanced true, .reported (.countMismatch it.action expected (it.yielded + 1)),
      .sourceReleased, .resultReleased]⟩

def completion (it : ResultIterator) :
    Outcome ResultIterator (Option (Except ClientError Result)) :=
  match it.expected.filter fun n => n != it.yielded with
  | some n =>
    ⟨some (.error (.countMismatch n it.yielded)), it.finish,
      [.advanced false, .sourceReleased, .reported (.countMismatch it.action n it.yielded)]⟩
  | none =>
    ⟨none, it.finish,
      [.advanced false, .sourceReleased, .reported (.extractionComplete it.action it.yielded)]⟩

def next (it : ResultIterator) : Outcome ResultIterator (Option (Except ClientError Result)) :=
  match it.feed with
  | none => ⟨none, it, []⟩
  | some feed =>
    match feed.next with
    | (.ok (some handle), later) =>
      match it.plan.take it.yielded with
      | some (shape, plan) =>
        ⟨some (.ok (Result.ofHandle handle shape)),
          { it with feed := some later, plan := plan, yielded := it.yielded + 1 },
          [.advanced true]⟩
      | none => it.surplus
    | (.ok none, _) => it.completion
    | (.error e, _) =>
      ⟨some (.error (.engine e)), it.finish,
        [.advanced false, .reported (.sourceFailed it.action it.yielded e), .sourceReleased]⟩

section

variable {it : ResultIterator} {feed : Feed}

theorem next_of_finished (hFinished : it.feed = none) : it.next = ⟨none, it, []⟩ := by
  rw [next, hFinished]

theorem next_of_handle {h : Handle} {shape : Shape} {plan : ShapePlan}
    (hFeed : it.feed = some feed) (hReply : feed.source.reply feed.advances = .ok (some h))
    (hShape : it.plan.take it.yielded = some (shape, plan)) :
    it.next =
      ⟨some (.ok (Result.ofHandle h shape)),
        { it with
          feed := some ⟨feed.source, feed.advances + 1⟩, plan := plan,
          yielded := it.yielded + 1 },
        [.advanced true]⟩ := by
  rw [next, hFeed]
  simp only [Feed.next, hReply, hShape]

theorem next_of_surplus {h : Handle} (hFeed : it.feed = some feed)
    (hReply : feed.source.reply feed.advances = .ok (some h))
    (hShape : it.plan.take it.yielded = none) : it.next = it.surplus := by
  rw [next, hFeed]
  simp only [Feed.next, hReply, hShape]

theorem next_of_end (hFeed : it.feed = some feed)
    (hReply : feed.source.reply feed.advances = .ok none) : it.next = it.completion := by
  rw [next, hFeed]
  simp only [Feed.next, hReply]

theorem next_of_failure {e : EngineError} (hFeed : it.feed = some feed)
    (hReply : feed.source.reply feed.advances = .error e) :
    it.next =
      ⟨some (.error (.engine e)), it.finish,
        [.advanced false, .reported (.sourceFailed it.action it.yielded e), .sourceReleased]⟩ := by
  rw [next, hFeed]
  simp only [Feed.next, hReply]

@[simp] theorem completion_state : it.completion.state = it.finish := by
  unfold completion
  split <;> rfl

theorem completion_answer_ne_ok (r : Result) : it.completion.answer ≠ some (.ok r) := by
  unfold completion
  split <;> simp

/-- Either a handle was taken and the feed has moved on by one, or the feed is gone. -/
theorem next_feed (it : ResultIterator) :
    it.next.state.feed = none ∨
      ∃ feed h, it.feed = some feed ∧ feed.source.reply feed.advances = .ok (some h) ∧
        it.next.state.feed = some ⟨feed.source, feed.advances + 1⟩ := by
  match hFeed : it.feed with
  | none => exact .inl (by rw [next_of_finished hFeed, hFeed])
  | some feed =>
    match hReply : feed.source.reply feed.advances with
    | .ok (some h) =>
      match hShape : it.plan.take it.yielded with
      | some (shape, plan) =>
        exact .inr ⟨feed, h, rfl, hReply, by rw [next_of_handle hFeed hReply hShape]⟩
      | none => exact .inl (by rw [next_of_surplus hFeed hReply hShape]; rfl)
    | .ok none => exact .inl (by rw [next_of_end hFeed hReply, completion_state]; rfl)
    | .error e => exact .inl (by rw [next_of_failure hFeed hReply]; rfl)

theorem feed_of_next_ok {r : Result} (h : it.next.answer = some (.ok r)) :
    ∃ feed handle, it.feed = some feed ∧
      feed.source.reply feed.advances = .ok (some handle) ∧
      it.next.state.feed = some ⟨feed.source, feed.advances + 1⟩ := by
  match hFeed : it.feed with
  | none => simp [next_of_finished hFeed] at h
  | some feed =>
    match hReply : feed.source.reply feed.advances with
    | .ok (some handle) =>
      match hShape : it.plan.take it.yielded with
      | some (shape, plan) =>
        exact ⟨feed, handle, rfl, hReply, by rw [next_of_handle hFeed hReply hShape]⟩
      | none => simp [next_of_surplus hFeed hReply hShape, surplus] at h
    | .ok none => exact absurd (next_of_end hFeed hReply ▸ h) (completion_answer_ne_ok r)
    | .error e => simp [next_of_failure hFeed hReply] at h

end

/-- What is left of the source when the iterator is given up. -/
def release (it : ResultIterator) : Journal :=
  if it.isFinished then [] else [.sourceReleased]

def describe (it : ResultIterator) : String :=
  "ExtractionIterator \x7b action: \"" ++ it.action.name ++ "\", yielded: " ++
    toString it.yielded ++ ", finished: " ++ toString it.isFinished ++ ", .. \x7d"

end ResultIterator

/-- An iterator whose source, as long as it is held, is known to end. -/
structure BoundedIterator extends ResultIterator where
  bound : Nat
  endsBy : ∀ f ∈ feed, f.EndsBy bound

namespace BoundedIterator

def start (source : BoundedSource) (plan : ShapePlan) (action : Action) : BoundedIterator where
  toResultIterator := ResultIterator.start source.toSource plan action
  bound := source.bound
  endsBy f hFeed := by
    cases hFeed
    exact ⟨Nat.zero_le _, source.ends⟩

def next (it : BoundedIterator) : Outcome BoundedIterator (Option (Except ClientError Result)) :=
  let o := it.toResultIterator.next
  { answer := o.answer
    state :=
      { toResultIterator := o.state
        bound := it.bound
        endsBy := by
          intro f hNext
          rcases it.toResultIterator.next_feed with hNone | ⟨feed, h, hFeed, hReply, hLater⟩
          · cases hNone.symm.trans hNext
          · cases hLater.symm.trans hNext
            have hEnds := it.endsBy feed hFeed
            exact ⟨hEnds.advances_lt hReply, hEnds.ends⟩ }
    journal := o.journal }

/-- No more results than this are left. -/
def remaining (it : BoundedIterator) : Nat := (it.feed.map fun f => it.bound - f.advances).getD 0

theorem remaining_next_lt {it : BoundedIterator} {r : Result}
    (h : it.next.answer = some (.ok r)) : it.next.state.remaining < it.remaining := by
  obtain ⟨feed, handle, hFeed, hReply, hLater⟩ := ResultIterator.feed_of_next_ok h
  have hLt := (it.endsBy feed hFeed).advances_lt hReply
  have hNext : it.next.state.feed = some ⟨feed.source, feed.advances + 1⟩ := hLater
  have hBound : it.next.state.bound = it.bound := rfl
  simp only [remaining, hFeed, hNext, hBound, Option.map_some, Option.getD_some]
  omega

/-- Decodes every result that is left and releases each before the next is taken. -/
def drain {α : Type} (decode : Result → Except DecodeError α × Journal) (it : BoundedIterator) :
    Except ClientError (List α) × Journal :=
  match hNext : it.next.answer with
  | none => (.ok [], it.next.journal)
  | some (.error e) => (.error e, it.next.journal)
  | some (.ok r) =>
    match decode r with
    | (.error e, j) =>
      (.error (.decode e), it.next.journal ++ j ++ .resultReleased :: it.next.state.release)
    | (.ok a, j) =>
      have := remaining_next_lt hNext
      let later := drain decode it.next.state
      (later.1.map (a :: ·), it.next.journal ++ j ++ .resultReleased :: later.2)
termination_by it.remaining

def decodeValues (r : Result) : Except DecodeError (List (List Sample)) × Journal :=
  (r.rangeValues.answer, r.rangeValues.journal)

/-- The samples and mask words of each range, as the only field of the request. -/
def decodeNested (r : Result) :
    Except DecodeError (List (List (List Sample × List UInt64))) × Journal :=
  let values := r.rangeValues
  match values.answer with
  | .error e => (.error e, values.journal)
  | .ok samples =>
    let masks := values.state.rangeMasks
    (masks.answer.map fun words => [samples.zip words], values.journal ++ masks.journal)

def dumpValues (it : BoundedIterator) : Except ClientError (List (List (List Sample))) × Journal :=
  it.drain decodeValues

def dumpNested (it : BoundedIterator) :
    Except ClientError (List (List (List (List Sample × List UInt64)))) × Journal :=
  it.drain decodeNested

end BoundedIterator

end FieldExtract
