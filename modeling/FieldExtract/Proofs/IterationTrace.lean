import FieldExtract.ResultIterator

/-!
# The trace of an iterator

What an iterator answers, call by call, over any source and either plan: results as long as handles
come and shapes are left for them, one last answer, and nothing from then on. As long as the
iterator is open, the source has been advanced once for each result, and the shapes from that
position on are those of the plan it started with.
-/

namespace FieldExtract

namespace Source

/-- The first replies, as many as this, are handles. -/
def HandsOut (s : Source) (n : Nat) : Prop := ∀ i < n, ∃ h, s.reply i = .ok (some h)

/-- This is the position of the first reply that is not a handle. -/
structure StopsAt (s : Source) (k : Nat) : Prop where
  before : s.HandsOut k
  stop : ∀ h, s.reply k ≠ .ok (some h)

theorem handsOut_or_stops (s : Source) (n : Nat) : s.HandsOut n ∨ ∃ k < n, s.StopsAt k := by
  induction n with
  | zero => exact .inl fun i hi => absurd hi (Nat.not_lt_zero i)
  | succ n ih =>
    rcases ih with hHands | ⟨k, hk, hStop⟩
    · by_cases hReply : ∃ h, s.reply n = .ok (some h)
      · left
        intro i hi
        rcases Nat.lt_or_eq_of_le (Nat.le_of_lt_succ hi) with hLt | rfl
        · exact hHands i hLt
        · exact hReply
      · exact .inr ⟨n, Nat.lt_succ_self n, hHands, fun h hh => hReply ⟨h, hh⟩⟩
    · exact .inr ⟨k, Nat.lt_succ_of_lt hk, hStop⟩

def failureAt (s : Source) (k : Nat) : Option ClientError :=
  match s.reply k with
  | .ok _ => none
  | .error e => some (.engine e)

end Source

namespace ShapePlan

def shapeAt (i : Nat) : ShapePlan → Option Shape
  | .perRequest shapes => shapes[i]?
  | .repeated shape => some shape

/-- The second plan is the first one with the shapes below a position used up. -/
structure UsedUp (i : Nat) (plan later : ShapePlan) : Prop where
  expected_eq : later.expected = plan.expected
  shapeAt_eq : ∀ j ≥ i, later.shapeAt j = plan.shapeAt j

theorem usedUp_zero (plan : ShapePlan) : UsedUp 0 plan plan := ⟨rfl, fun _ _ => rfl⟩

variable {plan later : ShapePlan} {i : Nat}

theorem take_of_shapeAt {s : Shape} (h : later.shapeAt i = some s) :
    ∃ next, later.take i = some (s, next) ∧ UsedUp (i + 1) later next := by
  cases later with
  | perRequest shapes =>
    have hShape : shapes[i]? = some s := h
    refine ⟨.perRequest (shapes.set i ⟨[]⟩), by simp only [take, hShape, Option.map_some], ?_, ?_⟩
    · exact congrArg some (List.length_set)
    · intro j hj
      exact List.getElem?_set_ne (by omega)
  | repeated shape =>
    cases h
    exact ⟨.repeated s, rfl, rfl, fun _ _ => rfl⟩

theorem take_of_none (h : later.shapeAt i = none) : later.take i = none := by
  cases later with
  | perRequest shapes =>
    have hShape : shapes[i]? = none := h
    simp only [take, hShape, Option.map_none]
  | repeated shape => cases h

theorem UsedUp.step {next : ShapePlan} (h : UsedUp i plan later)
    (hNext : UsedUp (i + 1) later next) : UsedUp (i + 1) plan next where
  expected_eq := hNext.expected_eq.trans h.expected_eq
  shapeAt_eq j hj := (hNext.shapeAt_eq j hj).trans (h.shapeAt_eq j (Nat.le_of_succ_le hj))

end ShapePlan

namespace ResultIterator

/-- The iterator after a number of calls. -/
def after (it : ResultIterator) : Nat → ResultIterator
  | 0 => it
  | n + 1 => (it.after n).next.state

/-- What a call answers that comes after a number of others. -/
def item (it : ResultIterator) (n : Nat) : Option (Except ClientError Result) :=
  (it.after n).next.answer

/-- The entries that a number of calls add to the journal. -/
def history (it : ResultIterator) : Nat → Journal
  | 0 => []
  | n + 1 => it.history n ++ (it.after n).next.journal

theorem advances_history_succ (it : ResultIterator) (n : Nat) :
    (it.history (n + 1)).counts.advances =
      (it.history n).counts.advances + (it.after n).next.journal.counts.advances :=
  Journal.advances_append _ _

/-- An iterator that still has its source has advanced it in every call. -/
theorem feed_after (source : Source) (plan : ShapePlan) (action : Action) (n : Nat) :
    ∀ feed ∈ ((start source plan action).after n).feed, feed = ⟨source, n⟩ := by
  induction n with
  | zero =>
    rintro feed ⟨⟩
    rfl
  | succ n ih =>
    intro feed hFeed
    rcases ((start source plan action).after n).next_feed with
      hNone | ⟨before, h, hBefore, _, hLater⟩
    · cases hNone.symm.trans hFeed
    · cases ih before hBefore
      exact (Option.some.inj (hLater.symm.trans hFeed)).symm

theorem after_of_finished {it : ResultIterator} {m n : Nat} (hFinished : (it.after m).feed = none)
    (h : m ≤ n) : it.after n = it.after m := by
  induction h with
  | refl => rfl
  | step _ ih => rw [after, ih, next_of_finished hFinished]

theorem item_of_finished {it : ResultIterator} (h : it.feed = none) (n : Nat) :
    it.item n = none := by
  have hAfter : it.after n = it.after 0 := after_of_finished h (Nat.zero_le n)
  rw [item, hAfter, after, next_of_finished h]

theorem after_next (it : ResultIterator) (n : Nat) : it.next.state.after n = it.after (n + 1) := by
  induction n with
  | zero => rfl
  | succ n ih => exact congrArg (fun it => it.next.state) ih

theorem item_next (it : ResultIterator) (n : Nat) : it.next.state.item n = it.item (n + 1) := by
  rw [item, item, after_next]

/-- The whole of a run: so many results, each a handle with the shape at its position, then the
last answer, then nothing. -/
structure Trace (it : ResultIterator) (source : Source) (plan : ShapePlan) (count : Nat)
    (last : Option ClientError) : Prop where
  results : ∀ i < count, ∃ h s, source.reply i = .ok (some h) ∧ plan.shapeAt i = some s ∧
    it.item i = some (.ok (Result.ofHandle h s))
  last : it.item count = last.map .error
  silent : ∀ n > count, it.item n = none
  yielded : ∀ n, (it.after n).yielded = min n count
  expected : ∀ n, (it.after n).expected = plan.expected
  finished : ∀ n, (it.after n).isFinished = true ↔ count < n
  advances : ∀ n, (it.history n).counts.advances = min n (count + 1)

theorem Trace.reply_of_result {it : ResultIterator} {source : Source} {plan : ShapePlan}
    {count i : Nat} {last : Option ClientError} {r : Result} (h : it.Trace source plan count last)
    (hItem : it.item i = some (.ok r)) :
    ∃ handle s, source.reply i = .ok (some handle) ∧ plan.shapeAt i = some s ∧
      r = Result.ofHandle handle s := by
  rcases Nat.lt_trichotomy i count with hi | rfl | hi
  · obtain ⟨handle, s, hReply, hShape, hResult⟩ := h.results i hi
    cases hResult.symm.trans hItem
    exact ⟨handle, s, hReply, hShape, rfl⟩
  · rw [h.last, Option.map_eq_some_iff] at hItem
    obtain ⟨_, _, hError⟩ := hItem
    cases hError
  · cases (h.silent i hi).symm.trans hItem

/-- The two iterators answer every call alike and have come equally far after each. -/
structure Agrees (it other : ResultIterator) : Prop where
  item : ∀ n, it.item n = other.item n
  yielded : ∀ n, (it.after n).yielded = (other.after n).yielded
  finished : ∀ n, (it.after n).isFinished = (other.after n).isFinished
  advances : ∀ n, (it.history n).counts.advances = (other.history n).counts.advances

/-- Two traces over one source agree if their plans do, as far as shapes are taken. -/
theorem Trace.agrees {it other : ResultIterator} {source : Source} {plan later : ShapePlan}
    {count : Nat} {last : Option ClientError} (h : it.Trace source plan count last)
    (hOther : other.Trace source later count last)
    (hPlans : ∀ i < count, plan.shapeAt i = later.shapeAt i) : it.Agrees other where
  item n := by
    rcases Nat.lt_trichotomy n count with hn | rfl | hn
    · obtain ⟨handle, s, hReply, hShape, hItem⟩ := h.results n hn
      obtain ⟨_, _, hReply', hShape', hItem'⟩ := hOther.results n hn
      cases hReply.symm.trans hReply'
      cases hShape.symm.trans ((hPlans n hn).trans hShape')
      rw [hItem, hItem']
    · rw [h.last, hOther.last]
    · rw [h.silent n hn, hOther.silent n hn]
  yielded n := by rw [h.yielded, hOther.yielded]
  finished n := by rw [Bool.eq_iff_iff, h.finished, hOther.finished]
  advances n := by rw [h.advances, hOther.advances]

/-- The state of an open iterator that has handed out so many results. -/
structure OpenAt (it : ResultIterator) (source : Source) (plan : ShapePlan) (n : Nat) : Prop where
  feed_eq : it.feed = some ⟨source, n⟩
  yielded_eq : it.yielded = n
  plan : plan.UsedUp n it.plan

/-- The next call is the last that answers, and it advances the source. -/
structure Closes (it : ResultIterator) (last : Option ClientError) : Prop where
  answer : it.next.answer = last.map .error
  state : it.next.state = it.finish
  advances : it.next.journal.counts.advances = 1

theorem openAt_start (source : Source) (plan : ShapePlan) (action : Action) :
    (start source plan action).OpenAt source plan 0 :=
  ⟨rfl, rfl, plan.usedUp_zero⟩

namespace OpenAt

variable {it : ResultIterator} {source : Source} {plan : ShapePlan} {n : Nat}

theorem shapeAt_eq (hOpen : it.OpenAt source plan n) : it.plan.shapeAt n = plan.shapeAt n :=
  hOpen.plan.shapeAt_eq n (Nat.le_refl n)

theorem step {h : Handle} {s : Shape} (hOpen : it.OpenAt source plan n)
    (hReply : source.reply n = .ok (some h)) (hShape : plan.shapeAt n = some s) :
    it.next.answer = some (.ok (Result.ofHandle h s)) ∧
      it.next.state.OpenAt source plan (n + 1) ∧ it.next.journal.counts.advances = 1 := by
  obtain ⟨later, hTake, hLater⟩ := ShapePlan.take_of_shapeAt (hOpen.shapeAt_eq.trans hShape)
  rw [next_of_handle hOpen.feed_eq hReply (hOpen.yielded_eq ▸ hTake)]
  exact ⟨rfl, ⟨rfl, congrArg Nat.succ hOpen.yielded_eq, hOpen.plan.step hLater⟩, rfl⟩

theorem closes_of_surplus {h : Handle} (hOpen : it.OpenAt source plan n)
    (hReply : source.reply n = .ok (some h)) (hShape : plan.shapeAt n = none) :
    it.Closes (some (.countMismatch (plan.expected.getD n) (n + 1))) := by
  have hTake := ShapePlan.take_of_none (hOpen.shapeAt_eq.trans hShape)
  have hNext := next_of_surplus hOpen.feed_eq hReply (hOpen.yielded_eq ▸ hTake)
  refine ⟨?_, by rw [hNext]; rfl, by rw [hNext]; rfl⟩
  rw [hNext, surplus, hOpen.yielded_eq, expected, hOpen.plan.expected_eq]
  rfl

theorem closes_of_failure {e : EngineError} (hOpen : it.OpenAt source plan n)
    (hReply : source.reply n = .error e) : it.Closes (some (.engine e)) := by
  have hNext := next_of_failure hOpen.feed_eq hReply
  exact ⟨by rw [hNext]; rfl, by rw [hNext], by rw [hNext]; rfl⟩

theorem closes_of_shortfall {m : Nat} (hOpen : it.OpenAt source plan n)
    (hReply : source.reply n = .ok none) (hExpected : plan.expected = some m) (hCount : m ≠ n) :
    it.Closes (some (.countMismatch m n)) := by
  have hFilter : (it.expected.filter fun m => m != it.yielded) = some m := by
    rw [expected, hOpen.plan.expected_eq, hExpected, hOpen.yielded_eq]
    simp [hCount]
  have hNext := next_of_end hOpen.feed_eq hReply
  rw [completion, hFilter] at hNext
  exact ⟨by rw [hNext, hOpen.yielded_eq]; rfl, by rw [hNext], by rw [hNext]; rfl⟩

theorem closes_of_completion (hOpen : it.OpenAt source plan n)
    (hReply : source.reply n = .ok none) (hExpected : ∀ m ∈ plan.expected, m = n) :
    it.Closes none := by
  have hFilter : (it.expected.filter fun m => m != it.yielded) = none := by
    rw [expected, hOpen.plan.expected_eq, hOpen.yielded_eq, Option.filter_eq_none_iff]
    intro m hm
    simp [hExpected m hm]
  have hNext := next_of_end hOpen.feed_eq hReply
  rw [completion, hFilter] at hNext
  exact ⟨by rw [hNext]; rfl, by rw [hNext], by rw [hNext]; rfl⟩

end OpenAt

/-- There is a handle and a shape for each of the first results. -/
def Feeds (source : Source) (plan : ShapePlan) (count : Nat) : Prop :=
  ∀ i < count, ∃ h s, source.reply i = .ok (some h) ∧ plan.shapeAt i = some s

variable {source : Source} {plan : ShapePlan} {count : Nat}

theorem openAt_after (action : Action) (hFeeds : Feeds source plan count) {n : Nat}
    (hn : n ≤ count) :
    ((start source plan action).after n).OpenAt source plan n ∧
      ((start source plan action).history n).counts.advances = n := by
  induction n with
  | zero => exact ⟨openAt_start source plan action, rfl⟩
  | succ n ih =>
    obtain ⟨hOpen, hAdvances⟩ := ih (Nat.le_of_succ_le hn)
    obtain ⟨h, s, hReply, hShape⟩ := hFeeds n hn
    obtain ⟨_, hNext, hOne⟩ := hOpen.step hReply hShape
    exact ⟨hNext, by rw [advances_history_succ, hAdvances, hOne]⟩

theorem item_of_feeds {i : Nat} {h : Handle} {s : Shape} (action : Action)
    (hFeeds : Feeds source plan count) (hi : i < count)
    (hReply : source.reply i = .ok (some h)) (hShape : plan.shapeAt i = some s) :
    (start source plan action).item i = some (.ok (Result.ofHandle h s)) :=
  ((openAt_after action hFeeds (Nat.le_of_lt hi)).1.step hReply hShape).1

section

variable {action : Action} {last : Option ClientError}

/-- After the call that closes it, the iterator stays as that call has left it. -/
theorem after_of_closes (hCloses : ((start source plan action).after count).Closes last) {n : Nat}
    (hn : count < n) :
    (start source plan action).after n = ((start source plan action).after count).finish := by
  have hClosed : (start source plan action).after (count + 1) =
      ((start source plan action).after count).finish := hCloses.state
  have hFeed : ((start source plan action).after (count + 1)).feed = none := by
    rw [hClosed]
    rfl
  exact (after_of_finished hFeed hn).trans hClosed

theorem advances_of_closes (hFeeds : Feeds source plan count)
    (hCloses : ((start source plan action).after count).Closes last) (n : Nat) :
    ((start source plan action).history n).counts.advances = min n (count + 1) := by
  induction n with
  | zero => exact (Nat.zero_min _).symm
  | succ n ih =>
    rw [advances_history_succ]
    rcases Nat.lt_trichotomy n count with hn | rfl | hn
    · have hStep := (openAt_after action hFeeds hn).2
      rw [advances_history_succ] at hStep
      omega
    · rw [ih, hCloses.advances]
      omega
    · have hNone : ((start source plan action).after n).next.journal.counts.advances = 0 := by
        rw [after_of_closes hCloses hn, next_of_finished rfl]
        rfl
      omega

theorem trace_of_closes (hFeeds : Feeds source plan count)
    (hCloses : ((start source plan action).after count).Closes last) :
    (start source plan action).Trace source plan count last where
  results i hi := by
    obtain ⟨h, s, hReply, hShape⟩ := hFeeds i hi
    exact ⟨h, s, hReply, hShape, item_of_feeds action hFeeds hi hReply hShape⟩
  last := hCloses.answer
  silent n hn := by
    rw [item, after_of_closes hCloses hn, next_of_finished rfl]
  yielded n := by
    rcases Nat.lt_or_ge count n with hn | hn
    · rw [after_of_closes hCloses hn, Nat.min_eq_right (Nat.le_of_lt hn)]
      exact (openAt_after action hFeeds (Nat.le_refl count)).1.yielded_eq
    · rw [(openAt_after action hFeeds hn).1.yielded_eq, Nat.min_eq_left hn]
  expected n := by
    rcases Nat.lt_or_ge count n with hn | hn
    · rw [after_of_closes hCloses hn]
      exact (openAt_after action hFeeds (Nat.le_refl count)).1.plan.expected_eq
    · exact (openAt_after action hFeeds hn).1.plan.expected_eq
  finished n := by
    rcases Nat.lt_or_ge count n with hn | hn
    · rw [after_of_closes hCloses hn]
      simp [isFinished, finish, hn]
    · rw [isFinished, (openAt_after action hFeeds hn).1.feed_eq]
      simp [hn]
  advances := advances_of_closes hFeeds hCloses

end

theorem trace_of_failure {e : EngineError} (action : Action) (hFeeds : Feeds source plan count)
    (hReply : source.reply count = .error e) :
    (start source plan action).Trace source plan count (some (.engine e)) :=
  trace_of_closes hFeeds
    ((openAt_after action hFeeds (Nat.le_refl count)).1.closes_of_failure hReply)

theorem trace_of_completion (action : Action) (hFeeds : Feeds source plan count)
    (hReply : source.reply count = .ok none) (hExpected : ∀ m ∈ plan.expected, m = count) :
    (start source plan action).Trace source plan count none :=
  trace_of_closes hFeeds
    ((openAt_after action hFeeds (Nat.le_refl count)).1.closes_of_completion hReply hExpected)

/-- The trace up to a reply that is no handle; an end is clean if it does not come too early. -/
theorem trace_of_stop (action : Action) (hFeeds : Feeds source plan count)
    (hStop : ∀ h, source.reply count ≠ .ok (some h))
    (hExpected : source.reply count = .ok none → ∀ m ∈ plan.expected, m = count) :
    (start source plan action).Trace source plan count (source.failureAt count) := by
  unfold Source.failureAt
  cases hReply : source.reply count with
  | error e => exact trace_of_failure action hFeeds hReply
  | ok answer =>
    cases answer with
    | some h => exact absurd hReply (hStop h)
    | none => exact trace_of_completion action hFeeds hReply (hExpected hReply)

theorem feeds_perRequest {shapes : List Shape} (hHands : source.HandsOut count)
    (hCount : count ≤ shapes.length) : Feeds source (.perRequest shapes) count := by
  intro i hi
  obtain ⟨h, hReply⟩ := hHands i hi
  exact ⟨h, shapes[i], hReply, List.getElem?_eq_getElem (Nat.lt_of_lt_of_le hi hCount)⟩

theorem feeds_repeated {shape : Shape} (hHands : source.HandsOut count) :
    Feeds source (.repeated shape) count := by
  intro i hi
  obtain ⟨h, hReply⟩ := hHands i hi
  exact ⟨h, shape, hReply, rfl⟩

/-- The trace over any source. With a shape for each request, handles past the last shape and an
end before it are mismatches; with one shape for all, the end is clean wherever it comes. -/
theorem trace_over_source (source : Source) (action : Action) :
    (∀ shapes : List Shape,
      let plan := ShapePlan.perRequest shapes
      let it := start source plan action
      let n := shapes.length
      (∀ k ≤ n, source.StopsAt k →
        (∀ e, source.reply k = .error e → it.Trace source plan k (some (.engine e))) ∧
        (source.reply k = .ok none → k ≠ n →
          it.Trace source plan k (some (.countMismatch n k))) ∧
        (source.reply k = .ok none → k = n → it.Trace source plan k none)) ∧
      (source.HandsOut (n + 1) → it.Trace source plan n (some (.countMismatch n (n + 1))))) ∧
    ∀ shape : Shape,
      let plan := ShapePlan.repeated shape
      let it := start source plan action
      ∀ k, source.StopsAt k →
        (∀ e, source.reply k = .error e → it.Trace source plan k (some (.engine e))) ∧
        (source.reply k = .ok none → it.Trace source plan k none) := by
  constructor
  · intro shapes plan it n
    constructor
    · intro k hk hStop
      have hFeeds : Feeds source plan k := feeds_perRequest hStop.before hk
      have hOpen := (openAt_after action hFeeds (Nat.le_refl k)).1
      refine ⟨fun e hReply => trace_of_failure action hFeeds hReply, ?_, ?_⟩
      · intro hReply hCount
        exact trace_of_closes hFeeds (hOpen.closes_of_shortfall hReply rfl (Ne.symm hCount))
      · rintro hReply rfl
        exact trace_of_completion action hFeeds hReply fun m hm => (Option.some.inj hm).symm
    · intro hHands
      have hFeeds : Feeds source plan n :=
        feeds_perRequest (fun i hi => hHands i (Nat.lt_succ_of_lt hi)) (Nat.le_refl n)
      have hOpen := (openAt_after action hFeeds (Nat.le_refl n)).1
      obtain ⟨h, hReply⟩ := hHands n (Nat.lt_succ_self n)
      have hShape : plan.shapeAt n = none := List.getElem?_eq_none (Nat.le_refl n)
      exact trace_of_closes hFeeds (hOpen.closes_of_surplus hReply hShape)
  · intro shape plan it k hStop
    have hFeeds : Feeds source plan k := feeds_repeated hStop.before
    refine ⟨fun e hReply => trace_of_failure action hFeeds hReply, ?_⟩
    intro hReply
    exact trace_of_completion action hFeeds hReply fun m hm => by cases hm

/-- A refusal in the middle of three requests; what the source would hand out next is not asked. -/
theorem trace_of_refusal :
    let h := Handle.ofBuffers [Sample.missing] [0]
    let e := EngineError.ofStatus "next" .notFound "gone"
    let source := (BoundedSource.ofReplies [.ok (some h), .error e, .ok (some h)]).toSource
    let plan := ShapePlan.perRequest (List.replicate 3 ⟨[1]⟩)
    source.StopsAt 1 ∧ source.reply 1 = .error e ∧
      (start source plan .extract).Trace source plan 1 (some (.engine e)) := by
  intro h e source plan
  have hStop : source.StopsAt 1 := by
    refine ⟨fun i hi => ⟨h, ?_⟩, fun _ hReply => by cases hReply⟩
    rw [Nat.lt_one_iff.mp hi]
    rfl
  exact ⟨hStop, rfl, (((trace_over_source source .extract).1 _).1 1 (by decide) hStop).1 e rfl⟩

end ResultIterator

end FieldExtract
