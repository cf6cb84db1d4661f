import FieldExtract.Proofs.IterationTrace
import FieldExtract.Proofs.Ledger
import FieldExtract.Proofs.Traversal

/-!
# Dumps

A dump does at once what a caller can do step by step: take what is left of an iterator and decode
each result before the next is taken. It has all that the caller would have, unless an answer of the
iterator or a decoding fails; then it is that failure, the first there is, and the source has not
been advanced past it. No range is lost where samples are paired with mask words, since both are cut
into as many pieces as the shape has lengths.
-/

namespace FieldExtract

namespace Result

/-- The samples of each range next to its mask words, as those of one field. -/
def nested (r : Result) : Except DecodeError (List (List (List Sample × List UInt64))) := do
  let samples ← r.rangeValues.answer
  let words ← r.rangeMasks.answer
  return [samples.zip words]

/-- One field with a pair for each range, whose two sides are what the accessors read. -/
def Nests (r : Result) (fields : List (List (List Sample × List UInt64))) : Prop :=
  ∃ ranges, fields = [ranges] ∧ ranges.length = r.shape.size ∧
    r.rangeValues.answer = .ok (ranges.map Prod.fst) ∧
    r.rangeMasks.answer = .ok (ranges.map Prod.snd)

variable {r : Result} {fields : List (List (List Sample × List UInt64))}

theorem length_of_pieces {α : Type} {ns : List Nat} {flat : Except DecodeError (List α)}
    {parts : List (List α)} (h : flat.map (pieces ns) = .ok parts) : parts.length = ns.length := by
  cases flat with
  | error e => cases h
  | ok xs =>
    cases h
    exact length_pieces ns xs

theorem length_of_rangeValues {samples : List (List Sample)}
    (h : r.rangeValues.answer = .ok samples) : samples.length = r.shape.size :=
  length_of_pieces h

theorem length_of_rangeMasks {words : List (List UInt64)} (h : r.rangeMasks.answer = .ok words) :
    words.length = r.shape.size := by
  rw [length_of_pieces h, Shape.maskWords, List.length_map, Shape.size]

theorem nested_eq_ok_iff :
    r.nested = .ok fields ↔ ∃ samples words, r.rangeValues.answer = .ok samples ∧
      r.rangeMasks.answer = .ok words ∧ fields = [samples.zip words] := by
  simp only [nested, bind_eq_ok_iff, pure, Except.pure, Except.ok.injEq, exists_and_left,
    @eq_comm _ fields]

theorem nests_of_nested (h : r.nested = .ok fields) : r.Nests fields := by
  obtain ⟨samples, words, hSamples, hWords, rfl⟩ := nested_eq_ok_iff.mp h
  have hLength := length_of_rangeValues hSamples
  have hLength' := length_of_rangeMasks hWords
  refine ⟨samples.zip words, rfl, ?_, ?_, ?_⟩
  · rw [List.length_zip, hLength, hLength', Nat.min_self]
  · rw [hSamples, List.map_fst_zip (by omega)]
  · rw [hWords, List.map_snd_zip (by omega)]

end Result

namespace ResultIterator

variable {α : Type} {read : Result → Except DecodeError α}

/-- What a caller has of the call that comes after a number of others, and decodes its result. -/
def reading (read : Result → Except DecodeError α) (it : ResultIterator) (n : Nat) :
    Option (Except ClientError α) :=
  (it.item n).map fun answer => answer.bind fun r => (read r).mapError .decode

theorem reading_next (read : Result → Except DecodeError α) (it : ResultIterator) (n : Nat) :
    it.next.state.reading read n = it.reading read (n + 1) := by
  rw [reading, reading, item_next]

theorem reading_eq_ok_iff {it : ResultIterator} {n : Nat} {a : α} :
    it.reading read n = some (.ok a) ↔ ∃ r, it.item n = some (.ok r) ∧ read r = .ok a := by
  rw [reading, Option.map_eq_some_iff]
  constructor
  · rintro ⟨answer, hItem, hRead⟩
    cases answer with
    | error e => cases hRead
    | ok r =>
      rw [Except.bind] at hRead
      cases hResult : read r with
      | error d =>
        rw [hResult] at hRead
        cases hRead
      | ok b =>
        rw [hResult] at hRead
        cases hRead
        exact ⟨r, hItem, hResult⟩
  · rintro ⟨r, hItem, hRead⟩
    exact ⟨.ok r, hItem, by rw [Except.bind, hRead]; rfl⟩

theorem reading_eq_none_iff {it : ResultIterator} {n : Nat} :
    it.reading read n = none ↔ it.item n = none :=
  Option.map_eq_none_iff

/-- The step at which stepwise decoding fails first. -/
structure FailsAt (read : Result → Except DecodeError α) (it : ResultIterator) (n : Nat)
    (e : ClientError) : Prop where
  here : it.reading read n = some (.error e)
  before : ∀ i < n, ∃ a, it.reading read i = some (.ok a)

theorem FailsAt.succ {it : ResultIterator} {n : Nat} {e : ClientError} {a : α}
    (hHead : it.reading read 0 = some (.ok a)) (h : it.next.state.FailsAt read n e) :
    it.FailsAt read (n + 1) e := by
  refine ⟨reading_next read it n ▸ h.here, fun i hi => ?_⟩
  cases i with
  | zero => exact ⟨a, hHead⟩
  | succ i => exact reading_next read it i ▸ h.before i (Nat.lt_of_succ_lt_succ hi)

theorem FailsAt.unique {it : ResultIterator} {m n : Nat} {e f : ClientError}
    (h : it.FailsAt read m e) (h' : it.FailsAt read n f) : m = n ∧ e = f := by
  rcases Nat.lt_trichotomy m n with hLt | rfl | hLt
  · obtain ⟨a, ha⟩ := h'.before m hLt
    cases ha.symm.trans h.here
  · cases h.here.symm.trans h'.here
    exact ⟨rfl, rfl⟩
  · obtain ⟨a, ha⟩ := h.before n hLt
    cases ha.symm.trans h'.here

end ResultIterator

namespace BoundedIterator

variable {α : Type} {decode : Result → Except DecodeError α × Journal}
  {read : Result → Except DecodeError α} {it : BoundedIterator}

/-- What a dump comes to, against the answers of the iterator read one by one. -/
structure Collects (read : Result → Except DecodeError α) (it : BoundedIterator)
    (dump : Except ClientError (List α) × Journal) : Prop where
  complete : ∀ xs, dump.1 = .ok xs ↔ ∀ n, it.reading read n = xs[n]?.map .ok
  accepted : (∃ xs, dump.1 = .ok xs) ↔
    ∀ n answer, it.item n = some answer → ∃ r a, answer = .ok r ∧ read r = .ok a
  failed : ∀ e, dump.1 = .error e ↔ ∃ n, it.FailsAt read n e
  advances : ∀ n e, it.FailsAt read n e → dump.2.counts.advances = n + 1

theorem held_of_answer {answer : Except ClientError Result}
    (hNext : it.next.answer = some answer) : it.held = 1 := by
  cases hFeed : it.feed with
  | some feed => exact ResultIterator.held_of_feed hFeed
  | none =>
    have hNone : it.next.answer = none :=
      congrArg Outcome.answer (ResultIterator.next_of_finished hFeed)
    cases hNone.symm.trans hNext

theorem item_of_end (hNext : it.next.answer = none) (n : Nat) : it.item n = none := by
  cases n with
  | zero => exact hNext
  | succ n =>
    have hHeld : it.next.state.held = ResultIterator.handed it.next.answer :=
      it.toResultIterator.next_settles.2.1
    have hFinished : it.next.state.feed = none := by
      cases hFeed : it.next.state.feed with
      | none => rfl
      | some feed =>
        rw [ResultIterator.held_of_feed hFeed, hNext] at hHeld
        cases hHeld
    exact (ResultIterator.item_next it.toResultIterator n).symm.trans
      (ResultIterator.item_of_finished hFinished n)

theorem reading_zero (read : Result → Except DecodeError α) (it : BoundedIterator) :
    it.reading read 0 =
      it.next.answer.map fun answer => answer.bind fun r => (read r).mapError .decode :=
  rfl

/-- Either everything is read, or the step at which reading fails decides. -/
theorem drain_cases (decode : Result → Except DecodeError α × Journal) (it : BoundedIterator) :
    (∃ xs, (it.drain decode).1 = .ok xs ∧
      ∀ n, it.reading (fun r => (decode r).1) n = xs[n]?.map .ok) ∨
    ∃ n e, (it.drain decode).1 = .error e ∧ it.FailsAt (fun r => (decode r).1) n e ∧
      it.pulls decode = n + 1 := by
  induction it using drain.induct decode with
  | case1 it hNext =>
    refine .inl ⟨[], by rw [drain_of_end hNext], fun n => ?_⟩
    rw [ResultIterator.reading, item_of_end hNext]
    rfl
  | case2 it e hNext =>
    have hNone : ∀ r, it.next.answer ≠ some (.ok r) := by simp [hNext]
    rw [drain_of_failure hNext, pulls_of_no_result hNone, held_of_answer hNext]
    refine .inr ⟨0, e, rfl, ⟨?_, fun i hi => absurd hi (Nat.not_lt_zero i)⟩, rfl⟩
    rw [reading_zero, hNext]
    rfl
  | case3 it r hNext e j hRefused =>
    rw [drain_of_refusal hNext hRefused, pulls_of_refusal hNext (by rw [hRefused]),
      held_of_answer hNext]
    refine .inr ⟨0, .decode e, rfl, ⟨?_, fun i hi => absurd hi (Nat.not_lt_zero i)⟩, rfl⟩
    rw [reading_zero, hNext, Option.map_some, Except.bind, hRefused]
    rfl
  | case4 it r hNext a j hDecoded _ ih =>
    have hHead : it.reading (fun r => (decode r).1) 0 = some (.ok a) :=
      ResultIterator.reading_eq_ok_iff.mpr ⟨r, hNext, by rw [hDecoded]⟩
    rw [drain_of_decoded hNext hDecoded, pulls_of_decoded hNext (by rw [hDecoded]),
      held_of_answer hNext]
    rcases ih with ⟨xs, hAnswer, hReadings⟩ | ⟨n, e, hAnswer, hFails, hPulls⟩
    · refine .inl ⟨a :: xs, by rw [hAnswer]; rfl, fun n => ?_⟩
      cases n with
      | zero => exact hHead
      | succ n =>
        rw [List.getElem?_cons_succ, ← hReadings n]
        exact (ResultIterator.reading_next _ it.toResultIterator n).symm
    · refine .inr ⟨n + 1, e, by rw [hAnswer]; rfl, hFails.succ hHead, ?_⟩
      rw [hPulls, Nat.add_comm]

theorem eq_of_readings {xs ys : List α} (h : ∀ n, it.reading read n = xs[n]?.map .ok)
    (h' : ∀ n, it.reading read n = ys[n]?.map .ok) : xs = ys := by
  apply List.ext_getElem? fun n => ?_
  exact Option.map_injective (fun _ _ => Except.ok.inj) ((h n).symm.trans (h' n))

section

variable {dump : Except ClientError (List α) × Journal}

theorem not_failsAt_of_readings {xs : List α} (hReadings : ∀ n, it.reading read n = xs[n]?.map .ok)
    (n : Nat) (e : ClientError) : ¬it.FailsAt read n e := by
  intro hFails
  obtain ⟨_, _, hOk⟩ := Option.map_eq_some_iff.mp ((hReadings n).symm.trans hFails.here)
  cases hOk

theorem collects_of_readings {xs : List α} (hAnswer : dump.1 = .ok xs)
    (hReadings : ∀ n, it.reading read n = xs[n]?.map .ok) : it.Collects read dump where
  complete ys := by
    rw [hAnswer, Except.ok.injEq]
    exact ⟨fun h => h ▸ hReadings, eq_of_readings hReadings⟩
  accepted := by
    refine ⟨fun _ n answer hItem => ?_, fun _ => ⟨xs, hAnswer⟩⟩
    cases hAt : xs[n]? with
    | none =>
      have hNone := hReadings n
      rw [hAt, Option.map_none, ResultIterator.reading_eq_none_iff, hItem] at hNone
      cases hNone
    | some a =>
      have hRead := hReadings n
      rw [hAt, Option.map_some, ResultIterator.reading_eq_ok_iff] at hRead
      obtain ⟨r, hResult, hDecoded⟩ := hRead
      exact ⟨r, a, Option.some.inj (hItem.symm.trans hResult), hDecoded⟩
  failed e := by
    rw [hAnswer]
    refine ⟨fun h => (by cases h), ?_⟩
    rintro ⟨n, hFails⟩
    exact absurd hFails (not_failsAt_of_readings hReadings n e)
  advances n e hFails := absurd hFails (not_failsAt_of_readings hReadings n e)

theorem collects_of_failsAt {n : Nat} {e : ClientError} (hAnswer : dump.1 = .error e)
    (hFails : it.FailsAt read n e) (hAdvances : dump.2.counts.advances = n + 1) :
    it.Collects read dump where
  complete ys := by
    rw [hAnswer]
    exact ⟨fun h => (by cases h), fun hReadings =>
      absurd hFails (not_failsAt_of_readings hReadings n e)⟩
  accepted := by
    constructor
    · rintro ⟨ys, hOk⟩
      cases hAnswer.symm.trans hOk
    · intro hAll
      obtain ⟨answer, hItem, _⟩ := Option.map_eq_some_iff.mp hFails.here
      obtain ⟨r, a, rfl, hDecoded⟩ := hAll n answer hItem
      cases (ResultIterator.reading_eq_ok_iff.mpr ⟨r, hItem, hDecoded⟩).symm.trans hFails.here
  failed f := by
    rw [hAnswer, Except.error.injEq]
    refine ⟨fun h => ⟨n, h ▸ hFails⟩, ?_⟩
    rintro ⟨m, hOther⟩
    exact (hFails.unique hOther).2
  advances m f hOther := by rw [hAdvances, (hFails.unique hOther).1]

end

theorem collects_drain (hQuiet : ∀ r, (decode r).2.Quiet) (it : BoundedIterator) :
    it.Collects (fun r => (decode r).1) (it.drain decode) := by
  rcases drain_cases decode it with ⟨xs, hAnswer, hReadings⟩ | ⟨n, e, hAnswer, hFails, hPulls⟩
  · exact collects_of_readings hAnswer hReadings
  · exact collects_of_failsAt hAnswer hFails ((drain_settles hQuiet it).2.trans hPulls)

theorem decodeNested_answer (r : Result) : (decodeNested r).1 = r.nested := by
  unfold decodeNested Result.nested
  dsimp only
  cases hSamples : r.rangeValues.answer with
  | error e => rfl
  | ok samples =>
    have hMasks : r.rangeValues.state.rangeMasks.answer = r.rangeMasks.answer := rfl
    dsimp only
    rw [hMasks]
    cases r.rangeMasks.answer with
    | error e => rfl
    | ok words => rfl

theorem collects_dumpNested (it : BoundedIterator) : it.Collects Result.nested it.dumpNested := by
  have hRead : (fun r => (decodeNested r).1) = Result.nested := funext decodeNested_answer
  have hDump := collects_drain quiet_decodeNested it
  rwa [hRead] at hDump

theorem collects_dumpValues (it : BoundedIterator) :
    it.Collects (fun r => r.rangeValues.answer) it.dumpValues :=
  collects_drain quiet_decodeValues it

theorem dumpNested_accepted_iff (it : BoundedIterator) :
    (∃ dump, it.dumpNested.1 = .ok dump) ↔ (∃ dump, it.dumpValues.1 = .ok dump) ∧
      ∀ n r, it.item n = some (.ok r) → ∃ words, r.rangeMasks.answer = .ok words := by
  rw [it.collects_dumpNested.accepted, it.collects_dumpValues.accepted]
  constructor
  · intro hAll
    refine ⟨fun n answer hItem => ?_, fun n r hItem => ?_⟩
    · obtain ⟨r, fields, rfl, hRead⟩ := hAll n answer hItem
      obtain ⟨samples, _, hSamples, _⟩ := Result.nested_eq_ok_iff.mp hRead
      exact ⟨r, samples, rfl, hSamples⟩
    · obtain ⟨_, fields, hResult, hRead⟩ := hAll n (.ok r) hItem
      cases hResult
      obtain ⟨_, words, _, hWords, _⟩ := Result.nested_eq_ok_iff.mp hRead
      exact ⟨words, hWords⟩
  · rintro ⟨hAll, hMasks⟩ n answer hItem
    obtain ⟨r, samples, rfl, hSamples⟩ := hAll n answer hItem
    obtain ⟨words, hWords⟩ := hMasks n r hItem
    exact ⟨r, _, rfl, Result.nested_eq_ok_iff.mpr ⟨samples, words, hSamples, hWords, rfl⟩⟩

section

variable {dump : List (List (List (List Sample × List UInt64)))}

theorem nests_of_dumpNested (hDump : it.dumpNested.1 = .ok dump) {n : Nat}
    {fields : List (List (List Sample × List UInt64))} (hAt : dump[n]? = some fields) :
    ∃ r, it.item n = some (.ok r) ∧ r.Nests fields := by
  have hRead := (it.collects_dumpNested.complete dump).mp hDump n
  rw [hAt] at hRead
  obtain ⟨r, hItem, hFields⟩ := ResultIterator.reading_eq_ok_iff.mp hRead
  exact ⟨r, hItem, Result.nests_of_nested hFields⟩

theorem dumpValues_of_dumpNested (hDump : it.dumpNested.1 = .ok dump) :
    it.dumpValues.1 = .ok (dump.map fun fields => fields.flatten.map Prod.fst) := by
  apply (it.collects_dumpValues.complete _).mpr
  intro n
  rw [List.getElem?_map]
  cases hAt : dump[n]? with
  | none =>
    have hNone := (it.collects_dumpNested.complete dump).mp hDump n
    rw [hAt, Option.map_none, ResultIterator.reading_eq_none_iff] at hNone
    exact ResultIterator.reading_eq_none_iff.mpr hNone
  | some fields =>
    obtain ⟨r, hItem, ranges, rfl, _, hSamples, _⟩ := nests_of_dumpNested hDump hAt
    rw [ResultIterator.reading_eq_ok_iff.mpr ⟨r, hItem, hSamples⟩, Option.map_some,
      Option.map_some, List.flatten_singleton]

end

/-- Both dumps, whatever the iterator has handed out before, whatever its source replies and
whatever the handles load. The nested dump pairs what each range has of samples and mask words, so
without the words it is the other dump. -/
theorem dumps_stepwise (it : BoundedIterator) :
    it.Collects (fun r => r.rangeValues.answer) it.dumpValues ∧
    it.Collects Result.nested it.dumpNested ∧
    ((∃ dump, it.dumpNested.1 = .ok dump) ↔ (∃ dump, it.dumpValues.1 = .ok dump) ∧
      ∀ n r, it.item n = some (.ok r) → ∃ words, r.rangeMasks.answer = .ok words) ∧
    ∀ dump, it.dumpNested.1 = .ok dump →
      (∀ n fields, dump[n]? = some fields → ∃ r, it.item n = some (.ok r) ∧ r.Nests fields) ∧
      it.dumpValues.1 = .ok (dump.map fun fields => fields.flatten.map Prod.fst) := by
  refine ⟨it.collects_dumpValues, it.collects_dumpNested, it.dumpNested_accepted_iff, ?_⟩
  intro dump hDump
  exact ⟨fun n fields hAt => nests_of_dumpNested hDump hAt, dumpValues_of_dumpNested hDump⟩

/-- One result has been taken already; of the two that are left, the second has samples but its
mask is refused. -/
theorem dumps_stepwise_of_refused_mask :
    let whole := Handle.ofBuffers [⟨0⟩, Sample.missing, ⟨1⟩] [1, 1]
    let e := EngineError.ofStatus "load_mask" .failure "busy"
    let torn : Handle := ⟨Loader.constant [⟨2⟩, ⟨3⟩, ⟨4⟩], ⟨fun _ => .error e, 0⟩⟩
    let source := BoundedSource.ofReplies [.ok (some whole), .ok (some whole), .ok (some torn)]
    let it := (BoundedIterator.start source (.repeated ⟨[2, 1]⟩) .extractSingle).next.state
    it.dumpValues.1 = .ok [[[⟨0⟩, Sample.missing], [⟨1⟩]], [[⟨2⟩, ⟨3⟩], [⟨4⟩]]] ∧
      it.dumpNested.1 = .error (.decode (.engine e)) ∧ it.dumpNested.2.counts.advances = 2 := by
  intro whole e torn source it
  obtain ⟨hValues, hNested, _⟩ := dumps_stepwise it
  have hFails : it.FailsAt Result.nested 1 (.decode (.engine e)) := by
    refine ⟨rfl, fun i hi => ?_⟩
    rw [Nat.lt_one_iff.mp hi]
    exact ⟨_, rfl⟩
  refine ⟨?_, (hNested.failed _).mpr ⟨1, hFails⟩, hNested.advances 1 _ hFails⟩
  apply (hValues.complete _).mpr
  intro n
  match n with
  | 0 | 1 => rfl
  | n + 2 =>
    rw [← ResultIterator.reading_next, ← ResultIterator.reading_next]
    exact ResultIterator.reading_eq_none_iff.mpr
      (@item_of_end it.next.state.next.state rfl n)

end BoundedIterator

end FieldExtract
