import FieldExtract.Proofs.Admission

/-!
# The accounts of a session

Whatever is done in a session, in whatever order, its journal accounts for all that the engine has
handed out: each source and each result is held by someone or has been released, once. The
sources have been advanced just as often as someone has called an iterator that was still open.
-/

namespace FieldExtract

/-- The iterators that have neither been given up nor come to their end. -/
def openIterators (its : Slots BoundedIterator) : Nat := its.live.countP fun it => !it.isFinished

/-- How many sources are held in a slot: one, if there is an open iterator in it. -/
def heldAt (its : Slots BoundedIterator) (ref : SlotRef) : Nat :=
  (its.get? ref).elim 0 fun it => it.held

section

variable {its : Slots BoundedIterator} {ref : SlotRef} {it : BoundedIterator}

theorem openIterators_eq_sum (its : Slots BoundedIterator) :
    openIterators its = (its.live.map fun it => it.held).sum := by
  unfold openIterators
  induction its.live with
  | nil => rfl
  | cons it rest ih =>
    rw [List.countP_cons, ih, List.map_cons, List.sum_cons, Nat.add_comm]
    cases h : it.isFinished <;> simp [ResultIterator.held, h]

theorem openIterators_add (its : Slots BoundedIterator) (it : BoundedIterator) :
    openIterators (its.add it) = openIterators its + it.held := by
  rw [openIterators_eq_sum, openIterators_eq_sum, Slots.live_add, List.map_append,
    List.sum_append, List.map_singleton, List.sum_singleton]

/-- The other iterators stay what they are. -/
theorem openIterators_put (h : its.get? ref = some it) (later : BoundedIterator) :
    openIterators its + later.held = openIterators (its.put ref later) + it.held := by
  obtain ⟨left, right, hLive, hPut, _⟩ := Slots.live_of_get? h
  simp only [openIterators_eq_sum, hLive, hPut, List.map_append, List.sum_append, List.map_cons,
    List.sum_cons]
  omega

theorem openIterators_clear (h : its.get? ref = some it) :
    openIterators its = openIterators (its.clear ref) + it.held := by
  obtain ⟨left, right, hLive, _, hClear⟩ := Slots.live_of_get? h
  simp only [openIterators_eq_sum, hLive, hClear, List.map_append, List.sum_append, List.map_cons,
    List.sum_cons]
  omega

end

namespace Session

section

variable {ε : Type}

/-- All that has been opened, and all that is held in a slot. -/
def holdings (s : Session ε) : Holdings where
  opened := s.iterators.size + s.sources.size
  sources := openIterators s.iterators + s.sources.live.length
  results := s.results.live.length + s.handles.live.length

/-- What has been done since is accounted for, and so often has a source been advanced. -/
structure Accounts (s : Session ε) (advances : Nat) (after : Session ε) : Prop where
  engine_eq : after.engine = s.engine
  entries : ∃ j : Journal, after.journal = s.journal ++ j ∧ j.Settles s.holdings after.holdings ∧
    j.counts.advances = advances

theorem accounts_refl (s : Session ε) : s.Accounts 0 s :=
  ⟨rfl, [], (List.append_nil _).symm, Journal.settles_nil _, rfl⟩

theorem Accounts.trans {s between after : Session ε} {m n : Nat} (hFirst : s.Accounts m between)
    (hSecond : between.Accounts n after) : s.Accounts (m + n) after := by
  obtain ⟨j, hJournal, hSettles, hAdvances⟩ := hFirst.entries
  obtain ⟨k, hLater, hSettles', hAdvances'⟩ := hSecond.entries
  refine ⟨hSecond.engine_eq.trans hFirst.engine_eq, j ++ k, ?_, hSettles.append hSettles', ?_⟩
  · rw [hLater, hJournal, List.append_assoc]
  · rw [Journal.advances_append, hAdvances, hAdvances']

/-- Nothing that is counted here has been done. -/
theorem accounts_of_quiet {s after : Session ε} {j : Journal} (hEngine : after.engine = s.engine)
    (hJournal : after.journal = s.journal ++ j) (hQuiet : j.Quiet)
    (hHoldings : after.holdings = s.holdings) : s.Accounts 0 after :=
  ⟨hEngine, j, hJournal, hHoldings ▸ hQuiet.settles s.holdings, hQuiet.advances_eq⟩

/-- The result that is handed out, if one is, is kept in a slot of its own. -/
theorem nextResult_eq {s : Session ε} {ref : SlotRef} {it : BoundedIterator}
    (hSlot : s.iterators.get? ref = some it) :
    ∃ results : Slots Result,
      results.live.length = s.results.live.length + ResultIterator.handed it.next.answer ∧
        (s.nextResult ref).2 =
          { s with iterators := s.iterators.put ref it.next.state, results := results }.record
            it.next.journal := by
  unfold nextResult
  rw [hSlot]
  dsimp only
  split
  · next hAnswer => exact ⟨s.results, by rw [hAnswer]; rfl, rfl⟩
  · next hAnswer => exact ⟨s.results, by rw [hAnswer]; rfl, rfl⟩
  · next r hAnswer =>
    exact ⟨s.results.add r, by rw [hAnswer, Slots.length_live_add]; rfl, rfl⟩

theorem nextResult_accounts (s : Session ε) (ref : SlotRef) :
    s.Accounts (heldAt s.iterators ref) (s.nextResult ref).2 := by
  unfold heldAt
  cases hSlot : s.iterators.get? ref with
  | none =>
    simp only [nextResult, hSlot]
    exact accounts_refl s
  | some it =>
    obtain ⟨hSettles, _, hAdvances⟩ := it.toResultIterator.next_settles
    obtain ⟨results, hResults, hEq⟩ := nextResult_eq hSlot
    have hOpen := openIterators_put hSlot it.next.state
    have hSize := s.iterators.size_put ref it.next.state
    rw [hEq]
    refine ⟨rfl, it.next.journal, rfl, hSettles.whole ?_ ?_ ?_, hAdvances⟩
    · simp only [holdings, record, hSize, Holdings.source]
    · simp only [holdings, record, Holdings.source]
      change _ + it.next.state.held = _
      omega
    · simp only [holdings, record, Holdings.source, hResults]
      change _ + ResultIterator.handed it.next.answer = _
      omega

theorem settles_of_clear {s : Session ε} {ref : SlotRef} {it : BoundedIterator} {j k : Journal}
    (hSlot : s.iterators.get? ref = some it) (hSettles : j.Settles (.source it.held) .none) :
    j.Settles s.holdings
      (holdings ({ s with iterators := s.iterators.clear ref }.record k)) := by
  have hOpen := openIterators_clear hSlot
  have hSize := s.iterators.size_clear ref
  refine hSettles.whole ?_ ?_ ?_
  · simp only [holdings, record, hSize, Holdings.source, Holdings.none]
  · simp only [holdings, record, hOpen, Holdings.source, Holdings.none]
    omega
  · simp only [holdings, record, Holdings.source, Holdings.none]

/-- Whether or not it runs to the end, a dump gives the iterator up. -/
theorem dump_eq {α : Type} {s : Session ε} {ref : SlotRef} {it : BoundedIterator}
    (hSlot : s.iterators.get? ref = some it)
    (run : BoundedIterator → Except ClientError α × Journal) (answer : α → Answer) :
    (s.dump ref run answer).2 =
      { s with iterators := s.iterators.clear ref }.record (run it).2 := by
  unfold dump
  rw [hSlot]
  dsimp only
  split <;> rfl

theorem dump_accounts {α : Type} {decode : Result → Except DecodeError α × Journal}
    (hDecode : ∀ r, (decode r).2.Quiet) (s : Session ε) (ref : SlotRef)
    (answer : List α → Answer) :
    s.Accounts ((s.iterators.get? ref).elim 0 fun it => it.pulls decode)
      (s.dump ref (BoundedIterator.drain decode) answer).2 := by
  cases hSlot : s.iterators.get? ref with
  | none =>
    simp only [dump, hSlot]
    exact accounts_refl s
  | some it =>
    obtain ⟨hSettles, hAdvances⟩ := BoundedIterator.drain_settles hDecode it
    rw [dump_eq hSlot]
    exact ⟨rfl, _, rfl, settles_of_clear hSlot hSettles, hAdvances⟩

theorem dropIterator_accounts (s : Session ε) (ref : SlotRef) :
    s.Accounts 0 (s.dropIterator ref).2 := by
  unfold dropIterator
  cases hSlot : s.iterators.get? ref with
  | none => exact accounts_refl s
  | some it =>
    obtain ⟨hSettles, hAdvances⟩ := it.release_settles
    exact ⟨rfl, _, rfl, settles_of_clear hSlot hSettles, hAdvances⟩

theorem accessResult_accounts (s : Session ε) (ref : SlotRef) (a : Result.Accessor) :
    s.Accounts 0 (s.accessResult ref a).2 := by
  unfold accessResult
  cases hSlot : s.results.get? ref with
  | none => exact accounts_refl s
  | some r =>
    have hLength := Slots.length_live_put hSlot (r.access a).state
    have hHoldings : holdings { s with results := s.results.put ref (r.access a).state } =
        s.holdings := by
      simp only [holdings, hLength]
    dsimp only
    split
    · exact accounts_of_quiet rfl rfl (r.quiet_access a) hHoldings
    · exact accounts_of_quiet rfl rfl (r.quiet_access a) hHoldings

/-- A result or a handle that was held has been released. -/
theorem accounts_of_release {s after : Session ε} (hEngine : after.engine = s.engine)
    (hJournal : after.journal = s.journal ++ [.resultReleased])
    (hHoldings : s.holdings =
      { after.holdings with results := after.holdings.results + 1 }) : s.Accounts 0 after := by
  refine ⟨hEngine, _, hJournal, ?_, rfl⟩
  rw [hHoldings]
  exact ⟨rfl, Nat.add_comm _ 0, Nat.add_comm after.holdings.results 1⟩

theorem dropResult_accounts (s : Session ε) (ref : SlotRef) :
    s.Accounts 0 (s.dropResult ref).2 := by
  unfold dropResult
  cases hSlot : s.results.get? ref with
  | none => exact accounts_refl s
  | some r =>
    have hLength := Slots.length_live_clear hSlot
    refine accounts_of_release rfl rfl ?_
    simp only [holdings, record, hLength, Nat.add_right_comm]

theorem dropHandle_accounts (s : Session ε) (ref : SlotRef) :
    s.Accounts 0 (s.dropHandle ref).2 := by
  unfold dropHandle
  cases hSlot : s.handles.get? ref with
  | none => exact accounts_refl s
  | some h =>
    have hLength := Slots.length_live_clear hSlot
    refine accounts_of_release rfl rfl ?_
    simp only [holdings, record, hLength, Nat.add_assoc]

theorem loadHandle_accounts (s : Session ε) (ref : SlotRef) :
    s.Accounts 0 (s.loadHandle ref).2 := by
  unfold loadHandle
  cases hSlot : s.handles.get? ref with
  | none => exact accounts_refl s
  | some h =>
    have hLength := Slots.length_live_put hSlot h.load.state
    have hHoldings : holdings { s with handles := s.handles.put ref h.load.state } =
        s.holdings := by
      simp only [holdings, hLength]
    dsimp only
    split
    · exact accounts_of_quiet rfl rfl h.quiet_load hHoldings
    · exact accounts_of_quiet rfl rfl h.quiet_load hHoldings

/-- The handle that is handed out, if one is, is kept in a slot of its own. -/
theorem advanceSource_eq {s : Session ε} {ref : SlotRef} {feed : Feed}
    (hSlot : s.sources.get? ref = some feed) :
    ∃ handles : Slots Handle,
      handles.live.length = s.handles.live.length + (Source.handed feed.next.1).toNat ∧
        (s.advanceSource ref).2 =
          { s with sources := s.sources.put ref feed.next.2, handles := handles }.record
            [.advanced (Source.handed feed.next.1)] := by
  unfold advanceSource
  rw [hSlot]
  dsimp only
  split
  · next hReply => exact ⟨s.handles, by rw [hReply]; rfl, rfl⟩
  · next hReply => exact ⟨s.handles, by rw [hReply]; rfl, rfl⟩
  · next h hReply =>
    exact ⟨s.handles.add h, by rw [hReply, Slots.length_live_add]; rfl, rfl⟩

theorem advanceSource_accounts (s : Session ε) (ref : SlotRef) :
    s.Accounts ((s.sources.get? ref).elim 0 fun _ => 1) (s.advanceSource ref).2 := by
  cases hSlot : s.sources.get? ref with
  | none =>
    simp only [advanceSource, hSlot]
    exact accounts_refl s
  | some feed =>
    have hAdvanced : ∀ handed : Bool,
        Journal.Settles [.advanced handed] .none ⟨0, 0, handed.toNat⟩ := by
      intro handed
      cases handed <;> exact ⟨rfl, rfl, rfl⟩
    obtain ⟨handles, hHandles, hEq⟩ := advanceSource_eq hSlot
    have hLength := Slots.length_live_put hSlot feed.next.2
    have hSize := s.sources.size_put ref feed.next.2
    rw [hEq]
    refine ⟨rfl, _, rfl, (hAdvanced _).whole ?_ ?_ ?_, rfl⟩
    · simp only [holdings, record, hSize, Holdings.none]
    · simp only [holdings, record, hLength, Holdings.none]
    · simp only [holdings, record, hHandles, Holdings.none]
      omega

theorem dropSource_accounts (s : Session ε) (ref : SlotRef) :
    s.Accounts 0 (s.dropSource ref).2 := by
  unfold dropSource
  cases hSlot : s.sources.get? ref with
  | none => exact accounts_refl s
  | some feed =>
    have hReleased : Journal.Settles [.sourceReleased] (.source 1) .none := ⟨rfl, rfl, rfl⟩
    have hLength := Slots.length_live_clear hSlot
    have hSize := s.sources.size_clear ref
    refine ⟨rfl, _, rfl, hReleased.whole ?_ ?_ ?_, rfl⟩
    · simp only [holdings, record, hSize, Holdings.none, Holdings.source]
    · simp only [holdings, record, hLength, Holdings.none, Holdings.source]
      omega
    · rfl

/-- A submission, with anything quiet around it, opens one source. -/
theorem settles_of_called {before after : Journal} (hBefore : before.Quiet) (hAfter : after.Quiet)
    (submission : Submission) (context : String) :
    let j := before ++ [.called (.submit submission) context] ++ after
    Journal.Settles j .none ⟨1, 1, 0⟩ ∧ j.counts.advances = 0 := by
  have hCalled : Journal.Settles [.called (.submit submission) context] .none ⟨1, 1, 0⟩ :=
    ⟨rfl, rfl, rfl⟩
  refine ⟨((hBefore.settles _).append hCalled).append (hAfter.settles _), ?_⟩
  rw [Journal.advances_append, Journal.advances_append, hBefore.advances_eq, hAfter.advances_eq]
  rfl

theorem extract_of_opened [Engine ε] {c : Client} {x : Extraction} {context : Option Context}
    {s : Session ε} {it : BoundedIterator} {e : ε} {j : Journal}
    (h : c.openIterator x context s.engine = ⟨.ok it, e, j⟩) :
    (s.extract c x context).2 =
      { s with engine := e, iterators := s.iterators.add it }.record j := by
  rw [extract, h]
  rfl

theorem extract_of_refused [Engine ε] {c : Client} {x : Extraction} {context : Option Context}
    {s : Session ε} {err : ClientError} {e : ε} {j : Journal}
    (h : c.openIterator x context s.engine = ⟨.error err, e, j⟩) :
    (s.extract c x context).2 = { s with engine := e }.record j := by
  rw [extract, h]

section

variable {s : Session Archive}

/-- A submission that is not refused opens one source, and one that cannot be read opens none. -/
theorem submit_cases {a : Archive} (hFault : a.faults.submission = none) (submission : Submission)
    (context : String) :
    (∃ err, Engine.submit a submission context = ⟨.error err, a, []⟩) ∨
      ∃ source, Engine.submit a submission context =
        ⟨.ok source, a, [.called (.submit submission) context]⟩ := by
  change (∃ err, a.submit submission context = _) ∨ ∃ source, a.submit submission context = _
  unfold Archive.submit
  cases Archive.jobs submission with
  | error err => exact .inl ⟨err, rfl⟩
  | ok js => exact .inr ⟨a.source js, by simp only [hFault]⟩

theorem extract_accounts (hFault : s.engine.faults.submission = none) (c : Client) (x : Extraction)
    (context : Option Context) : s.Accounts 0 (s.extract c x context).2 := by
  have hCourse := c.openIterator_course x context s.engine
  generalize hOpen : c.openIterator x context s.engine = o at hCourse
  cases hCourse with
  | rejected err =>
    rw [extract_of_rejection hOpen]
    exact accounts_refl s
  | sent submission hashed notice plan =>
    obtain ⟨before, after, hBefore, hAfter, hSubmit⟩ :=
      c.submit_eq submission hashed notice plan context s.engine
    rw [hSubmit] at hOpen
    rcases submit_cases hFault submission (c.contextJson (Engine.version s.engine)
      submission.action.name context) with ⟨err, hAnswer⟩ | ⟨source, hAnswer⟩
    · rw [hAnswer] at hOpen
      rw [extract_of_refused hOpen]
      refine accounts_of_quiet rfl rfl ?_ rfl
      exact (hBefore.quiet.append Journal.quiet_nil).append hAfter.quiet
    · rw [hAnswer] at hOpen
      rw [extract_of_opened hOpen]
      have hHeld : (BoundedIterator.start source plan submission.action).held = 1 := rfl
      obtain ⟨hSettles, hAdvances⟩ := settles_of_called hBefore.quiet hAfter.quiet submission _
      refine ⟨rfl, _, rfl, hSettles.whole ?_ ?_ ?_, hAdvances⟩
      · simp only [holdings, record, Holdings.none, Slots.size_add]
        omega
      · simp only [holdings, record, Holdings.none, openIterators_add, hHeld]
        omega
      · rfl

theorem submitDirectly_accounts (hFault : s.engine.faults.submission = none)
    (submission : Submission) (context : String) :
    s.Accounts 0 (s.submitDirectly submission context).2 := by
  unfold submitDirectly
  rcases submit_cases hFault submission context with ⟨err, hAnswer⟩ | ⟨source, hAnswer⟩
  · rw [hAnswer]
    exact accounts_of_quiet rfl rfl Journal.quiet_nil rfl
  · rw [hAnswer]
    obtain ⟨hSettles, hAdvances⟩ :=
      settles_of_called Journal.quiet_nil Journal.quiet_nil submission context
    refine ⟨rfl, _, rfl, hSettles.whole ?_ ?_ ?_, hAdvances⟩
    · simp only [holdings, record, Holdings.none, Slots.size_add]
      omega
    · simp only [holdings, record, Holdings.none, Slots.length_live_add]
      omega
    · rfl

theorem quiet_discover (key : Key) (level : Nat) (context : String) (a : Archive) :
    (Axes.discover key level context a).state = a ∧
      (Axes.discover key level context a).journal.Quiet := by
  by_cases hLevel : 1 ≤ level ∧ level ≤ 3
  · obtain ⟨answer, after, hAfter, hEq⟩ := Axes.discover_eq (if_pos hLevel) key context a
    have hCalled : Journal.Quiet [.called (.axes key.serialize level) context] := by
      simp [Journal.Quiet, Entry.isQuiet]
    rw [hEq]
    exact ⟨rfl, hCalled.append hAfter.quiet⟩
  · rw [Axes.discover_of_rejection hLevel]
    exact ⟨rfl, Journal.quiet_nil⟩

theorem quiet_axes (c : Client) (key : Key) (level : Option Nat) (context : Option Context)
    (a : Archive) :
    (c.axes key level context a).state = a ∧ (c.axes key level context a).journal.Quiet := by
  unfold Client.axes
  obtain ⟨hState, hQuiet⟩ := quiet_discover key (level.getD c.settings.axesLevel)
    (c.contextJson (Engine.version a) Action.axes.name context) a
  dsimp only
  split
  · exact ⟨hState, hQuiet.append (Journal.silent_singleton _).quiet⟩
  · exact ⟨hState, hQuiet⟩

theorem settleAxes_accounts {o : Outcome Archive (Except ClientError Axes)}
    (h : o.state = s.engine ∧ o.journal.Quiet) : s.Accounts 0 (s.settleAxes o).2 := by
  unfold settleAxes
  dsimp only
  split
  · exact accounts_of_quiet h.1 rfl h.2 rfl
  · exact accounts_of_quiet h.1 rfl h.2 rfl

theorem axesDirectly_accounts (s : Session Archive) (request : String) (level : Nat)
    (context : String) : s.Accounts 0 (s.axesDirectly request level context).2 := by
  have hCalled : Journal.Quiet [.called (.axes request level) context] := by
    simp [Journal.Quiet, Entry.isQuiet]
  unfold axesDirectly
  dsimp only
  split
  · exact accounts_of_quiet rfl rfl hCalled rfl
  · exact accounts_of_quiet rfl rfl hCalled rfl

end

/-- How often a command calls an iterator or a source that has not come to its end. -/
def pulls (s : Session ε) : Command → Nat
  | .next ref => heldAt s.iterators ref
  | .dumpValues ref =>
    (s.iterators.get? ref).elim 0 fun it => it.pulls BoundedIterator.decodeValues
  | .dumpNested ref =>
    (s.iterators.get? ref).elim 0 fun it => it.pulls BoundedIterator.decodeNested
  | .sourceNext ref => (s.sources.get? ref).elim 0 fun _ => 1
  | .extract .. | .axes .. | .discover .. | .dropIterator _ | .access .. | .dropResult _
  | .engineSubmit .. | .engineAxes .. | .dropSource _ | .handleLoad _ | .dropHandle _ => 0

def pullsOf [Engine ε] (s : Session ε) : List (Client × Command) → Nat
  | [] => 0
  | (c, command) :: rest => s.pulls command + (s.perform c command).2.pullsOf rest

theorem perform_accounts {s : Session Archive} (hFault : s.engine.faults.submission = none)
    (c : Client) (command : Command) :
    s.Accounts (s.pulls command) (s.perform c command).2 := by
  cases command with
  | extract x context => exact extract_accounts hFault c x context
  | axes key level context => exact settleAxes_accounts (quiet_axes c key level context _)
  | discover key level context => exact settleAxes_accounts (quiet_discover key level context _)
  | next ref => exact s.nextResult_accounts ref
  | dumpValues ref => exact dump_accounts BoundedIterator.quiet_decodeValues s ref .values
  | dumpNested ref => exact dump_accounts BoundedIterator.quiet_decodeNested s ref .nested
  | dropIterator ref => exact s.dropIterator_accounts ref
  | access ref a => exact s.accessResult_accounts ref a
  | dropResult ref => exact s.dropResult_accounts ref
  | engineSubmit submission context => exact submitDirectly_accounts hFault submission context
  | engineAxes request level context => exact s.axesDirectly_accounts request level context
  | sourceNext ref => exact s.advanceSource_accounts ref
  | dropSource ref => exact s.dropSource_accounts ref
  | handleLoad ref => exact s.loadHandle_accounts ref
  | dropHandle ref => exact s.dropHandle_accounts ref

theorem run_accounts {s : Session Archive} (hFault : s.engine.faults.submission = none)
    (commands : List (Client × Command)) : s.Accounts (s.pullsOf commands) (s.run commands).2 := by
  induction commands generalizing s with
  | nil => exact accounts_refl s
  | cons p rest ih =>
    obtain ⟨c, command⟩ := p
    have hStep := perform_accounts hFault c command
    -- no command changes the archive, so the later ones are not refused either
    exact hStep.trans (ih (hStep.engine_eq ▸ hFault))

end

end Session

end FieldExtract
