import FieldExtract.Proofs.Accounting

/-!
# The life of a source

A command of a client treats one iterator, or opens one. Where it brings that iterator to its end
or gives it up, the source of that iterator is released, and no other is; an iterator that has let
go of its source never holds one again.
-/

namespace FieldExtract

namespace Command

/-- What a client can do; the other commands go to the engine directly. -/
def isClient : Command → Bool
  | .extract .. | .axes .. | .discover .. | .next _ | .dumpValues _ | .dumpNested _
  | .dropIterator _ | .access .. | .dropResult _ => true
  | .engineSubmit .. | .engineAxes .. | .sourceNext _ | .dropSource _ | .handleLoad _
  | .dropHandle _ => false

def iterator? : Command → Option SlotRef
  | .next ref | .dumpValues ref | .dumpNested ref | .dropIterator ref => some ref
  | .extract .. | .axes .. | .discover .. | .access .. | .dropResult _ | .engineSubmit ..
  | .engineAxes .. | .sourceNext _ | .dropSource _ | .handleLoad _ | .dropHandle _ => none

end Command

/-- All that a command of a client can do to the iterators. -/
inductive Turn (its : Slots BoundedIterator) : Option SlotRef → Slots BoundedIterator → Prop
  | idle (ref? : Option SlotRef) (hSlot : ∀ ref ∈ ref?, its.get? ref = none) : Turn its ref? its
  | opened (it : BoundedIterator) (hHeld : it.held = 1) : Turn its none (its.add it)
  | moved (ref : SlotRef) (it later : BoundedIterator) (hSlot : its.get? ref = some it) :
    Turn its (some ref) (its.put ref later)
  | given (ref : SlotRef) (it : BoundedIterator) (hSlot : its.get? ref = some it) :
    Turn its (some ref) (its.clear ref)

section

variable {its later : Slots BoundedIterator} {ref? : Option SlotRef}

/-- An iterator that is opened makes up for the slot it takes; any other change of what is held is
one of the slot that is treated. -/
theorem Turn.balance (h : Turn its ref? later) :
    openIterators its + later.size + ref?.elim 0 (heldAt later) =
      openIterators later + its.size + ref?.elim 0 (heldAt its) := by
  cases h with
  | idle => rfl
  | opened it hHeld =>
    rw [openIterators_add, Slots.size_add, hHeld]
    dsimp only [Option.elim_none]
    omega
  | moved ref it later hSlot =>
    have hOpen := openIterators_put hSlot later
    simp only [heldAt, Option.elim_some, hSlot, Slots.get?_put hSlot, Slots.size_put]
    omega
  | given ref it hSlot =>
    have hOpen := openIterators_clear hSlot
    simp only [heldAt, Option.elim_some, Option.elim_none, hSlot, Slots.get?_clear hSlot,
      Slots.size_clear]
    omega

theorem Turn.others (h : Turn its ref? later) {n : Nat} (hn : n < its.size)
    (hOther : ∀ ref ∈ ref?, its.index ref ≠ n) :
    later.get? (.number n) = its.get? (.number n) := by
  cases h with
  | idle => rfl
  | opened it => exact Slots.get?_add_of_lt hn it
  | moved ref it later => exact Slots.get?_put_of_ne (hOther ref rfl) later
  | given ref it => exact Slots.get?_clear_of_ne (hOther ref rfl)

end

namespace Session

/-- A client takes a turn at its iterators and touches nothing that others hold of the engine. -/
structure ClientStep {ε : Type} (s : Session ε) (ref? : Option SlotRef) (after : Session ε) :
    Prop where
  turn : Turn s.iterators ref? after.iterators
  sources_eq : after.sources = s.sources
  handles_eq : after.handles = s.handles

section

variable {ε : Type}

theorem clientStep_of_idle {s after : Session ε} (hIterators : after.iterators = s.iterators)
    (hSources : after.sources = s.sources) (hHandles : after.handles = s.handles) :
    s.ClientStep none after :=
  ⟨hIterators ▸ .idle none nofun, hSources, hHandles⟩

theorem clientStep_of_noSlot {s : Session ε} {ref : SlotRef}
    (hSlot : s.iterators.get? ref = none) : s.ClientStep (some ref) s :=
  ⟨.idle _ fun _ h => Option.some.inj h ▸ hSlot, rfl, rfl⟩

theorem nextResult_clientStep (s : Session ε) (ref : SlotRef) :
    s.ClientStep (some ref) (s.nextResult ref).2 := by
  cases hSlot : s.iterators.get? ref with
  | none =>
    simp only [nextResult, hSlot]
    exact clientStep_of_noSlot hSlot
  | some it =>
    obtain ⟨results, _, hEq⟩ := nextResult_eq hSlot
    rw [hEq]
    exact ⟨.moved ref it _ hSlot, rfl, rfl⟩

theorem dump_clientStep {α : Type} (s : Session ε) (ref : SlotRef)
    (run : BoundedIterator → Except ClientError α × Journal) (answer : α → Answer) :
    s.ClientStep (some ref) (s.dump ref run answer).2 := by
  cases hSlot : s.iterators.get? ref with
  | none =>
    simp only [dump, hSlot]
    exact clientStep_of_noSlot hSlot
  | some it =>
    rw [dump_eq hSlot]
    exact ⟨.given ref it hSlot, rfl, rfl⟩

theorem dropIterator_clientStep (s : Session ε) (ref : SlotRef) :
    s.ClientStep (some ref) (s.dropIterator ref).2 := by
  unfold dropIterator
  cases hSlot : s.iterators.get? ref with
  | none => exact clientStep_of_noSlot hSlot
  | some it => exact ⟨.given ref it hSlot, rfl, rfl⟩

theorem accessResult_clientStep (s : Session ε) (ref : SlotRef) (a : Result.Accessor) :
    s.ClientStep none (s.accessResult ref a).2 := by
  unfold accessResult
  split
  · exact clientStep_of_idle rfl rfl rfl
  · dsimp only
    split <;> exact clientStep_of_idle rfl rfl rfl

theorem dropResult_clientStep (s : Session ε) (ref : SlotRef) :
    s.ClientStep none (s.dropResult ref).2 := by
  unfold dropResult
  split <;> exact clientStep_of_idle rfl rfl rfl

theorem settleAxes_clientStep (s : Session ε) (o : Outcome ε (Except ClientError Axes)) :
    s.ClientStep none (s.settleAxes o).2 := by
  unfold settleAxes
  dsimp only
  split <;> exact clientStep_of_idle rfl rfl rfl

variable [Engine ε]

theorem extract_clientStep (s : Session ε) (c : Client) (x : Extraction)
    (context : Option Context) : s.ClientStep none (s.extract c x context).2 := by
  have hCourse := c.openIterator_course x context s.engine
  generalize hOpen : c.openIterator x context s.engine = o at hCourse
  cases hCourse with
  | rejected err =>
    rw [extract_of_rejection hOpen]
    exact clientStep_of_idle rfl rfl rfl
  | sent submission hashed notice plan =>
    obtain ⟨before, after, _, _, hSubmit⟩ :=
      c.submit_eq submission hashed notice plan context s.engine
    rw [hSubmit] at hOpen
    split at hOpen
    · rw [extract_of_opened hOpen]
      exact ⟨.opened _ rfl, rfl, rfl⟩
    · rw [extract_of_refused hOpen]
      exact clientStep_of_idle rfl rfl rfl

theorem perform_clientStep (s : Session ε) (c : Client) {command : Command}
    (hClient : command.isClient) : s.ClientStep command.iterator? (s.perform c command).2 := by
  cases command with
  | extract x context => exact s.extract_clientStep c x context
  | axes | discover => exact s.settleAxes_clientStep _
  | next ref => exact s.nextResult_clientStep ref
  | dumpValues ref => exact s.dump_clientStep ref _ _
  | dumpNested ref => exact s.dump_clientStep ref _ _
  | dropIterator ref => exact s.dropIterator_clientStep ref
  | access ref a => exact s.accessResult_clientStep ref a
  | dropResult ref => exact s.dropResult_clientStep ref
  | engineSubmit | engineAxes | sourceNext | dropSource | handleLoad | dropHandle => cases hClient

theorem run_keeps (s : Session ε) {commands : List (Client × Command)}
    (hClient : ∀ p ∈ commands, p.2.isClient) :
    (s.run commands).2.sources = s.sources ∧ (s.run commands).2.handles = s.handles := by
  induction commands generalizing s with
  | nil => exact ⟨rfl, rfl⟩
  | cons p rest ih =>
    obtain ⟨c, command⟩ := p
    have hStep := s.perform_clientStep c (hClient _ List.mem_cons_self)
    obtain ⟨hSources, hHandles⟩ := ih (s.perform c command).2 fun q hq =>
      hClient q (List.mem_cons_of_mem _ hq)
    exact ⟨hSources.trans hStep.sources_eq, hHandles.trans hStep.handles_eq⟩

end

/-- Of all sources, only the one that is held in the slot treated can be released, and it is if it
is no longer held there; the other iterators are left as they are. -/
structure ReleasesOwn {ε : Type} (s : Session ε) (ref? : Option SlotRef) (after : Session ε) :
    Prop where
  released : after.journal.counts.sourcesReleased + ref?.elim 0 (heldAt after.iterators) =
    s.journal.counts.sourcesReleased + ref?.elim 0 (heldAt s.iterators)
  held_le : ref?.elim 0 (heldAt after.iterators) ≤ ref?.elim 0 (heldAt s.iterators)
  others : ∀ n < s.iterators.size, (∀ ref ∈ ref?, s.iterators.index ref ≠ n) →
    after.iterators.get? (.number n) = s.iterators.get? (.number n)

theorem releasesOwn_of_accounts {ε : Type} {s after : Session ε} {ref? : Option SlotRef} {n : Nat}
    (hAccounts : s.Accounts n after) (hStep : s.ClientStep ref? after) :
    s.ReleasesOwn ref? after := by
  -- the account is kept for the whole session; the turn says which slot its change lies in
  obtain ⟨j, hJournal, ⟨hOpened, hHeld, _⟩, _⟩ := hAccounts.entries
  have hBalance := hStep.turn.balance
  have hReleased : after.journal.counts.sourcesReleased =
      s.journal.counts.sourcesReleased + j.counts.sourcesReleased := by
    rw [hJournal]
    exact congrArg Journal.Counts.sourcesReleased (Journal.counts_append _ j)
  simp only [holdings, hStep.sources_eq] at hOpened hHeld
  exact ⟨by omega, by omega, fun n hn => hStep.turn.others hn⟩

/-- Sources and results balance in every state that a client can bring about, and whatever the
client does there next releases no source but that of the iterator it treats. -/
theorem ledger_of_run (a : Archive) (hFault : a.faults.submission = none)
    (commands : List (Client × Command)) (hClient : ∀ p ∈ commands, p.2.isClient) :
    let s := ((start a).run commands).2
    let counts := s.journal.counts
    counts.submissions = counts.sourcesReleased + openIterators s.iterators ∧
      counts.submissions = s.iterators.size ∧
      counts.handles = counts.resultsReleased + s.results.live.length ∧
      counts.advances = (start a).pullsOf commands ∧
      ∀ (c : Client) (command : Command), command.isClient →
        s.ReleasesOwn command.iterator? (s.perform c command).2 := by
  intro s counts
  have hRun : (start a).Accounts ((start a).pullsOf commands) s := run_accounts hFault commands
  obtain ⟨j, hJournal, hSettles, hAdvances⟩ := hRun.entries
  have hCounts : counts = j.counts := congrArg Journal.counts hJournal
  have hHeld : s.holdings =
      ⟨s.iterators.size, openIterators s.iterators, s.results.live.length⟩ := by
    obtain ⟨hSources, hHandles⟩ := (start a).run_keeps hClient
    simp only [holdings, s, hSources, hHandles]
    rfl
  -- nothing was held at the start, so the journal alone has to balance
  rw [hHeld, show (start a).holdings = .none from rfl] at hSettles
  refine ⟨?_, ?_, ?_, hCounts ▸ hAdvances, fun c command hCommand => ?_⟩
  · simpa [hCounts, Holdings.none] using hSettles.sources
  · simpa [hCounts, Holdings.none] using hSettles.opened
  · simpa [hCounts, Holdings.none] using hSettles.results
  · exact releasesOwn_of_accounts (perform_accounts (hRun.engine_eq ▸ hFault) c command)
      (s.perform_clientStep c hCommand)

/-- One of two results is handed out and looked at; a dump stops at the other, since both have lost
a sample. -/
theorem ledger_of_run_of_cut_sample :
    let a := { Archive.empty.addFile "t850.grib" 4 [⟨0⟩, ⟨1⟩] with faults := ⟨none, none, 1⟩ }
    let c := Client.new ⟨"user", "host"⟩
    let request : PathRequest :=
      ⟨Location.ofFile "t850.grib" 4, [⟨0, 2, by decide⟩], none, by decide, by decide⟩
    let commands : List (Client × Command) :=
      [(c, .extract (.paths [request, request]) none), (c, .next .last),
        (c, .access .last .rangeValues), (c, .dumpValues .last), (c, .dropResult .last)]
    let counts := ((start a).run commands).2.journal.counts
    a.faults.submission = none ∧ (∀ p ∈ commands, p.2.isClient) ∧
      counts.submissions = 1 ∧ counts.sourcesReleased = 1 ∧
      counts.handles = 2 ∧ counts.resultsReleased = 2 := by
  intro a c request commands counts
  have hClient : ∀ p ∈ commands, p.2.isClient := by
    intro p hp
    simp only [commands, List.mem_cons, List.not_mem_nil, or_false] at hp
    rcases hp with rfl | rfl | rfl | rfl | rfl <;> rfl
  obtain ⟨hSources, hOpened, hResults, _, _⟩ := ledger_of_run a rfl commands hClient
  let held := ((start a).run (commands.take 3)).2
  obtain ⟨it, hSlot, j, hDump, hHandles⟩ : ∃ it, held.iterators.get? .last = some it ∧
      ∃ j, it.dumpValues.2 = j ∧
        (Journal.counts (held.journal ++ j ++ [.resultReleased])).handles = 2 :=
    ⟨_, rfl, _, congrArg Prod.snd (BoundedIterator.drain_of_refusal rfl rfl), by decide⟩
  have hEnd : ((start a).run commands).2 =
      ((held.dump .last BoundedIterator.dumpValues .values).2.dropResult .last).2 := rfl
  rw [dump_eq hSlot, hDump] at hEnd
  have hIterators : ((start a).run commands).2.iterators = ⟨[none]⟩ := hEnd ▸ rfl
  have hKept : ((start a).run commands).2.results = ⟨[none]⟩ := hEnd ▸ rfl
  have hTwo : counts.handles = 2 := by
    simp only [counts, hEnd]
    exact hHandles
  rw [hIterators] at hSources hOpened
  rw [hKept] at hResults
  exact ⟨rfl, hClient, hOpened, hSources.symm.trans hOpened, hTwo, hResults.symm.trans hTwo⟩

end Session

end FieldExtract
