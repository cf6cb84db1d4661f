import FieldExtract.Proofs.Accounting
import FieldExtract.Proofs.DealtSlots
import Mathlib.Algebra.BigOperators.Group.Finset.Piecewise
import Mathlib.Data.Fintype.Defs

/-!
# Sharing a session

Any number of parties open iterators on one engine and take turns in any order. Each names what it
has been given by numbers of its own, so that it can treat nothing that is another's; a party may be
a single iterator with the results that it yields. Each gets the answers that it would get with a
fresh engine to itself, and the engine counts what all these engines would count together.
-/

namespace FieldExtract

/-- What a party has been given in a session: the number of each thing there, in order. -/
structure Desk where
  iterators : List Nat
  results : List Nat
  sources : List Nat
  handles : List Nat

namespace Desk

def empty : Desk := ⟨[], [], [], []⟩

/-- A party's command with the session's numbers in it. -/
def place (d : Desk) : Command → Option Command
  | .next ref => (ref.among d.iterators).map fun n => .next (.number n)
  | .dumpValues ref => (ref.among d.iterators).map fun n => .dumpValues (.number n)
  | .dumpNested ref => (ref.among d.iterators).map fun n => .dumpNested (.number n)
  | .dropIterator ref => (ref.among d.iterators).map fun n => .dropIterator (.number n)
  | .access ref accessor => (ref.among d.results).map fun n => .access (.number n) accessor
  | .dropResult ref => (ref.among d.results).map fun n => .dropResult (.number n)
  | .sourceNext ref => (ref.among d.sources).map fun n => .sourceNext (.number n)
  | .dropSource ref => (ref.among d.sources).map fun n => .dropSource (.number n)
  | .handleLoad ref => (ref.among d.handles).map fun n => .handleLoad (.number n)
  | .dropHandle ref => (ref.among d.handles).map fun n => .dropHandle (.number n)
  | .extract x context => some (.extract x context)
  | .axes key level context => some (.axes key level context)
  | .discover key level context => some (.discover key level context)
  | .engineSubmit submission context => some (.engineSubmit submission context)
  | .engineAxes request level context => some (.engineAxes request level context)

/-- What is handed out becomes the party's next thing, and is numbered so in its answer. -/
def receive (d : Desk) : Answer → Answer × Desk
  | .opened slot expected =>
    (.opened d.iterators.length expected, { d with iterators := d.iterators ++ [slot] })
  | .item (some (slot, shape)) finished yielded =>
    (.item (some (d.results.length, shape)) finished yielded,
      { d with results := d.results ++ [slot] })
  | .sourceOpened slot =>
    (.sourceOpened d.sources.length, { d with sources := d.sources ++ [slot] })
  | .handle (some slot) =>
    (.handle (some d.handles.length), { d with handles := d.handles ++ [slot] })
  | answer => (answer, d)

end Desk

/-- One session with the desks of the parties that share it. -/
structure SharedSession (κ ε : Type) where
  session : Session ε
  desks : κ → Desk

namespace SharedSession

variable {κ ε : Type}

def start (engine : ε) : SharedSession κ ε := ⟨Session.start engine, fun _ => Desk.empty⟩

/-- The steps or answers of one party, in order. -/
def partOf {α : Type} [DecidableEq κ] (who : κ) (all : List (κ × α)) : List α :=
  all.filterMap fun p => if p.1 = who then some p.2 else none

variable [DecidableEq κ]

theorem partOf_cons_self {α : Type} (who : κ) (a : α) (rest : List (κ × α)) :
    partOf who ((who, a) :: rest) = a :: partOf who rest :=
  List.filterMap_cons_some (if_pos rfl)

theorem partOf_cons_of_ne {α : Type} {who other : κ} (h : who ≠ other) (a : α)
    (rest : List (κ × α)) : partOf who ((other, a) :: rest) = partOf who rest :=
  List.filterMap_cons_none (if_neg h.symm)

variable [Engine ε]

def perform (s : SharedSession κ ε) (who : κ) (c : Client) (command : Command) :
    Answer × SharedSession κ ε :=
  match (s.desks who).place command with
  | none => (.noSlot, s)
  | some placed =>
    let (answer, after) := s.session.perform c placed
    let (own, desk) := (s.desks who).receive answer
    (own, ⟨after, Function.update s.desks who desk⟩)

/-- Performs the steps of all parties in the order given; each answer goes to its party. -/
def run (s : SharedSession κ ε) :
    List (κ × Client × Command) → List (κ × Answer) × SharedSession κ ε
  | [] => ([], s)
  | (who, c, command) :: rest =>
    let (answer, after) := s.perform who c command
    let (answers, final) := after.run rest
    ((who, answer) :: answers, final)

end SharedSession

theorem Archive.submit_state (a : Archive) (submission : Submission) (context : String) :
    (Engine.submit a submission context).state = a := by
  change (a.submit submission context).state = a
  unfold Archive.submit
  split <;> rfl

namespace Session

/-- A party's things in a session and in one of its own, with the same archive. -/
structure Beside (d : Desk) (s own : Session Archive) : Prop where
  engine_eq : s.engine = own.engine
  iterators : Mirrors d.iterators s.iterators own.iterators
  results : Mirrors d.results s.results own.results
  sources : Mirrors d.sources s.sources own.sources
  handles : Mirrors d.handles s.handles own.handles

/-- A step in a session and the same step alone: the party gets the answer that it would get alone,
and has the `after` things then. -/
structure Twin (d after : Desk) (s own : Session Archive) (step alone : Answer × Session Archive) :
    Prop where
  received : d.receive step.1 = (alone.1, after)
  iterators : Change d.iterators s.iterators own.iterators after.iterators step.2.iterators
    alone.2.iterators
  results : Change d.results s.results own.results after.results step.2.results alone.2.results
  sources : Change d.sources s.sources own.sources after.sources step.2.sources alone.2.sources
  handles : Change d.handles s.handles own.handles after.handles step.2.handles alone.2.handles
  engine_eq : step.2.engine = s.engine
  own_engine_eq : alone.2.engine = own.engine
  entries : ∃ j : Journal, step.2.journal = s.journal ++ j ∧ alone.2.journal = own.journal ++ j

section

variable {d : Desk} {s own : Session Archive} {ref : SlotRef} {n : Nat}

theorem twin_noSlot (d : Desk) (s own : Session Archive) :
    ∃ after, Twin d after s own (.noSlot, s) (.noSlot, own) :=
  ⟨d, rfl, .keep, .keep, .keep, .keep, rfl, rfl,
    [], (List.append_nil _).symm, (List.append_nil _).symm⟩

theorem nextResult_twin (h : Beside d s own) (hRef : ref.among d.iterators = some n) :
    ∃ after, Twin d after s own (s.nextResult (.number n)) (own.nextResult ref) := by
  have hSlot := h.iterators.get?_of_among hRef
  unfold nextResult
  rw [hSlot]
  cases own.iterators.get? ref with
  | none => exact twin_noSlot d s own
  | some it =>
    have hPut := h.iterators.put hRef it.next.state
    dsimp only
    cases it.next.answer with
    | none => exact ⟨d, rfl, hPut, .keep, .keep, .keep, rfl, rfl, _, rfl, rfl⟩
    | some answer =>
      cases answer with
      | error e => exact ⟨d, rfl, hPut, .keep, .keep, .keep, rfl, rfl, _, rfl, rfl⟩
      | ok r =>
        exact ⟨{ d with results := d.results ++ [s.results.size] }, by rw [h.results.size_eq]; rfl,
          hPut, .add r, .keep, .keep, rfl, rfl, _, rfl, rfl⟩

theorem dump_twin {α : Type} (h : Beside d s own) (hRef : ref.among d.iterators = some n)
    (run : BoundedIterator → Except ClientError α × Journal) {answer : α → Answer}
    (hAnswer : ∀ a, d.receive (answer a) = (answer a, d)) :
    ∃ after, Twin d after s own (s.dump (.number n) run answer) (own.dump ref run answer) := by
  have hSlot := h.iterators.get?_of_among hRef
  have hClear := h.iterators.clear hRef
  unfold dump
  rw [hSlot]
  cases own.iterators.get? ref with
  | none => exact twin_noSlot d s own
  | some it =>
    dsimp only
    cases (run it).1 with
    | error e => exact ⟨d, rfl, hClear, .keep, .keep, .keep, rfl, rfl, _, rfl, rfl⟩
    | ok a => exact ⟨d, hAnswer a, hClear, .keep, .keep, .keep, rfl, rfl, _, rfl, rfl⟩

theorem dropIterator_twin (h : Beside d s own) (hRef : ref.among d.iterators = some n) :
    ∃ after, Twin d after s own (s.dropIterator (.number n)) (own.dropIterator ref) := by
  have hSlot := h.iterators.get?_of_among hRef
  unfold dropIterator
  rw [hSlot]
  cases own.iterators.get? ref with
  | none => exact twin_noSlot d s own
  | some it => exact ⟨d, rfl, h.iterators.clear hRef, .keep, .keep, .keep, rfl, rfl, _, rfl, rfl⟩

theorem accessResult_twin (h : Beside d s own) (hRef : ref.among d.results = some n)
    (accessor : Result.Accessor) :
    ∃ after, Twin d after s own (s.accessResult (.number n) accessor)
      (own.accessResult ref accessor) := by
  have hSlot := h.results.get?_of_among hRef
  unfold accessResult
  rw [hSlot]
  cases own.results.get? ref with
  | none => exact twin_noSlot d s own
  | some r =>
    have hPut := h.results.put hRef (r.access accessor).state
    dsimp only
    cases (r.access accessor).answer with
    | error e => exact ⟨d, rfl, .keep, hPut, .keep, .keep, rfl, rfl, _, rfl, rfl⟩
    | ok reading => exact ⟨d, rfl, .keep, hPut, .keep, .keep, rfl, rfl, _, rfl, rfl⟩

theorem dropResult_twin (h : Beside d s own) (hRef : ref.among d.results = some n) :
    ∃ after, Twin d after s own (s.dropResult (.number n)) (own.dropResult ref) := by
  have hSlot := h.results.get?_of_among hRef
  unfold dropResult
  rw [hSlot]
  cases own.results.get? ref with
  | none => exact twin_noSlot d s own
  | some r => exact ⟨d, rfl, .keep, h.results.clear hRef, .keep, .keep, rfl, rfl, _, rfl, rfl⟩

theorem advanceSource_twin (h : Beside d s own) (hRef : ref.among d.sources = some n) :
    ∃ after, Twin d after s own (s.advanceSource (.number n)) (own.advanceSource ref) := by
  have hSlot := h.sources.get?_of_among hRef
  unfold advanceSource
  rw [hSlot]
  cases own.sources.get? ref with
  | none => exact twin_noSlot d s own
  | some feed =>
    have hPut := h.sources.put hRef feed.next.2
    dsimp only
    cases feed.next.1 with
    | error e => exact ⟨d, rfl, .keep, .keep, hPut, .keep, rfl, rfl, _, rfl, rfl⟩
    | ok reply =>
      cases reply with
      | none => exact ⟨d, rfl, .keep, .keep, hPut, .keep, rfl, rfl, _, rfl, rfl⟩
      | some x =>
        exact ⟨{ d with handles := d.handles ++ [s.handles.size] }, by rw [h.handles.size_eq]; rfl,
          .keep, .keep, hPut, .add x, rfl, rfl, _, rfl, rfl⟩

theorem dropSource_twin (h : Beside d s own) (hRef : ref.among d.sources = some n) :
    ∃ after, Twin d after s own (s.dropSource (.number n)) (own.dropSource ref) := by
  have hSlot := h.sources.get?_of_among hRef
  unfold dropSource
  rw [hSlot]
  cases own.sources.get? ref with
  | none => exact twin_noSlot d s own
  | some feed => exact ⟨d, rfl, .keep, .keep, h.sources.clear hRef, .keep, rfl, rfl, _, rfl, rfl⟩

theorem loadHandle_twin (h : Beside d s own) (hRef : ref.among d.handles = some n) :
    ∃ after, Twin d after s own (s.loadHandle (.number n)) (own.loadHandle ref) := by
  have hSlot := h.handles.get?_of_among hRef
  unfold loadHandle
  rw [hSlot]
  cases own.handles.get? ref with
  | none => exact twin_noSlot d s own
  | some x =>
    have hPut := h.handles.put hRef x.load.state
    dsimp only
    cases x.load.answer with
    | error e => exact ⟨d, rfl, .keep, .keep, .keep, hPut, rfl, rfl, _, rfl, rfl⟩
    | ok buffers => exact ⟨d, rfl, .keep, .keep, .keep, hPut, rfl, rfl, _, rfl, rfl⟩

theorem dropHandle_twin (h : Beside d s own) (hRef : ref.among d.handles = some n) :
    ∃ after, Twin d after s own (s.dropHandle (.number n)) (own.dropHandle ref) := by
  have hSlot := h.handles.get?_of_among hRef
  unfold dropHandle
  rw [hSlot]
  cases own.handles.get? ref with
  | none => exact twin_noSlot d s own
  | some x => exact ⟨d, rfl, .keep, .keep, .keep, h.handles.clear hRef, rfl, rfl, _, rfl, rfl⟩

/-- Whether or not the engine takes on the call, it is the same engine afterwards. -/
theorem openIterator_state (c : Client) (x : Extraction) (context : Option Context)
    (a : Archive) : (c.openIterator x context a).state = a := by
  have hCourse := c.openIterator_course x context a
  generalize c.openIterator x context a = o at hCourse
  cases hCourse with
  | rejected err => rfl
  | sent submission hashed notice plan =>
    obtain ⟨before, after, _, _, hSubmit⟩ := c.submit_eq submission hashed notice plan context a
    rw [hSubmit]
    exact Archive.submit_state a submission _

theorem extract_twin (h : Beside d s own) (c : Client) (x : Extraction)
    (context : Option Context) :
    ∃ after, Twin d after s own (s.extract c x context) (own.extract c x context) := by
  have hState := openIterator_state c x context own.engine
  unfold extract
  rw [h.engine_eq]
  dsimp only
  cases (c.openIterator x context own.engine).answer with
  | error e =>
    exact ⟨d, rfl, .keep, .keep, .keep, .keep, hState.trans h.engine_eq.symm, hState, _, rfl, rfl⟩
  | ok it =>
    exact ⟨{ d with iterators := d.iterators ++ [s.iterators.size] },
      by rw [h.iterators.size_eq]; rfl, .add it, .keep, .keep, .keep, hState.trans h.engine_eq.symm,
      hState, _, rfl, rfl⟩

theorem settleAxes_twin (h : Beside d s own) {o : Outcome Archive (Except ClientError Axes)}
    (hState : o.state = own.engine) :
    ∃ after, Twin d after s own (s.settleAxes o) (own.settleAxes o) := by
  unfold settleAxes
  dsimp only
  cases o.answer with
  | error e =>
    exact ⟨d, rfl, .keep, .keep, .keep, .keep, hState.trans h.engine_eq.symm, hState, _, rfl, rfl⟩
  | ok found =>
    exact ⟨d, rfl, .keep, .keep, .keep, .keep, hState.trans h.engine_eq.symm, hState, _, rfl, rfl⟩

theorem submitDirectly_twin (h : Beside d s own) (submission : Submission) (context : String) :
    ∃ after, Twin d after s own (s.submitDirectly submission context)
      (own.submitDirectly submission context) := by
  have hState := Archive.submit_state own.engine submission context
  unfold submitDirectly
  rw [h.engine_eq]
  dsimp only
  cases (Engine.submit own.engine submission context).answer with
  | error e =>
    exact ⟨d, rfl, .keep, .keep, .keep, .keep, hState.trans h.engine_eq.symm, hState, _, rfl, rfl⟩
  | ok source =>
    exact ⟨{ d with sources := d.sources ++ [s.sources.size] }, by rw [h.sources.size_eq]; rfl,
      .keep, .keep, .add _, .keep, hState.trans h.engine_eq.symm, hState, _, rfl, rfl⟩

theorem axesDirectly_twin (h : Beside d s own) (request : String) (level : Nat)
    (context : String) :
    ∃ after, Twin d after s own (s.axesDirectly request level context)
      (own.axesDirectly request level context) := by
  unfold axesDirectly
  rw [h.engine_eq]
  dsimp only
  cases (Engine.axes own.engine request level context).answer with
  | error e => exact ⟨d, rfl, .keep, .keep, .keep, .keep, h.engine_eq.symm, rfl, _, rfl, rfl⟩
  | ok pairs => exact ⟨d, rfl, .keep, .keep, .keep, .keep, h.engine_eq.symm, rfl, _, rfl, rfl⟩

theorem perform_twin (h : Beside d s own) (c : Client) {command placed : Command}
    (hPlaced : d.place command = some placed) :
    ∃ after, Twin d after s own (s.perform c placed) (own.perform c command) := by
  cases command with
  | extract x context =>
    cases hPlaced
    exact extract_twin h c x context
  | axes key level context =>
    cases hPlaced
    unfold perform
    rw [h.engine_eq]
    exact settleAxes_twin h (quiet_axes c key level context _).1
  | discover key level context =>
    cases hPlaced
    unfold perform
    rw [h.engine_eq]
    exact settleAxes_twin h (quiet_discover key level context _).1
  | next ref =>
    obtain ⟨n, hRef, rfl⟩ := Option.map_eq_some_iff.mp hPlaced
    exact nextResult_twin h hRef
  | dumpValues ref =>
    obtain ⟨n, hRef, rfl⟩ := Option.map_eq_some_iff.mp hPlaced
    exact dump_twin h hRef BoundedIterator.dumpValues fun _ => rfl
  | dumpNested ref =>
    obtain ⟨n, hRef, rfl⟩ := Option.map_eq_some_iff.mp hPlaced
    exact dump_twin h hRef BoundedIterator.dumpNested fun _ => rfl
  | dropIterator ref =>
    obtain ⟨n, hRef, rfl⟩ := Option.map_eq_some_iff.mp hPlaced
    exact dropIterator_twin h hRef
  | access ref accessor =>
    obtain ⟨n, hRef, rfl⟩ := Option.map_eq_some_iff.mp hPlaced
    exact accessResult_twin h hRef accessor
  | dropResult ref =>
    obtain ⟨n, hRef, rfl⟩ := Option.map_eq_some_iff.mp hPlaced
    exact dropResult_twin h hRef
  | engineSubmit submission context =>
    cases hPlaced
    exact submitDirectly_twin h submission context
  | engineAxes request level context =>
    cases hPlaced
    exact axesDirectly_twin h request level context
  | sourceNext ref =>
    obtain ⟨n, hRef, rfl⟩ := Option.map_eq_some_iff.mp hPlaced
    exact advanceSource_twin h hRef
  | dropSource ref =>
    obtain ⟨n, hRef, rfl⟩ := Option.map_eq_some_iff.mp hPlaced
    exact dropSource_twin h hRef
  | handleLoad ref =>
    obtain ⟨n, hRef, rfl⟩ := Option.map_eq_some_iff.mp hPlaced
    exact loadHandle_twin h hRef
  | dropHandle ref =>
    obtain ⟨n, hRef, rfl⟩ := Option.map_eq_some_iff.mp hPlaced
    exact dropHandle_twin h hRef

theorem run_cons (s : Session Archive) (c : Client) (command : Command)
    (rest : List (Client × Command)) :
    s.run ((c, command) :: rest) =
      ((s.perform c command).1 :: ((s.perform c command).2.run rest).1,
        ((s.perform c command).2.run rest).2) := rfl

/-- What cannot be placed names nothing that the party has. -/
theorem perform_of_unplaced (h : Beside d s own) (c : Client) {command : Command}
    (hPlaced : d.place command = none) : own.perform c command = (.noSlot, own) := by
  cases command with
  | extract x context => cases hPlaced
  | axes key level context => cases hPlaced
  | discover key level context => cases hPlaced
  | next ref => simp only [perform, nextResult, h.iterators.get?_of_unplaced hPlaced]
  | dumpValues ref => simp only [perform, dump, h.iterators.get?_of_unplaced hPlaced]
  | dumpNested ref => simp only [perform, dump, h.iterators.get?_of_unplaced hPlaced]
  | dropIterator ref => simp only [perform, dropIterator, h.iterators.get?_of_unplaced hPlaced]
  | access ref accessor => simp only [perform, accessResult, h.results.get?_of_unplaced hPlaced]
  | dropResult ref => simp only [perform, dropResult, h.results.get?_of_unplaced hPlaced]
  | engineSubmit submission context => cases hPlaced
  | engineAxes request level context => cases hPlaced
  | sourceNext ref => simp only [perform, advanceSource, h.sources.get?_of_unplaced hPlaced]
  | dropSource ref => simp only [perform, dropSource, h.sources.get?_of_unplaced hPlaced]
  | handleLoad ref => simp only [perform, loadHandle, h.handles.get?_of_unplaced hPlaced]
  | dropHandle ref => simp only [perform, dropHandle, h.handles.get?_of_unplaced hPlaced]

end

end Session

namespace Journal.Counts

attribute [ext] Journal.Counts

instance : Zero Counts := ⟨zero⟩

instance : AddCommMonoid Counts where
  add_assoc a b c := by ext <;> exact Nat.add_assoc _ _ _
  zero_add := zero_add
  add_zero := add_zero
  add_comm a b := by ext <;> exact Nat.add_comm _ _
  nsmul := nsmulRec

end Journal.Counts

namespace SharedSession

section

variable {κ : Type} [Fintype κ]

/-- Each party has what it would have alone, and the journal counts what theirs do together. -/
structure Divided (s : SharedSession κ Archive) (own : κ → Session Archive) : Prop where
  engine_eq : ∀ who, s.session.engine = (own who).engine
  iterators : Dealt (fun who => (s.desks who).iterators) s.session.iterators
    fun who => (own who).iterators
  results : Dealt (fun who => (s.desks who).results) s.session.results fun who => (own who).results
  sources : Dealt (fun who => (s.desks who).sources) s.session.sources fun who => (own who).sources
  handles : Dealt (fun who => (s.desks who).handles) s.session.handles fun who => (own who).handles
  counts_eq : s.session.journal.counts = ∑ who, (own who).journal.counts

theorem divided_start (a : Archive) :
    (start a : SharedSession κ Archive).Divided fun _ => Session.start a := by
  have hDealt : ∀ α : Type, Dealt (fun _ : κ => []) (Slots.empty : Slots α) fun _ => .empty :=
    fun _ => ⟨fun _ => ⟨rfl, fun _ _ h => by cases h⟩, fun _ _ _ _ _ h => by cases h⟩
  exact ⟨fun _ => rfl, hDealt _, hDealt _, hDealt _, hDealt _, Finset.sum_const_zero.symm⟩

variable [DecidableEq κ] {own : κ → Session Archive}

/-- The entries that one party adds are counted once, in its own journal. -/
theorem counts_update {who : κ} {alone : Session Archive} {j : Journal}
    (h : alone.journal = (own who).journal ++ j) :
    ∑ w, (Function.update own who alone w).journal.counts =
      (∑ w, (own w).journal.counts) + j.counts := by
  have hTerm : ∀ w, (Function.update own who alone w).journal.counts =
      (own w).journal.counts + if w = who then j.counts else 0 := by
    intro w
    by_cases hWho : w = who
    · subst hWho
      rw [Function.update_self, h, Journal.counts_append, if_pos rfl]
    · rw [Function.update_of_ne hWho, if_neg hWho, add_zero]
  rw [Finset.sum_congr rfl fun w _ => hTerm w, Finset.sum_add_distrib, Finset.sum_ite_eq',
    if_pos (Finset.mem_univ who)]

theorem Divided.perform {s : SharedSession κ Archive} (h : s.Divided own) (who : κ) (c : Client)
    (command : Command) :
    (s.perform who c command).1 = ((own who).perform c command).1 ∧
      (s.perform who c command).2.Divided
        (Function.update own who ((own who).perform c command).2) := by
  have hBeside : Session.Beside (s.desks who) s.session (own who) :=
    ⟨h.engine_eq who, h.iterators.mirrors who, h.results.mirrors who, h.sources.mirrors who,
      h.handles.mirrors who⟩
  unfold SharedSession.perform
  cases hPlaced : (s.desks who).place command with
  | none =>
    rw [Session.perform_of_unplaced hBeside c hPlaced, Function.update_eq_self]
    exact ⟨rfl, h⟩
  | some placed =>
    obtain ⟨after, hTwin⟩ := Session.perform_twin hBeside c hPlaced
    obtain ⟨j, hStep, hAlone⟩ := hTwin.entries
    dsimp only
    rw [hTwin.received]
    refine ⟨rfl, fun w => ?_, h.iterators.update hTwin.iterators, h.results.update hTwin.results,
      h.sources.update hTwin.sources, h.handles.update hTwin.handles, ?_⟩
    · by_cases hWho : w = who
      · subst hWho
        rw [Function.update_self, hTwin.own_engine_eq, hTwin.engine_eq, h.engine_eq w]
      · rw [Function.update_of_ne hWho, hTwin.engine_eq, h.engine_eq w]
    · rw [counts_update hAlone, hStep, Journal.counts_append, h.counts_eq]

/-- Between two steps of its own a party sees nothing of what the others do. -/
theorem Divided.run {s : SharedSession κ Archive} (h : s.Divided own)
    (steps : List (κ × Client × Command)) :
    ∃ final : κ → Session Archive,
      (∀ who, (own who).run (partOf who steps) = (partOf who (s.run steps).1, final who)) ∧
        (s.run steps).2.Divided final := by
  induction steps generalizing s own with
  | nil => exact ⟨own, fun _ => rfl, h⟩
  | cons step rest ih =>
    obtain ⟨who, c, command⟩ := step
    obtain ⟨hAnswer, hAfter⟩ := h.perform who c command
    obtain ⟨final, hRuns, hFinal⟩ := ih hAfter
    refine ⟨final, fun w => ?_, hFinal⟩
    change _ = (partOf w ((who, (s.perform who c command).1) ::
      ((s.perform who c command).2.run rest).1), final w)
    have hRest := hRuns w
    by_cases hWho : w = who
    · subst hWho
      rw [Function.update_self] at hRest
      rw [partOf_cons_self, partOf_cons_self, hAnswer, Session.run_cons, hRest]
    · rw [Function.update_of_ne hWho] at hRest
      rw [partOf_cons_of_ne hWho, partOf_cons_of_ne hWho, hRest]

/-- Parties that share an engine do not disturb each other, in whatever order they take turns. -/
theorem parties_undisturbed (a : Archive) (steps : List (κ × Client × Command)) :
    let shared := (start a : SharedSession κ Archive).run steps
    let alone := fun who => (Session.start a).run (partOf who steps)
    (∀ who, partOf who shared.1 = (alone who).1) ∧
      shared.2.session.journal.counts = ∑ who, (alone who).2.journal.counts := by
  obtain ⟨final, hRuns, hFinal⟩ := (divided_start a).run steps
  refine ⟨fun who => (congrArg Prod.fst (hRuns who)).symm, hFinal.counts_eq.trans ?_⟩
  exact Finset.sum_congr rfl fun who _ =>
    congrArg (fun r => r.2.journal.counts) (hRuns who).symm

end

end SharedSession

end FieldExtract
