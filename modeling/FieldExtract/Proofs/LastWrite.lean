import FieldExtract.Proofs.KeyExpansion
import FieldExtract.Proofs.KeyExtraction

/-!
# The last write of a key

Samples archived under a key of several values are archived under each choice of its values. Under
a key of single values is then found what the last write left there whose choices hold that key, in
whatever order its selectors stand; without such a write nothing is found.
-/

namespace FieldExtract

namespace Key

variable {k one : Key}

theorem Cuttable.of_mem_expand (h : k.Cuttable) (hOne : one ∈ k.expand) : one.Cuttable := by
  have hPicked := picked_of_mem (mem_expand_iff.mp hOne)
  constructor
  · intro p hp
    obtain ⟨q, hq, hName, _⟩ := hPicked p hp
    rw [hName]
    exact h.names q hq
  · intro p hp v hv
    obtain ⟨q, hq, _, w, hw, hValue⟩ := hPicked p hp
    rw [hValue, Selector.values, List.mem_singleton] at hv
    rw [hv]
    exact h.values q hq w hw

end Key

namespace Archive

/-- One call that archives samples under a key. -/
structure Write where
  key : Key
  samples : List Sample
  gridHash : Option String

namespace Write

def content (w : Write) : List Sample × Option String := (w.samples, w.gridHash)

/-- What is archived, under its text, for each key that the written key stands for. -/
def entries (w : Write) : List (String × Field) :=
  w.key.expand.map fun one =>
    (one.canonical, ⟨one.selectors.mapValues Selector.text, w.samples, w.gridHash⟩)

/-- One of the keys that the written key stands for is the given one, up to order. -/
def reaches (w : Write) (k : Key) : Bool := w.key.expand.any fun one => one.same k

theorem mem_entries_iff_reaches {w : Write} {k : Key} (hWrite : w.key.Cuttable)
    (hKey : k.Cuttable) (hSingle : k.Single) :
    k.canonical ∈ w.entries.map Prod.fst ↔ w.reaches k = true := by
  have hSame : ∀ one ∈ w.key.expand, (one.canonical = k.canonical ↔ one.same k = true) :=
    fun one hOne => Key.canonical_eq_iff_same (hWrite.of_mem_expand hOne) hKey
      (Key.single_of_mem_expand hOne) hSingle
  rw [entries, List.map_map, List.mem_map, reaches, List.any_eq_true]
  constructor
  · rintro ⟨one, hOne, hText⟩
    exact ⟨one, hOne, (hSame one hOne).mp hText⟩
  · rintro ⟨one, hOne, hReached⟩
    exact ⟨one, hOne, (hSame one hOne).mpr hReached⟩

end Write

def write (a : Archive) (w : Write) : Archive := a.addField w.key w.samples w.gridHash

def writeAll (a : Archive) (ws : List Write) : Archive := ws.foldl write a

def lastWrite (ws : List Write) (k : Key) : Option Write := ws.reverse.find? fun w => w.reaches k

theorem lastWrite_cons (w : Write) (ws : List Write) (k : Key) :
    lastWrite (w :: ws) k = (lastWrite ws k).or (if w.reaches k then some w else none) := by
  rw [lastWrite, List.reverse_cons, List.find?_append, List.find?_singleton]
  rfl

section

variable {k : Key} (hKey : k.Cuttable) (hSingle : k.Single)
include hKey hSingle

theorem stored_write {a : Archive} {w : Write} (hWrite : w.key.Cuttable) :
    (a.write w).stored (keyTarget k) =
      if w.reaches k then some w.content else a.stored (keyTarget k) := by
  have hContents : ∀ e ∈ w.entries, (e.2.samples, e.2.gridHash) = w.content := by
    intro e he
    obtain ⟨one, _, rfl⟩ := List.mem_map.mp he
    rfl
  refine (OrderedMap.map_get?_insertMany hContents k.canonical).trans ?_
  exact if_congr (Write.mem_entries_iff_reaches hWrite hKey hSingle) rfl rfl

/-- By induction on the writes, whatever the archive held before them. -/
theorem stored_writeAll {a : Archive} {ws : List Write} (hWrites : ∀ w ∈ ws, w.key.Cuttable) :
    (a.writeAll ws).stored (keyTarget k) =
      ((lastWrite ws k).map Write.content).or (a.stored (keyTarget k)) := by
  induction ws generalizing a with
  | nil => rfl
  | cons w ws ih =>
    obtain ⟨hWrite, hRest⟩ := List.forall_mem_cons.mp hWrites
    have hStep : (a.writeAll (w :: ws)).stored (keyTarget k) =
        ((a.write w).writeAll ws).stored (keyTarget k) := rfl
    rw [hStep, ih hRest, stored_write hKey hSingle hWrite, lastWrite_cons]
    cases lastWrite ws k with
    | some later => rfl
    | none =>
      cases w.reaches k with
      | true => rfl
      | false => rfl

theorem stored_of_writes {a : Archive} {ws : List Write}
    (hFields : a.fields = (empty.writeAll ws).fields) (hWrites : ∀ w ∈ ws, w.key.Cuttable) :
    a.stored (keyTarget k) = (lastWrite ws k).map Write.content := by
  have hSame : a.stored (keyTarget k) = (empty.writeAll ws).stored (keyTarget k) := by
    rw [keyTarget, stored, stored, hFields]
  rw [hSame, stored_writeAll hKey hSingle hWrites]
  exact Option.or_none

end

end Archive

namespace ResultIterator

def FailsFirst (it : ResultIterator) (status : Status) : Prop :=
  ∃ e, it.item 0 = some (.error (.engine e)) ∧ e.status? = some status

/-- The first item is read from what a write left, if the grids agree and the ranges lie within
the samples. -/
structure ReadsWrite (it : ResultIterator) (ranges : Selection) (gridHash : Option String)
    (w : Archive.Write) : Prop where
  read : Archive.gridsDiffer gridHash w.gridHash = false →
    (∀ range ∈ ranges, range.hi ≤ w.samples.length) →
    ∃ result, it.item 0 = some (.ok result) ∧ result.ReadsAs w.samples ranges
  foreign : Archive.gridsDiffer gridHash w.gridHash = true → it.FailsFirst .gridHashMismatch
  short : Archive.gridsDiffer gridHash w.gridHash = false →
    (∃ range ∈ ranges, w.samples.length < range.hi) → it.FailsFirst .outOfRange

end ResultIterator

namespace Archive

variable {a : Archive} {r : KeyRequest} {it : ResultIterator}

theorem Answers.failsFirst {status : Status} (h : a.Answers keyTarget [r] it)
    (hDefect : a.defectOf keyTarget r = some status) : it.FailsFirst status := by
  obtain ⟨e, hItem, hStatus, _⟩ := h.refused 0 r status rfl (by simp) hDefect
  exact ⟨e, hItem, hStatus⟩

theorem Answers.failsFirst_of_not_stored (h : a.Answers keyTarget [r] it)
    (hStored : a.stored (keyTarget r.target) = none) : it.FailsFirst .notFound :=
  h.failsFirst (by rw [defectOf, defect, hStored])

theorem Answers.readsWrite {w : Write} (h : a.Answers keyTarget [r] it)
    (hStored : a.stored (keyTarget r.target) = some w.content) :
    it.ReadsWrite r.ranges r.gridHash w := by
  have hDefect : a.defectOf keyTarget r =
      if gridsDiffer r.gridHash w.gridHash then some .gridHashMismatch
      else if r.ranges.any fun range => decide (w.samples.length < range.hi) then some .outOfRange
      else none := by
    rw [defectOf, defect, hStored]
    rfl
  refine ⟨?_, ?_, ?_⟩
  · intro hGrid hRanges
    have hSound : a.defectOf keyTarget r = none :=
      defect_eq_none_iff.mpr ⟨w.samples, w.gridHash, hStored, hGrid, hRanges⟩
    obtain ⟨samples, gridHash, result, hFound, hItem, hReads⟩ :=
      h.served 0 r rfl (by simpa using hSound)
    cases hStored.symm.trans hFound
    exact ⟨result, hItem, hReads⟩
  · intro hGrid
    exact h.failsFirst (by rw [hDefect, if_pos hGrid])
  · intro hGrid hShort
    apply h.failsFirst
    rw [hDefect, if_neg (Bool.eq_false_iff.mp hGrid), if_pos (by simpa using hShort)]

end Archive

namespace Client

/-- Texts forget the order of selectors and nothing else, so whatever calls have filled an archive,
a key is answered from the last of them that reached it. -/
theorem extract_last_write :
    (∀ k l : Key, k.Cuttable → l.Cuttable → k.Single → l.Single →
      (k.canonical = l.canonical ↔ ∀ name, k.get? name = l.get? name)) ∧
    ∀ (c : Client) (a : Archive) (ws : List Archive.Write) (r : KeyRequest)
      (context : Option Context),
      a.fields = (Archive.empty.writeAll ws).fields → a.faults = ⟨none, none, 0⟩ →
      (∀ w ∈ ws, w.key.Cuttable) → r.target.Cuttable → r.target.Single →
      ∃ it, (c.extract [r] context a).answer = .ok it ∧
        (∀ w, Archive.lastWrite ws r.target = some w →
          a.find (Archive.keyTarget r.target) = .ok (w.samples, w.gridHash) ∧
          it.ReadsWrite r.ranges (c.sentHash r.gridHash) w) ∧
        (Archive.lastWrite ws r.target = none → it.FailsFirst .notFound) := by
  constructor
  · intro k l hk hl hkSingle hlSingle
    exact (Key.canonical_eq_iff_same hk hl hkSingle hlSingle).trans OrderedMap.same_iff_get?
  · intro c a ws r context hFields hFaults hWrites hKey hSingle
    have hStored := Archive.stored_of_writes hKey hSingle hFields hWrites
    have hAnswer := extract_answer c context (by rw [hFaults]) (List.cons_ne_nil r [])
    have hAnswers : a.Answers Archive.keyTarget [c.sentRequest r] _ :=
      Archive.answers_of_no_fault [c.sentRequest r] .extract hFaults
    refine ⟨_, hAnswer, ?_, ?_⟩
    · intro w hLast
      rw [hLast] at hStored
      exact ⟨Archive.find_of_stored hStored, hAnswers.readsWrite hStored⟩
    · intro hLast
      rw [hLast] at hStored
      exact hAnswers.failsFirst_of_not_stored hStored

/-- Two steps are archived at once, the second again with a grid; a third is not archived. -/
theorem extract_last_write_of_overwritten_step :
    let param : String × Selector := ("param", .single "t")
    let both : Archive.Write :=
      ⟨Key.ofList [param, ("step", .multi ["0", "6"])], [⟨0⟩, ⟨1⟩], none⟩
    let again : Archive.Write := ⟨Key.ofList [("step", .single "6"), param], [⟨2⟩], some "g"⟩
    let ws := [both, again]
    let a := Archive.empty.writeAll ws
    let c := Client.new ⟨"user", "host"⟩
    let ask (step : String) (hash : Option String) : KeyRequest :=
      ⟨Key.ofList [param, ("step", .single step)], [⟨0, 2, by decide⟩], hash, by decide, by decide⟩
    (∀ w ∈ ws, w.key.Cuttable) ∧
      (∀ step ∈ ["0", "6", "9"], (ask step none).target.Cuttable ∧ (ask step none).target.Single) ∧
      (ask "6" none).target.canonical = again.key.canonical ∧
      (∃ it, (c.extract [ask "0" (some "h")] none a).answer = .ok it ∧
        ∃ result, it.item 0 = some (.ok result) ∧
          result.ReadsAs [⟨0⟩, ⟨1⟩] [⟨0, 2, by decide⟩]) ∧
      (∃ it, (c.extract [ask "6" none] none a).answer = .ok it ∧
        it.toResultIterator.FailsFirst .outOfRange) ∧
      (∃ it, (c.extract [ask "6" (some "h")] none a).answer = .ok it ∧
        it.toResultIterator.FailsFirst .gridHashMismatch) ∧
      ∃ it, (c.extract [ask "9" none] none a).answer = .ok it ∧
        it.toResultIterator.FailsFirst .notFound := by
  intro param both again ws a c ask
  have hWrites : ∀ w ∈ ws, w.key.Cuttable := by decide
  have hTargets : ∀ step ∈ ["0", "6", "9"],
      (ask step none).target.Cuttable ∧ (ask step none).target.Single := by decide
  have hZero := hTargets "0" (by decide)
  have hSix := hTargets "6" (by decide)
  have hNine := hTargets "9" (by decide)
  have hText := extract_last_write.1 _ again.key hSix.1 (by decide) hSix.2 (by decide)
  refine ⟨hWrites, hTargets, hText.mpr (OrderedMap.same_iff_get?.mp (by decide)), ?_, ?_, ?_, ?_⟩
  · obtain ⟨it, hAnswer, hFound, _⟩ := extract_last_write.2 c a ws (ask "0" (some "h")) none rfl rfl
      hWrites hZero.1 hZero.2
    have hReads := (hFound both (by rfl)).2
    exact ⟨it, hAnswer, hReads.read rfl (by decide)⟩
  · obtain ⟨it, hAnswer, hFound, _⟩ := extract_last_write.2 c a ws (ask "6" none) none rfl rfl
      hWrites hSix.1 hSix.2
    have hReads := (hFound again (by rfl)).2
    exact ⟨it, hAnswer, hReads.short rfl (by decide)⟩
  · obtain ⟨it, hAnswer, hFound, _⟩ := extract_last_write.2 c a ws (ask "6" (some "h")) none rfl rfl
      hWrites hSix.1 hSix.2
    have hReads := (hFound again (by rfl)).2
    exact ⟨it, hAnswer, hReads.foreign (by decide)⟩
  · obtain ⟨it, hAnswer, _, hNone⟩ := extract_last_write.2 c a ws (ask "9" none) none rfl rfl
      hWrites hNine.1 hNine.2
    exact ⟨it, hAnswer, hNone (by rfl)⟩

end Client

end FieldExtract
