import FieldExtract.Noise.Field
import FieldExtract.Proofs.LastWrite
import FieldExtract.Proofs.ValidBounds

/-!
# Results made without an engine

A result packed from a seeded field is the one that an archive of that field hands out for the same
ranges. Both cut the field at the ranges and pack the validity of each on its own, and the shape of
a request is that of its ranges, so neither the order of the ranges nor an overlap can part the two.
-/

namespace FieldExtract

namespace Noise

/-- By induction on the points, for whatever is left of the stream. -/
theorem length_samples (missing : Float) (n : Nat) (k : Keystream) :
    (samples missing n k).length = n := by
  induction n generalizing k with
  | zero => rfl
  | succ n ih =>
    rw [samples]
    dsimp only
    split
    · rw [List.length_cons, ih]
    · rw [List.length_cons, ih]

theorem length_field (seed : UInt64) (len : Nat) (missing : Float) :
    (field seed len missing).length = len :=
  length_samples missing len _

theorem packedResult_eq (seed : UInt64) (len : Nat) (ranges : Selection) :
    packedResult seed len ranges =
      Result.ofHandle (Block.handle (ranges.blocks (field seed len 0.2))) ranges.shape := by
  have hSamples := Selection.flatten_slices (field seed len 0.2) ranges
  have hWords := Selection.flatMap_pack_slices (field seed len 0.2) ranges
  unfold Range.slice at hSamples hWords
  simp only [packedResult, hSamples, hWords]
  rfl

end Noise

namespace Result

/-- The result reads as these ranges of the samples, and its mask is packed range by range. -/
structure Decodes (r : Result) (samples : List Sample) (ranges : Selection) : Prop
    extends r.ReadsAs samples ranges where
  words : ∀ history, (r.after history).flatMasks.answer =
    .ok (ranges.flatMap fun range => BitMask.pack (validity (range.slice samples)))

theorem decodes_ofHandle {samples : List Sample} {ranges : Selection}
    (h : ∀ r ∈ ranges, r.hi ≤ samples.length) :
    (ofHandle (Block.handle (ranges.blocks samples)) ranges.shape).Decodes samples ranges where
  toReadsAs := readsAs_ofHandle h
  words history := by
    rw [(serves_blocks h history).flatMasks_answer, ← Selection.flatMap_pack_slices,
      List.flatMap_map]

end Result

theorem Archive.find_addField (a : Archive) {key : Key} (h : key.Single) (samples : List Sample)
    (gridHash : Option String) :
    (a.addField key samples gridHash).find (keyTarget key) = .ok (samples, gridHash) := by
  apply find_of_stored
  rw [keyTarget, stored, addField, Key.expand_eq_self_iff.mpr h, List.map_singleton,
    OrderedMap.insertMany_cons, OrderedMap.insertMany, List.foldl_nil, OrderedMap.get?_insert,
    if_pos rfl]
  rfl

namespace Client

variable {a : Archive}

/-- Ranges that are validated on the way make the same extraction as a request that has them. -/
theorem extractFromRanges_bounds (c : Client) (r : KeyRequest) (hHash : r.gridHash = none)
    (context : Option Context) :
    c.extractFromRanges [r.target] r.ranges.bounds none context a = c.extract [r] context a := by
  have hRanges := Selection.validate_bounds_of_le r.nonempty r.total_le
  have hRequests : ([r.target].mapM fun key => Request.ofSelection key r.ranges none) = .ok [r] :=
    mapM_of_ok (g := fun _ => r) fun key hKey =>
      Request.ofSelection_eq_ok_iff.mpr ⟨(List.mem_singleton.mp hKey).symm, rfl, hHash⟩
  rw [extractFromRanges, hRanges, extractMany, hRequests]

/-- A request without a grid hash has one answer, from the samples that are found for it. -/
theorem extract_unhashed {samples : List Sample} {gridHash : Option String} (c : Client)
    (r : KeyRequest) (hHash : r.gridHash = none) (context : Option Context)
    (hFaults : a.faults = ⟨none, none, 0⟩)
    (hFind : a.find (Archive.keyTarget r.target) = .ok (samples, gridHash))
    (hInside : ∀ range ∈ r.ranges, range.hi ≤ samples.length) :
    ∃ it, (c.extract [r] context a).answer = .ok it ∧
      it.item 0 =
        some (.ok (Result.ofHandle (Block.handle (r.ranges.blocks samples)) r.ranges.shape)) ∧
      ∀ n > 0, it.item n = none := by
  let sent := c.sentRequest r
  -- Whether or not the client withholds hashes, there is none to send.
  have hSentHash : sent.gridHash = none := by
    change c.sentHash r.gridHash = none
    rw [hHash, sentHash, ite_self]
  have hStored := Archive.stored_of_find hFind
  have hSound : a.defectOf Archive.keyTarget sent = none := by
    rw [Archive.defectOf, hSentHash]
    exact Archive.defect_eq_none_iff.mpr ⟨samples, gridHash, hStored, rfl, hInside⟩
  have hAll : ∀ q ∈ [sent], a.defectOf Archive.keyTarget q = none := by simpa using hSound
  have hAnswer := extract_answer c context (by rw [hFaults]) (List.cons_ne_nil r [])
  have hFirst : [sent][0]? = some sent := rfl
  obtain ⟨found, actual, hFound, _, hItem⟩ :=
    Archive.item_of_sound .extract hFaults hFirst hAll
  cases hStored.symm.trans hFound
  have hAnswers : a.Answers Archive.keyTarget [sent] _ :=
    Archive.answers_of_no_fault [sent] .extract hFaults
  exact ⟨_, hAnswer, hItem, hAnswers.complete hAll⟩

/-- Whoever archives a seeded field and asks for ranges of it without a grid hash is handed the
result that is packed from the seed, and that result decodes to the ranges of the field. -/
theorem extract_seeded (seed : UInt64) (len : Nat) (key : Key) (ranges : Selection)
    (hKey : key.Single) (hSome : ranges ≠ []) (hFits : ranges.total ≤ maxPosition)
    (hInside : ∀ range ∈ ranges, range.hi ≤ len) :
    let noise := Noise.field seed len 0.2
    let packed := Noise.packedResult seed len ranges
    packed.Decodes noise ranges ∧
      (∀ (a : Archive) (gridHash : Option String),
        (a.addField key noise gridHash).find (Archive.keyTarget key) = .ok (noise, gridHash)) ∧
      ∃ request, Request.ofPairs key ranges.bounds none = .ok request ∧
        ∀ (c : Client) (a : Archive) (gridHash : Option String) (context : Option Context),
          a.faults = ⟨none, none, 0⟩ →
          a.find (Archive.keyTarget key) = .ok (noise, gridHash) →
          c.extractFromRanges [key] ranges.bounds none context a =
              c.extract [request] context a ∧
            ∃ it, (c.extract [request] context a).answer = .ok it ∧
              it.item 0 = some (.ok packed) ∧ ∀ n > 0, it.item n = none := by
  intro noise packed
  have hPacked : packed = Result.ofHandle (Block.handle (ranges.blocks noise)) ranges.shape :=
    Noise.packedResult_eq seed len ranges
  have hWithin : ∀ range ∈ ranges, range.hi ≤ noise.length := fun range hr => by
    rw [Noise.length_field]
    exact hInside range hr
  have hRanges : Selection.validate ranges.bounds = .ok ranges :=
    Selection.validate_bounds_of_le hSome hFits
  let request : KeyRequest := ⟨key, ranges, none, hSome, hFits⟩
  refine ⟨hPacked ▸ Result.decodes_ofHandle hWithin,
    fun a gridHash => a.find_addField hKey noise gridHash,
    request, Request.ofPairs_eq_ok_iff.mpr ⟨hRanges, rfl, rfl⟩, ?_⟩
  intro c a gridHash context hFaults hFind
  rw [hPacked]
  exact ⟨c.extractFromRanges_bounds request rfl context,
    c.extract_unhashed request rfl context hFaults hFind hWithin⟩

/-- Of a field of seventy points, a range over a seam of words and one that overlaps it. -/
theorem extract_seeded_of_overlap :
    let key := Key.ofList [("param", .single "t"), ("step", .single "6")]
    let ranges : Selection := [⟨60, 70, by decide⟩, ⟨0, 65, by decide⟩]
    let noise := Noise.field 7 70 0.2
    let a := Archive.empty.addField key noise (some "g")
    let c := Client.new ⟨"user", "host"⟩
    key.Single ∧ ranges ≠ [] ∧ ranges.total ≤ maxPosition ∧ (∀ range ∈ ranges, range.hi ≤ 70) ∧
      a.faults = ⟨none, none, 0⟩ ∧
      a.find (Archive.keyTarget key) = .ok (noise, some "g") ∧
      ∃ request, Request.ofPairs key ranges.bounds none = .ok request ∧
        ∃ it, (c.extract [request] none a).answer = .ok it ∧
          it.item 0 = some (.ok (Noise.packedResult 7 70 ranges)) := by
  intro key ranges noise a c
  have hKey : key.Single := by decide
  have hSome : ranges ≠ [] := by decide
  have hFits : ranges.total ≤ maxPosition := by decide
  have hInside : ∀ range ∈ ranges, range.hi ≤ 70 := by decide
  obtain ⟨_, hArchived, request, hRequest, hExtract⟩ :=
    extract_seeded 7 70 key ranges hKey hSome hFits hInside
  have hFind := hArchived Archive.empty (some "g")
  obtain ⟨_, it, hAnswer, hItem, _⟩ := hExtract c a (some "g") none rfl hFind
  exact ⟨hKey, hSome, hFits, hInside, rfl, hFind, request, hRequest, it, hAnswer, hItem⟩

end Client

end FieldExtract
