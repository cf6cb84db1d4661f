import FieldExtract.Proofs.PackedBits
import FieldExtract.Result.Basic

/-!
# Decoding undoes encoding

The two buffers of a result are blocks laid end to end, one for each range: samples in the one,
words that hold as many bits in the other. A result over such buffers reads every block back,
whatever has been read before, and what pads the words is never seen.
-/

namespace FieldExtract

theorem length_pieces {α : Type} (ns : List Nat) (xs : List α) :
    (pieces ns xs).length = ns.length := by
  induction ns generalizing xs with
  | nil => rfl
  | cons n ns ih => rw [pieces, List.length_cons, ih, List.length_cons]

theorem pieces_flatMap {α β : Type} (f : β → List α) (bs : List β) :
    pieces (bs.map fun b => (f b).length) (bs.flatMap f) = bs.map f := by
  induction bs with
  | nil => rfl
  | cons b bs ih =>
    rw [List.map_cons, List.flatMap_cons, pieces, List.take_left, List.drop_left, ih, List.map_cons]

namespace Buffer

variable {α : Type} {expected : Nat} {b : Buffer α} {xs : List α}

/-- The buffer holds these elements, or holds nothing and will always load them. -/
def Serves (b : Buffer α) (xs : List α) : Prop :=
  b.loaded = some xs ∨ b.loaded = none ∧ ∀ n, b.loader.reply n = .ok xs

theorem serves_constant (xs : List α) : Serves ⟨Loader.constant xs, none⟩ xs :=
  .inr ⟨rfl, fun _ => rfl⟩

theorem Serves.fetch_eq (h : b.Serves xs) (kind : BufferKind) (hLength : expected = xs.length) :
    b.fetch kind expected = ⟨.ok xs, b, []⟩ ∨
      b.fetch kind expected = ⟨.ok xs, ⟨b.loader.load.2, some xs⟩, [.loaded kind]⟩ := by
  rcases h with hLoaded | ⟨hEmpty, hReply⟩
  · exact .inl (fetch_of_loaded hLoaded)
  · refine .inr ?_
    have hLoad : b.loader.load = (.ok xs, b.loader.load.2) := by rw [Loader.load, hReply]
    have hFault : lengthFault kind expected xs.length = none := if_pos hLength
    rw [fetch, hEmpty]
    simp only
    rw [hLoad]
    simp only [hFault]

theorem Serves.fetch_answer (h : b.Serves xs) (kind : BufferKind) (hLength : expected = xs.length) :
    (b.fetch kind expected).answer = .ok xs := by
  rcases h.fetch_eq kind hLength with hEq | hEq <;> rw [hEq]

theorem Serves.fetch_state (h : b.Serves xs) (kind : BufferKind) (hLength : expected = xs.length) :
    (b.fetch kind expected).state.Serves xs := by
  rcases h.fetch_eq kind hLength with hEq | hEq <;> rw [hEq]
  · exact h
  · exact .inl rfl

theorem Serves.fetch_journal (h : b.Serves xs) (kind : BufferKind)
    (hLength : expected = xs.length) (e : Event) :
    .reported e ∉ (b.fetch kind expected).journal := by
  rcases h.fetch_eq kind hLength with hEq | hEq <;> simp [hEq]

end Buffer

/-- One range in the two buffers: its samples, as many bits, and words that hold the bits. -/
structure Block where
  samples : List Sample
  bits : List Bool
  words : List UInt64
  length_eq : samples.length = bits.length
  encodes : BitMask.Encodes bits words

namespace Block

def size (b : Block) : Nat := b.samples.length

def shape (blocks : List Block) : Shape := ⟨blocks.map size⟩

def handle (blocks : List Block) : Handle :=
  Handle.ofBuffers (blocks.flatMap samples) (blocks.flatMap words)

theorem maskWords_shape (blocks : List Block) :
    (shape blocks).maskWords = blocks.map fun b => b.words.length := by
  rw [Shape.maskWords, shape, List.map_map]
  apply List.map_congr_left
  intro b _
  rw [Function.comp_apply, size, b.length_eq, b.encodes.length_eq]

theorem total_shape (blocks : List Block) :
    (shape blocks).total = (blocks.flatMap samples).length := by
  rw [List.length_flatMap]
  rfl

theorem totalMaskWords_shape (blocks : List Block) :
    (shape blocks).totalMaskWords = (blocks.flatMap words).length := by
  rw [Shape.totalMaskWords, maskWords_shape, List.length_flatMap, List.sum_eq_foldr]

theorem maskParts_shape (blocks : List Block) :
    Result.maskParts (shape blocks) (blocks.flatMap words) =
      blocks.map fun b => (b.words, b.bits.length) := by
  rw [Result.maskParts, maskWords_shape, pieces_flatMap, shape, List.zip_map']
  apply List.map_congr_left
  intro b _
  rw [size, b.length_eq]

end Block

namespace Result

theorem sum_lengths_maskParts (shape : Shape) (words : List UInt64) :
    ((maskParts shape words).map Prod.snd).foldr (· + ·) 0 = shape.total := by
  have hLength : (pieces shape.maskWords words).length = shape.lens.length := by
    rw [length_pieces, Shape.maskWords, List.length_map]
  rw [maskParts, List.map_snd_zip (Nat.le_of_eq hLength.symm), Shape.total]

/-- The bits read always add up to the shape, so the check made after reading cannot fail. -/
theorem boolMasks_eq (r : Result) :
    r.boolMasks = r.flatMasks.map (Except.map fun words =>
      (maskParts r.shape words).map fun p => BitMask.unpack p.1 p.2) := by
  unfold boolMasks Outcome.map
  dsimp only
  cases r.flatMasks.answer with
  | error e => rfl
  | ok words =>
    have hFault : lengthFault .mask r.shape.total
        (((maskParts r.shape words).map Prod.snd).foldr (· + ·) 0) = none :=
      if_pos (sum_lengths_maskParts r.shape words).symm
    simp only [hFault]
    rfl

/-- Whenever a buffer of the result is asked for, it is the one of these blocks. -/
structure Serves (r : Result) (blocks : List Block) : Prop where
  shape_eq : r.shape = Block.shape blocks
  values : r.values.Serves (blocks.flatMap Block.samples)
  mask : r.mask.Serves (blocks.flatMap Block.words)

/-- The result after some accesses. -/
def after (r : Result) (history : List Accessor) : Result :=
  history.foldl (fun r a => (r.access a).state) r

theorem serves_ofHandle (blocks : List Block) :
    (ofHandle (Block.handle blocks) (Block.shape blocks)).Serves blocks :=
  ⟨rfl, Buffer.serves_constant _, Buffer.serves_constant _⟩

theorem access_state (r : Result) (a : Accessor) :
    (r.access a).state = r.flatValues.state ∨ (r.access a).state = r.flatMasks.state := by
  cases a with
  | flatValues | rangeValues => exact .inl rfl
  | flatMasks | rangeMasks | countValid => exact .inr rfl
  | boolMasks =>
    right
    rw [access, boolMasks_eq]
    rfl

namespace Serves

variable {r : Result} {blocks : List Block}

theorem values_length (h : r.Serves blocks) :
    r.shape.total = (blocks.flatMap Block.samples).length := by
  rw [h.shape_eq, Block.total_shape]

theorem mask_length (h : r.Serves blocks) :
    r.shape.totalMaskWords = (blocks.flatMap Block.words).length := by
  rw [h.shape_eq, Block.totalMaskWords_shape]

theorem access (h : r.Serves blocks) (a : Accessor) : (r.access a).state.Serves blocks := by
  rcases r.access_state a with hState | hState <;> rw [hState]
  · exact ⟨h.shape_eq, h.values.fetch_state .values h.values_length, h.mask⟩
  · exact ⟨h.shape_eq, h.values, h.mask.fetch_state .mask h.mask_length⟩

theorem after (h : r.Serves blocks) (history : List Accessor) :
    (r.after history).Serves blocks := by
  induction history generalizing r with
  | nil => exact h
  | cons a history ih => exact ih (h.access a)

theorem flatValues_answer (h : r.Serves blocks) :
    r.flatValues.answer = .ok (blocks.flatMap Block.samples) :=
  h.values.fetch_answer .values h.values_length

theorem flatMasks_answer (h : r.Serves blocks) :
    r.flatMasks.answer = .ok (blocks.flatMap Block.words) :=
  h.mask.fetch_answer .mask h.mask_length

theorem rangeValues_answer (h : r.Serves blocks) :
    r.rangeValues.answer = .ok (blocks.map Block.samples) := by
  have hPieces := pieces_flatMap Block.samples blocks
  rw [rangeValues, Outcome.map_answer, h.flatValues_answer, h.shape_eq]
  exact congrArg Except.ok hPieces

theorem rangeMasks_answer (h : r.Serves blocks) :
    r.rangeMasks.answer = .ok (blocks.map Block.words) := by
  have hPieces := pieces_flatMap Block.words blocks
  rw [rangeMasks, Outcome.map_answer, h.flatMasks_answer, h.shape_eq, Block.maskWords_shape]
  exact congrArg Except.ok hPieces

theorem boolMasks_answer (h : r.Serves blocks) :
    r.boolMasks.answer = .ok (blocks.map Block.bits) := by
  rw [boolMasks_eq, Outcome.map_answer, h.flatMasks_answer, h.shape_eq, Except.map,
    Block.maskParts_shape, List.map_map]
  congr 1
  apply List.map_congr_left
  intro b _
  exact b.encodes.unpack_eq

theorem countValid_answer (h : r.Serves blocks) :
    r.countValid.answer = .ok (blocks.map fun b => b.bits.count true).sum := by
  rw [countValid, Outcome.map_answer, h.flatMasks_answer, h.shape_eq, Except.map,
    Block.maskParts_shape, List.map_map]
  congr 2
  apply List.map_congr_left
  intro b _
  exact b.encodes.countSet_eq

theorem boolMasks_journal (h : r.Serves blocks) (e : Event) :
    .reported e ∉ r.boolMasks.journal := by
  rw [boolMasks_eq]
  exact h.mask.fetch_journal .mask h.mask_length e

end Serves

/-- A result over the buffers of some blocks gives the blocks back, after any accesses; the pieces
laid end to end are the buffers again. -/
theorem reads_blocks (blocks : List Block) (history : List Accessor) :
    let r := (ofHandle (Block.handle blocks) (Block.shape blocks)).after history
    r.rangeValues.answer = .ok (blocks.map Block.samples) ∧
      r.rangeMasks.answer = .ok (blocks.map Block.words) ∧
      r.boolMasks.answer = .ok (blocks.map Block.bits) ∧
      r.countValid.answer = .ok (blocks.map fun b => b.bits.count true).sum ∧
      r.flatValues.answer = .ok (blocks.flatMap Block.samples) ∧
      r.flatMasks.answer = .ok (blocks.flatMap Block.words) ∧
      r.rangeValues.answer.map List.flatten = r.flatValues.answer ∧
      r.rangeMasks.answer.map List.flatten = r.flatMasks.answer ∧
      ∀ e, .reported e ∉ r.boolMasks.journal := by
  intro r
  have h : r.Serves blocks := (serves_ofHandle blocks).after history
  refine ⟨h.rangeValues_answer, h.rangeMasks_answer, h.boolMasks_answer, h.countValid_answer,
    h.flatValues_answer, h.flatMasks_answer, ?_, ?_, h.boolMasks_journal⟩
  · rw [h.rangeValues_answer, h.flatValues_answer]
    rfl
  · rw [h.rangeMasks_answer, h.flatMasks_answer]
    rfl

end Result

end FieldExtract
