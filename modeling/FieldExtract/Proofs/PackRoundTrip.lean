import FieldExtract.Proofs.MaskRuns
import FieldExtract.Proofs.PackedBits

/-!
# Packing and unpacking

As many words as are needed and the bits that can be read from them determine the words. So there is
one way to pack bits with nothing behind them, whether word by word or by switching on one set bit
after another, and words that are unpacked and packed again come back just if they were such words
for that length. Unpacking itself may be asked for more bits than the words hold, or for fewer.
-/

namespace FieldExtract.BitMask

variable {words other : List UInt64} {bits : List Bool} {len p q : Nat}

theorem wordCount_le_iff {len n : Nat} : wordCount len ≤ n ↔ len ≤ 64 * n := by
  unfold wordCount
  omega

theorem eq_of_get (hLength : words.length = other.length)
    (hBits : ∀ p, get words p = get other p) : words = other := by
  apply List.ext_getElem hLength
  intro i hi hi'
  rw [← UInt64.toNat_inj]
  apply Nat.eq_of_testBit_eq
  intro j
  by_cases hj : j < 64
  · have hBit := hBits (64 * i + j)
    rw [get_word words i hj, get_word other i hj, List.getElem?_eq_getElem hi,
      List.getElem?_eq_getElem hi'] at hBit
    exact hBit
  · -- No word has a bit there.
    have hNone : ∀ w : UInt64, w.toNat.testBit j = false := fun w =>
      Nat.testBit_lt_two_pow (Nat.lt_of_lt_of_le w.toNat_lt
        (Nat.pow_le_pow_right (by decide) (Nat.le_of_not_lt hj)))
    rw [hNone, hNone]

theorem getElem?_unpack (words : List UInt64) (h : p < len) :
    (unpack words len)[p]? = some (get words p) := by
  rw [unpack, List.getElem?_map, List.getElem?_range h]
  rfl

theorem getD_unpack (words : List UInt64) (len p : Nat) :
    (unpack words len).getD p false = if p < len then get words p else false := by
  rw [List.getD_eq_getElem?_getD]
  split
  · next h => rw [getElem?_unpack words h, Option.getD_some]
  · next h =>
    rw [List.getElem?_eq_none (by rw [length_unpack]; exact Nat.le_of_not_lt h), Option.getD_none]

/-- The words encode the bits, and no bit behind these is set. -/
structure Packs (bits : List Bool) (words : List UInt64) : Prop extends Encodes bits words where
  clear : ∀ p ≥ bits.length, get words p = false

theorem Packs.get_eq_getD (h : Packs bits words) (p : Nat) : get words p = bits.getD p false := by
  rw [List.getD_eq_getElem?_getD]
  rcases Nat.lt_or_ge p bits.length with hp | hp
  · rw [h.get_eq hp, List.getElem?_eq_getElem hp, Option.getD_some]
  · rw [h.clear p hp, List.getElem?_eq_none hp, Option.getD_none]

theorem packs_pack (bits : List Bool) : Packs bits (pack bits) where
  toEncodes := encodes_pack bits
  clear p hp := by
    rw [get_pack, List.getD_eq_getElem?_getD, List.getElem?_eq_none hp, Option.getD_none]

theorem packs_iff_eq_pack : Packs bits words ↔ words = pack bits := by
  constructor
  · intro h
    apply eq_of_get (h.length_eq.trans (length_pack bits).symm)
    intro p
    rw [h.get_eq_getD, get_pack]
  · rintro rfl
    exact packs_pack bits

theorem packs_unpack_iff :
    Packs (unpack words len) words ↔
      words.length = wordCount len ∧ ∀ p ≥ len, get words p = false := by
  have hLength := length_unpack words len
  constructor
  · intro h
    exact ⟨hLength ▸ h.length_eq, hLength ▸ h.clear⟩
  · rintro ⟨hWords, hClear⟩
    refine ⟨encodes_of_get (hLength.symm ▸ hWords) fun p hp => ?_, hLength.symm ▸ hClear⟩
    have hBit := getElem?_unpack words (hLength ▸ hp : p < len)
    rw [List.getElem?_eq_getElem hp] at hBit
    exact (Option.some.inj hBit).symm

/-- The words with one bit switched on. -/
def setBit (words : List UInt64) (p : Nat) : List UInt64 :=
  words.modify (p / 64) fun w => w ||| 1 <<< UInt64.ofNat (p % 64)

theorem testBit_or_shift (w : UInt64) {i j : Nat} (hi : i < 64) (hj : j < 64) :
    (w ||| 1 <<< UInt64.ofNat i).toNat.testBit j = (w.toNat.testBit j || decide (j = i)) := by
  have hShift : (UInt64.ofNat i).toNat % 64 = i := by
    rw [UInt64.toNat_ofNat']
    omega
  rw [UInt64.toNat_or, Nat.testBit_or, UInt64.toNat_shiftLeft, hShift, UInt64.toNat_one,
    Nat.one_shiftLeft, Nat.testBit_mod_two_pow, Nat.testBit_two_pow]
  simp [hj, eq_comm]

theorem get_setBit (h : p / 64 < words.length) :
    get (setBit words p) q = (get words q || decide (q = p)) := by
  have hp : p % 64 < 64 := Nat.mod_lt p (by decide)
  have hq : q % 64 < 64 := Nat.mod_lt q (by decide)
  unfold get setBit
  rw [List.getElem?_modify]
  by_cases hWord : p / 64 = q / 64
  · have hSame : q % 64 = p % 64 ↔ q = p := by omega
    rw [← hWord, List.getElem?_eq_getElem h]
    simp only [Option.map_eq_map, Option.map_some, if_true, testBit_or_shift _ hp hq, hSame]
  · have hOther : q ≠ p := by
      rintro rfl
      exact hWord rfl
    simp [hWord, hOther]

theorem length_foldl_setBit (words : List UInt64) (positions : List Nat) :
    (positions.foldl setBit words).length = words.length := by
  induction positions generalizing words with
  | nil => rfl
  | cons p rest ih => rw [List.foldl_cons, ih, setBit, List.length_modify]

/-- By induction on the positions, whatever bits are set before them. -/
theorem get_foldl_setBit {positions : List Nat} (h : ∀ p ∈ positions, p / 64 < words.length) :
    get (positions.foldl setBit words) q = (get words q || decide (q ∈ positions)) := by
  induction positions generalizing words with
  | nil => simp
  | cons p rest ih =>
    obtain ⟨hHead, hRest⟩ := List.forall_mem_cons.mp h
    have hLength : (setBit words p).length = words.length := List.length_modify _ _ _
    rw [List.foldl_cons, ih fun q hq => hLength.symm ▸ hRest q hq, get_setBit hHead]
    simp [Bool.or_assoc]

theorem get_replicate_zero (n p : Nat) : get (List.replicate n 0) p = false := by
  rw [get, List.getElem?_replicate]
  by_cases h : p / 64 < n
  · rw [if_pos h]
    exact Nat.zero_testBit _
  · rw [if_neg h]

/-- The same words come of switching on the set bits one by one. -/
theorem pack_eq_foldl (bits : List Bool) :
    pack bits = (setPositions bits).foldl setBit (List.replicate (wordCount bits.length) 0) := by
  apply eq_of_get
  · rw [length_pack, length_foldl_setBit, List.length_replicate]
  · intro p
    have hWithin : ∀ q ∈ setPositions bits,
        q / 64 < (List.replicate (wordCount bits.length) (0 : UInt64)).length := by
      intro q hq
      have := lt_of_mem_setPositions hq
      rw [List.length_replicate, wordCount]
      omega
    rw [get_pack, get_foldl_setBit hWithin, get_replicate_zero, Bool.false_or,
      List.getD_eq_getElem?_getD, Bool.eq_iff_iff, decide_eq_true_iff, mem_setPositions_iff]
    cases bits[p]? <;> simp

/-- As many bits, each the one at its place in its word, and unset where there is no word left. -/
structure Expands (words : List UInt64) (len : Nat) (bits : List Bool) : Prop where
  length_eq : bits.length = len
  inside : ∀ p w, p < len → words[p / 64]? = some w → bits[p]? = some (w.toNat.testBit (p % 64))
  past : ∀ p, p < len → words.length ≤ p / 64 → bits[p]? = some false

theorem expands_unpack (words : List UInt64) (len : Nat) :
    Expands words len (unpack words len) where
  length_eq := length_unpack words len
  inside p w hp hWord := by rw [getElem?_unpack words hp, get, hWord]
  past p hp hEnd := by rw [getElem?_unpack words hp, get, List.getElem?_eq_none hEnd]

/-- Packed bits take as few words as hold them, with nothing behind them, and no other words do.
Bits can be unpacked from any words, and the set ones counted, however far the words reach; packed
again they are the words cut off or filled up with unset bits. -/
theorem pack_round_trip :
    (∀ len n, wordCount len ≤ n ↔ len ≤ 64 * n) ∧
    (∀ bits : List Bool,
      (pack bits).length = wordCount bits.length ∧
      (∀ words, Packs bits words ↔ words = pack bits) ∧
      unpack (pack bits) bits.length = bits ∧
      pack bits = (setPositions bits).foldl setBit (List.replicate (wordCount bits.length) 0)) ∧
    ∀ (words : List UInt64) (len : Nat),
      Expands words len (unpack words len) ∧
      countSet words len = (unpack words len).count true ∧
      (∀ p, get (pack (unpack words len)) p = if p < len then get words p else false) ∧
      (pack (unpack words len) = words ↔
        words.length = wordCount len ∧ ∀ p ≥ len, get words p = false) := by
  refine ⟨fun _ _ => wordCount_le_iff, fun bits => ⟨length_pack bits, fun _ => packs_iff_eq_pack,
    (encodes_pack bits).unpack_eq, pack_eq_foldl bits⟩, fun words len => ⟨expands_unpack words len,
    countSet_eq_count words len, fun p => ?_, ?_⟩⟩
  · rw [get_pack, getD_unpack]
  · rw [eq_comm, ← packs_iff_eq_pack, packs_unpack_iff]

end FieldExtract.BitMask
