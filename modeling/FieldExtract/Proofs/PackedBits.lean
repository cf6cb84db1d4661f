import FieldExtract.BitMask
import Mathlib.Algebra.GroupWithZero.Nat

/-!
# Bits and the words that hold them

A block of words encodes a list of bits if it has just the words that are needed and its lowest
bits, read word by word, are the given ones. The bits that pad the last word are left open. Reading
a block bit by bit and counting its set bits word by word both see the encoded bits alone.
-/

namespace FieldExtract.BitMask

structure Encodes (bits : List Bool) (block : List UInt64) : Prop where
  length_eq : block.length = wordCount bits.length
  bit : ∀ p (h : p < bits.length), ∃ w, block[p / 64]? = some w ∧ w.toNat.testBit (p % 64) = bits[p]

theorem Encodes.get_eq {bits : List Bool} {block : List UInt64} (hBlock : Encodes bits block)
    {p : Nat} (h : p < bits.length) : get block p = bits[p] := by
  obtain ⟨w, hWord, hBit⟩ := hBlock.bit p h
  simp only [get, hWord, hBit]

theorem Encodes.unpack_eq {bits : List Bool} {block : List UInt64} (hBlock : Encodes bits block) :
    unpack block bits.length = bits := by
  apply List.ext_getElem (length_unpack block bits.length)
  intro p _ h
  simp only [unpack, List.getElem_map, List.getElem_range]
  exact hBlock.get_eq h

theorem get_word (words : List UInt64) (i : Nat) {j : Nat} (hj : j < 64) :
    get words (64 * i + j) =
      match words[i]? with
      | some w => w.toNat.testBit j
      | none => false := by
  have hDiv : (64 * i + j) / 64 = i := by omega
  have hMod : (64 * i + j) % 64 = j := by omega
  have hGet : get words (64 * i + j) =
      match words[(64 * i + j) / 64]? with
      | some w => w.toNat.testBit ((64 * i + j) % 64)
      | none => false := rfl
  rw [hGet, hDiv, hMod]

theorem countP_range_add (p : Nat → Bool) (a b : Nat) :
    (List.range (a + b)).countP p =
      (List.range a).countP p + (List.range b).countP fun j => p (a + j) := by
  rw [List.range_add, List.countP_append, List.countP_map]
  rfl

/-- The set bits among the lowest ones of the word at a position, which may be past the end. -/
theorem countP_get_word (words : List UInt64) (i : Nat) {width : Nat} (hWidth : width ≤ 64) :
    ((List.range width).countP fun j => get words (64 * i + j)) =
      match words[i]? with
      | some w => countWord width w
      | none => 0 := by
  have hBits : ∀ j ∈ List.range width, (get words (64 * i + j) = true ↔
      (match words[i]? with
        | some w => w.toNat.testBit j
        | none => false) = true) := by
    intro j hj
    rw [get_word words i (Nat.lt_of_lt_of_le (List.mem_range.mp hj) hWidth)]
  rw [List.countP_congr hBits]
  cases words[i]? with
  | none => exact List.countP_false ▸ rfl
  | some w => rfl

theorem countP_get_whole (words : List UInt64) (n : Nat) :
    (List.range (64 * n)).countP (get words) = ((words.take n).map (countWord 64)).sum := by
  induction n with
  | zero => simp
  | succ n ih =>
    rw [Nat.mul_succ, countP_range_add, ih, countP_get_word words n (Nat.le_refl 64),
      List.take_add_one, List.map_append, List.sum_append]
    cases words[n]? <;> simp

/-- Counting word by word agrees with reading bit by bit, for any words and any length. -/
theorem countSet_eq_count (words : List UInt64) (len : Nat) :
    countSet words len = (unpack words len).count true := by
  have hRest : len % 64 ≤ 64 := Nat.le_of_lt (Nat.mod_lt _ (by decide))
  calc
    countSet words len =
        (List.range (64 * (len / 64))).countP (get words) +
          (List.range (len % 64)).countP fun j => get words (64 * (len / 64) + j) := by
      rw [countP_get_whole, countP_get_word words (len / 64) hRest]
      rfl
    _ = (List.range len).countP (get words) := by
      rw [← countP_range_add, Nat.div_add_mod]
    _ = (unpack words len).count true := by
      rw [unpack, List.count, List.countP_map]
      exact List.countP_congr (by simp)

theorem Encodes.countSet_eq {bits : List Bool} {block : List UInt64} (hBlock : Encodes bits block) :
    countSet block bits.length = bits.count true := by
  rw [countSet_eq_count, hBlock.unpack_eq]

/-- The five bits above the first three are set as well, and neither reading sees them. -/
example : unpack [0xfd] 3 = [true, false, true] ∧ countSet [0xfd] 3 = 2 := by decide

theorem get_cons (w : UInt64) (words : List UInt64) (p : Nat) :
    get (w :: words) p = if p < 64 then w.toNat.testBit p else get words (p - 64) := by
  by_cases hp : p < 64
  · rw [if_pos hp, get, Nat.div_eq_of_lt hp, Nat.mod_eq_of_lt hp]
    rfl
  · have hLe := Nat.le_of_not_lt hp
    rw [if_neg hp, get, get, Nat.div_eq_sub_div (by decide) hLe, Nat.mod_eq_sub_mod hLe,
      List.getElem?_cons_succ]

/-- Words that are just as many as the bits need encode the bits that are read from them. -/
theorem encodes_of_get {bits : List Bool} {block : List UInt64}
    (hLength : block.length = wordCount bits.length)
    (hBits : ∀ p (h : p < bits.length), get block p = bits[p]) : Encodes bits block where
  length_eq := hLength
  bit p h := by
    have hWord : p / 64 < block.length := by
      rw [hLength, wordCount]
      omega
    have hBit := hBits p h
    rw [get, List.getElem?_eq_getElem hWord] at hBit
    exact ⟨_, List.getElem?_eq_getElem hWord, hBit⟩

theorem length_pack (bits : List Bool) : (pack bits).length = wordCount bits.length := by
  induction bits using pack.induct with
  | case1 bits hEmpty =>
    rw [List.isEmpty_iff.mp hEmpty, pack]
    rfl
  | case2 bits hEmpty ih =>
    have hPos : 0 < bits.length := List.length_pos_iff.mpr (by simpa using hEmpty)
    rw [pack, if_neg hEmpty, List.length_cons, ih, List.length_drop, wordCount, wordCount]
    omega

/-- The packed words hold the bits and, wherever else they are read, nothing. -/
theorem get_pack (bits : List Bool) (p : Nat) : get (pack bits) p = bits.getD p false := by
  induction bits using pack.induct generalizing p with
  | case1 bits hEmpty =>
    rw [List.isEmpty_iff.mp hEmpty, pack]
    rfl
  | case2 bits hEmpty ih =>
    rw [pack, if_neg hEmpty, get_cons, List.getD_eq_getElem?_getD]
    split
    · next hp =>
      -- The word is the number of the first bits modulo `2 ^ 64`, which keeps the bits below 64.
      rw [UInt64.toNat_ofNat', Nat.testBit_mod_two_pow, testBit_ofBits,
        List.getD_eq_getElem?_getD, List.getElem?_take_of_lt hp, decide_eq_true hp, Bool.true_and]
    · next hp =>
      rw [ih, List.getD_eq_getElem?_getD, List.getElem?_drop,
        Nat.add_sub_cancel' (Nat.le_of_not_lt hp)]

theorem encodes_pack (bits : List Bool) : Encodes bits (pack bits) :=
  encodes_of_get (length_pack bits) fun p h => by
    rw [get_pack, List.getD_eq_getElem?_getD, List.getElem?_eq_getElem h, Option.getD_some]

end FieldExtract.BitMask
