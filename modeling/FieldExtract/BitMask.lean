/-!
# Bits packed into words

Bit `p` of a mask is bit `p % 64` of word `p / 64`, the least significant first. Bits behind the
last word count as unset, and the bits that pad the last word are written as zero and never read.
-/

namespace FieldExtract.BitMask

def wordCount (len : Nat) : Nat := (len + 63) / 64

def get (words : List UInt64) (p : Nat) : Bool :=
  match words[p / 64]? with
  | some w => w.toNat.testBit (p % 64)
  | none => false

def unpack (words : List UInt64) (len : Nat) : List Bool :=
  (List.range len).map (get words)

/-- The number whose binary digits are the given bits, the first being the lowest. -/
def ofBits : List Bool → Nat
  | [] => 0
  | b :: bs => b.toNat + 2 * ofBits bs

def pack (bits : List Bool) : List UInt64 :=
  if bits.isEmpty then []
  else UInt64.ofNat (ofBits (bits.take 64)) :: pack (bits.drop 64)
termination_by bits.length
decreasing_by
  have : bits ≠ [] := by simpa using ‹¬bits.isEmpty = true›
  have := List.length_pos_iff.mpr this
  rw [List.length_drop]
  omega

/-- How many of the lowest `width` bits of a word are set. -/
def countWord (width : Nat) (w : UInt64) : Nat :=
  (List.range width).countP fun i => w.toNat.testBit i

/-- Whole words are counted first, then the part of the word in which the length ends. -/
def countSet (words : List UInt64) (len : Nat) : Nat :=
  ((words.take (len / 64)).map (countWord 64)).foldr (· + ·) 0 +
    match words[len / 64]? with
    | some w => countWord (len % 64) w
    | none => 0

theorem length_unpack (words : List UInt64) (len : Nat) : (unpack words len).length = len := by
  simp [unpack]

theorem testBit_ofBits (bits : List Bool) (i : Nat) :
    (ofBits bits).testBit i = bits.getD i false := by
  induction bits generalizing i with
  | nil => simp [ofBits]
  | cons b bs ih =>
    cases i with
    | zero => cases b <;> simp [ofBits, Nat.testBit_zero, Nat.add_mul_mod_self_left]
    | succ i =>
      rw [Nat.testBit_succ]
      have hHalf : ofBits (b :: bs) / 2 = ofBits bs := by
        cases b <;> simp only [ofBits, Bool.toNat_false, Bool.toNat_true] <;> omega
      rw [hHalf, ih]
      simp

end FieldExtract.BitMask
