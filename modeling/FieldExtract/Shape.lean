import FieldExtract.BitMask

/-!
# Shapes of results

The length of each requested range. It fixes how many samples and how many mask words answer the
request, and where the flat buffers are cut.
-/

namespace FieldExtract

structure Shape where
  lens : List Nat
deriving DecidableEq

namespace Shape

def size (s : Shape) : Nat := s.lens.length

def isEmpty (s : Shape) : Bool := s.lens.isEmpty

def total (s : Shape) : Nat := s.lens.foldr (· + ·) 0

def maskWords (s : Shape) : List Nat := s.lens.map BitMask.wordCount

def totalMaskWords (s : Shape) : Nat := s.maskWords.foldr (· + ·) 0

end Shape

/-- The consecutive pieces of a list, of the given lengths. -/
def pieces {α : Type} : List Nat → List α → List (List α)
  | [], _ => []
  | n :: ns, xs => xs.take n :: pieces ns (xs.drop n)

theorem flatten_pieces {α : Type} {ns : List Nat} {xs : List α}
    (h : xs.length = ns.foldr (· + ·) 0) : (pieces ns xs).flatten = xs := by
  induction ns generalizing xs with
  | nil => simpa [pieces] using (List.length_eq_zero_iff.mp (by simpa using h)).symm
  | cons n ns ih =>
    rw [pieces, List.flatten_cons, ih, List.take_append_drop]
    rw [List.foldr_cons] at h
    rw [List.length_drop]
    omega

end FieldExtract
