import FieldExtract.OrderedMap
import FieldExtract.OrderedSet

/-!
# Axes

The selector names that can be reached from a key at one level, each with the values observed for
it. Names and values keep the order in which they are reported; a repeated name adds its values to
those it has, and a repeated value is kept once.
-/

namespace FieldExtract

structure Axes where
  level : Nat
  axes : OrderedMap String (OrderedSet String)

namespace Axes

def addPair (axes : OrderedMap String (OrderedSet String)) (pair : String × List String) :
    OrderedMap String (OrderedSet String) :=
  axes.insert pair.1 (((axes.get? pair.1).getD OrderedSet.empty).insertMany pair.2)

def ofPairs (level : Nat) (pairs : List (String × List String)) : Axes :=
  ⟨level, pairs.foldl addPair OrderedMap.empty⟩

def names (a : Axes) : List String := a.axes.names

def contains (a : Axes) (name : String) : Bool := a.axes.contains name

def get? (a : Axes) (name : String) : Option (List String) :=
  (a.axes.get? name).map OrderedSet.toList

def pairs (a : Axes) : List (String × List String) :=
  a.axes.entries.map fun e => (e.1, e.2.toList)

def size (a : Axes) : Nat := a.axes.size

/-- Equality up to the order of names and of values. -/
def same (a b : Axes) : Bool :=
  a.level == b.level && a.size == b.size &&
    a.axes.entries.all fun e =>
      match b.axes.get? e.1 with
      | some values => e.2.same values
      | none => false

end Axes

end FieldExtract
