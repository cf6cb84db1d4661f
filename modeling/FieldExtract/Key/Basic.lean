import FieldExtract.OrderedMap

/-!
# Keys

A key selects fields by name and value. A selector with several values stands for one field per
value, so a key expands into every choice of one value for each selector, the last selector
varying fastest.
-/

namespace FieldExtract

inductive Selector
  | single (value : String)
  | multi (values : List String)
deriving DecidableEq

namespace Selector

def values : Selector → List String
  | .single v => [v]
  | .multi vs => vs

def cardinality (s : Selector) : Nat := s.values.length

def isMulti : Selector → Bool
  | .single _ => false
  | .multi _ => true

def text (s : Selector) : String := "/".intercalate s.values

end Selector

structure Key where
  selectors : OrderedMap String Selector
deriving DecidableEq

namespace Key

def ofList (pairs : List (String × Selector)) : Key := ⟨OrderedMap.ofList pairs⟩

def select (k : Key) (name : String) (selector : Selector) : Key :=
  ⟨k.selectors.insert name selector⟩

def empty : Key := ⟨OrderedMap.empty⟩

def pairs (k : Key) : List (String × Selector) := k.selectors.entries

def get? (k : Key) (name : String) : Option Selector := k.selectors.get? name

def size (k : Key) : Nat := k.selectors.size

def isMultiValued (k : Key) : Bool := k.pairs.any fun p => p.2.isMulti

def cardinality (k : Key) : Nat := (k.pairs.map fun p => p.2.cardinality).foldr (· * ·) 1

/-- Equality up to the order of the selectors. -/
def same (a b : Key) : Bool := a.selectors.same b.selectors

/-- Every choice of one value for each selector. -/
def choices : List (String × Selector) → List (List (String × Selector))
  | [] => [[]]
  | (name, selector) :: rest =>
    let tails := choices rest
    selector.values.flatMap fun v => tails.map ((name, .single v) :: ·)

def expand (k : Key) : List Key := (choices k.pairs).map ofList

theorem length_choices (pairs : List (String × Selector)) :
    (choices pairs).length = (pairs.map fun p => p.2.cardinality).foldr (· * ·) 1 := by
  induction pairs with
  | nil => rfl
  | cons p rest ih =>
    simp only [choices, List.length_flatMap, List.length_map, List.map_const',
      List.sum_replicate_nat, List.map_cons, List.foldr_cons, Selector.cardinality, ih]

end Key

end FieldExtract
