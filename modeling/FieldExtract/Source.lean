import FieldExtract.Result.Basic

/-!
# Sources of results

Each advance of a source is answered with a handle, the end, or a failure. A source may be advanced
again after an end or a failure and may then answer anything. It may also hand out handles for
ever; the answer of a bounded source at `bound` is no handle, so whoever stops at the first such
answer does stop.
-/

namespace FieldExtract

abbrev Reply := Except EngineError (Option Handle)

structure Source where
  reply : Nat → Reply

structure BoundedSource extends Source where
  bound : Nat
  ends : ∀ h, reply bound ≠ .ok (some h)

namespace Source

def handed : Reply → Bool
  | .ok (some _) => true
  | _ => false

end Source

/-- The given replies in turn, and the end from then on. -/
def BoundedSource.ofReplies (replies : List Reply) : BoundedSource where
  reply n := (replies[n]?).getD (.ok none)
  bound := replies.length
  ends h := by simp

/-- A source and how often it has been advanced. -/
structure Feed where
  source : Source
  advances : Nat

namespace Feed

def next (f : Feed) : Reply × Feed :=
  (f.source.reply f.advances, { f with advances := f.advances + 1 })

/-- The source hands out nothing at this position, and has not been advanced past it. -/
structure EndsBy (f : Feed) (bound : Nat) : Prop where
  advances_le : f.advances ≤ bound
  ends : ∀ h, f.source.reply bound ≠ .ok (some h)

theorem EndsBy.advances_lt {f : Feed} {bound : Nat} {h : Handle} (hEnds : f.EndsBy bound)
    (hReply : f.source.reply f.advances = .ok (some h)) : f.advances < bound := by
  rcases Nat.lt_or_eq_of_le hEnds.advances_le with hLt | hEq
  · exact hLt
  · exact absurd (hEq ▸ hReply) (hEnds.ends h)

end Feed

end FieldExtract
