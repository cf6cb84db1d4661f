import FieldExtract.Noise.Keystream
import FieldExtract.Result.Basic

/-!
# Seeded fields

Fields of reproducible noise between -50 and 50 in which a chosen share of the points is missing,
masks, and results made from such a field without an engine.
-/

namespace FieldExtract.Noise

/-- A draw as a number in `[0, 1)`, from its upper 53 bits. -/
def unit (draw : UInt64) : Float := (draw >>> 11).toFloat / 9007199254740992.0

/-- Each point takes one draw that decides whether it is missing, and one more if it is not. -/
def samples (missing : Float) : Nat → Keystream → List Sample
  | 0, _ => []
  | n + 1, k =>
    let (first, k) := k.next
    if unit first < missing then Sample.missing :: samples missing n k
    else
      let (second, k) := k.next
      Sample.ofFloat (unit second * 100.0 - 50.0) :: samples missing n k

def field (seed : UInt64) (len : Nat) (missing : Float) : List Sample :=
  samples missing len (Keystream.ofSeed seed)

def fieldMask (seed : UInt64) (len : Nat) (missing : Float) : List Bool :=
  validity (field seed len missing)

/-- Runs of set and unset positions in turn, all of one width. -/
def stripes (len width : Nat) : List Bool :=
  (List.range len).map fun i => (i / max width 1) % 2 == 0

/-- The result of taking the ranges from a field with a fifth of its points missing. -/
def packedResult (seed : UInt64) (len : Nat) (ranges : Selection) : Result :=
  let noise := field seed len 0.2
  let slices := ranges.map fun r => (noise.drop r.lo).take r.len
  Result.ofHandle
    (Handle.ofBuffers slices.flatten (slices.flatMap fun s => BitMask.pack (validity s)))
    ranges.shape

end FieldExtract.Noise
