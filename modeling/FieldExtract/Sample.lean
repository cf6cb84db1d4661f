/-!
# Samples of a field

A sample is a binary floating-point number of 64 bits, kept as its bits so that samples can be
told apart exactly. The values that are no number mark missing points.
-/

namespace FieldExtract

structure Sample where
  bits : UInt64
deriving DecidableEq

namespace Sample

/-- No number: all exponent bits are set, and some bit of the fraction. -/
def isMissing (s : Sample) : Bool :=
  s.bits &&& 0x7fffffffffffffff > 0x7ff0000000000000

def missing : Sample := ⟨0x7ff8000000000000⟩

def ofFloat (x : Float) : Sample := ⟨x.toBits⟩

def toFloat (s : Sample) : Float := Float.ofBits s.bits

def ofInt (n : Int) : Sample := ofFloat (Float.ofInt n)

end Sample

/-- The positions that hold a number. -/
def validity (samples : List Sample) : List Bool := samples.map fun s => !s.isMissing

end FieldExtract
