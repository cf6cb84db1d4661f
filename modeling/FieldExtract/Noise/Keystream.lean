/-!
# A seeded stream of words

The stream cipher ChaCha with eight rounds, keyed from a seed of 64 bits, as a source of
reproducible noise. The key words come from a permuted congruential generator that starts at the
seed. Blocks are numbered from zero; two words of a block, the lower half first, make one draw.
-/

namespace FieldExtract.Noise

abbrev Block := Vector UInt32 16

def rotateLeft (x n : UInt32) : UInt32 := (x <<< n) ||| (x >>> (32 - n))

def rotateRight (x n : UInt32) : UInt32 := (x >>> n) ||| (x <<< (32 - n))

def quarterRound (a b c d : Fin 16) (s : Block) : Block :=
  let s := s.set a (s[a] + s[b])
  let s := s.set d (rotateLeft (s[d] ^^^ s[a]) 16)
  let s := s.set c (s[c] + s[d])
  let s := s.set b (rotateLeft (s[b] ^^^ s[c]) 12)
  let s := s.set a (s[a] + s[b])
  let s := s.set d (rotateLeft (s[d] ^^^ s[a]) 8)
  let s := s.set c (s[c] + s[d])
  s.set b (rotateLeft (s[b] ^^^ s[c]) 7)

def columnRound (s : Block) : Block :=
  quarterRound 3 7 11 15 (quarterRound 2 6 10 14 (quarterRound 1 5 9 13 (quarterRound 0 4 8 12 s)))

def diagonalRound (s : Block) : Block :=
  quarterRound 3 4 9 14 (quarterRound 2 7 8 13 (quarterRound 1 6 11 12 (quarterRound 0 5 10 15 s)))

def rounds : Nat → Block → Block
  | 0, s => s
  | n + 1, s => rounds n (diagonalRound (columnRound s))

def seedState (state : UInt64) : UInt64 := state * 6364136223846793005 + 11634580027462260723

def seedWord (state : UInt64) : UInt32 :=
  rotateRight (((state >>> 18) ^^^ state) >>> 27).toUInt32 (state >>> 59).toUInt32

/-- The next `n` key words after a state of the generator. -/
def seedWords : Nat → UInt64 → List UInt32
  | 0, _ => []
  | n + 1, state => seedWord (seedState state) :: seedWords n (seedState state)

def constants : List UInt32 := [0x61707865, 0x3320646e, 0x79622d32, 0x6b206574]

def firstBlock (key : List UInt32) (counter : UInt64) : Block :=
  let words := constants ++ key ++ [counter.toUInt32, (counter >>> 32).toUInt32, 0, 0]
  Vector.ofFn fun i => words.getD i.val 0

def block (key : List UInt32) (counter : UInt64) : Block :=
  let start := firstBlock key counter
  Vector.zipWith (· + ·) (rounds 4 start) start

def draws : List UInt32 → List UInt64
  | low :: high :: rest => (low.toUInt64 ||| (high.toUInt64 <<< 32)) :: draws rest
  | _ => []

structure Keystream where
  key : List UInt32
  counter : UInt64
  pending : List UInt64

namespace Keystream

def ofSeed (seed : UInt64) : Keystream := ⟨seedWords 8 seed, 0, []⟩

def next (k : Keystream) : UInt64 × Keystream :=
  match k.pending with
  | w :: ws => (w, { k with pending := ws })
  | [] =>
    let ws := draws (block k.key k.counter).toList
    (ws.headD 0, { k with counter := k.counter + 1, pending := ws.tail })

end Keystream

end FieldExtract.Noise
