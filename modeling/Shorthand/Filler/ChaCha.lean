import Shorthand.Filler.Source

/-! The seeded random source: the ChaCha stream with twelve rounds. A block mixes
four constants, eight key words, a 64-bit block counter and two zeros into sixteen
words, which are handed out in order. The key comes from the seed by a linear
congruential generator with permuted output. -/
namespace Shorthand.Filler

structure ChaCha where
  key : Vector UInt32 8
  counter : UInt64 := 0
  /-- Words of the last block that are not handed out yet. -/
  pending : List UInt32 := []

namespace ChaCha

abbrev Block := Vector UInt32 16

def rotateLeft (x n : UInt32) : UInt32 := (x <<< n) ||| (x >>> (32 - n))

def quarterRound (a b c d : Fin 16) (x : Block) : Block :=
  let x := x.set a (x[a] + x[b])
  let x := x.set d (rotateLeft (x[d] ^^^ x[a]) 16)
  let x := x.set c (x[c] + x[d])
  let x := x.set b (rotateLeft (x[b] ^^^ x[c]) 12)
  let x := x.set a (x[a] + x[b])
  let x := x.set d (rotateLeft (x[d] ^^^ x[a]) 8)
  let x := x.set c (x[c] + x[d])
  x.set b (rotateLeft (x[b] ^^^ x[c]) 7)

/-- A round on the columns and a round on the diagonals. -/
def doubleRound (x : Block) : Block :=
  let x := quarterRound 0 4 8 12 x
  let x := quarterRound 1 5 9 13 x
  let x := quarterRound 2 6 10 14 x
  let x := quarterRound 3 7 11 15 x
  let x := quarterRound 0 5 10 15 x
  let x := quarterRound 1 6 11 12 x
  let x := quarterRound 2 7 8 13 x
  quarterRound 3 4 9 14 x

def start (key : Vector UInt32 8) (counter : UInt64) : Block :=
  #v[0x61707865, 0x3320646e, 0x79622d32, 0x6b206574,
     key[0], key[1], key[2], key[3], key[4], key[5], key[6], key[7],
     counter.toUInt32, (counter >>> 32).toUInt32, 0, 0]

def block (key : Vector UInt32 8) (counter : UInt64) : Block :=
  let before := start key counter
  Vector.zipWith (· + ·) (Nat.repeat doubleRound 6 before) before

def next (source : ChaCha) : UInt32 × ChaCha :=
  match source.pending with
  | word :: pending => (word, { source with pending })
  | [] =>
    let words := block source.key source.counter
    (words[0], { source with counter := source.counter + 1, pending := words.toList.tail })

/-- Two words make a long one, the low half first. -/
def next64 (source : ChaCha) : UInt64 × ChaCha :=
  let (low, source) := source.next
  let (high, source) := source.next
  ((high.toUInt64 <<< 32) ||| low.toUInt64, source)

instance : Stream ChaCha where
  word64 := next64
  word32 := next

def advance (state : UInt64) : UInt64 := state * 6364136223846793005 + 11634580027462260723

/-- The output of a generator state: its high bits, rotated by its highest. -/
def permute (state : UInt64) : UInt32 :=
  let word := (((state >>> 18) ^^^ state) >>> 27).toUInt32
  let turn := (state >>> 59).toUInt32
  (word >>> turn) ||| (word <<< (32 - turn))

def ofSeed (seed : UInt64) : ChaCha :=
  { key := Vector.ofFn fun i => permute (Nat.repeat advance (i.val + 1) seed) }

end ChaCha

end Shorthand.Filler
