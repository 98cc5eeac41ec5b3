/-
  Annealing.Generator.ChaCha
  ──────────────────────────
  **THE STANDARD GENERATOR: ChaCha WITH TWELVE ROUNDS.**

  The key stream of the ChaCha cipher under a key expanded from a 64-bit seed.
  Block `n` mixes the constants, the key and the counter `n`, and adds the
  unmixed words back.  A 64-bit word is two successive stream words, the low half
  first; a block of sixteen stream words yields eight.
-/
import Annealing.Draws

namespace Annealing

/-- A position in the key stream. -/
structure ChaCha where
  /-- The eight words of the key. -/
  key : Vector UInt32 8
  /-- The number of the next block. -/
  counter : UInt64
  /-- The 64-bit words of the current block that are not yet drawn. -/
  pending : List UInt64
  deriving Repr, DecidableEq

namespace ChaCha

/-! ## §1. The block function -/

/-- The sixteen words that a block is mixed in. -/
abbrev Block := Vector UInt32 16

/-- The word `x` turned left by `n` bits. -/
def rotateLeft (x n : UInt32) : UInt32 :=
  (x <<< n) ||| (x >>> (32 - n))

/-- One round on four words of the block. -/
def quarterRound (b : Block) (i j k l : Fin 16) : Block :=
  let b := b.set i (b[i] + b[j])
  let b := b.set l (rotateLeft (b[l] ^^^ b[i]) 16)
  let b := b.set k (b[k] + b[l])
  let b := b.set j (rotateLeft (b[j] ^^^ b[k]) 12)
  let b := b.set i (b[i] + b[j])
  let b := b.set l (rotateLeft (b[l] ^^^ b[i]) 8)
  let b := b.set k (b[k] + b[l])
  b.set j (rotateLeft (b[j] ^^^ b[k]) 7)

/-- A round on the columns of the four-by-four block, then one on its diagonals. -/
def doubleRound (b : Block) : Block :=
  let b := quarterRound b 0 4 8 12
  let b := quarterRound b 1 5 9 13
  let b := quarterRound b 2 6 10 14
  let b := quarterRound b 3 7 11 15
  let b := quarterRound b 0 5 10 15
  let b := quarterRound b 1 6 11 12
  let b := quarterRound b 2 7 8 13
  quarterRound b 3 4 9 14

/-- The unmixed block: constants, key, counter, and two zero words. -/
def unmixed (key : Vector UInt32 8) (counter : UInt64) : Block :=
  #v[0x61707865, 0x3320646e, 0x79622d32, 0x6b206574,
    key[0], key[1], key[2], key[3], key[4], key[5], key[6], key[7],
    counter.toUInt32, (counter >>> 32).toUInt32, 0, 0]

/-- A block of the key stream. -/
def block (key : Vector UInt32 8) (counter : UInt64) : Block :=
  let start := unmixed key counter
  let mixed := Nat.repeat doubleRound 6 start
  mixed.zipWith (· + ·) start

/-- Two words as one, the first as the low half. -/
def join (low high : UInt32) : UInt64 :=
  low.toUInt64 ||| (high.toUInt64 <<< 32)

/-- A list of words joined in pairs. -/
def pairs : List UInt32 → List UInt64
  | low :: high :: rest => join low high :: pairs rest
  | _ => []

/-! ## §2. The key from a seed -/

/-- One step of the sequence that a seed is expanded by. -/
def seedStep (s : UInt64) : UInt64 :=
  s * 6364136223846793005 + 11634580027462260723

/-- The key word for a point of that sequence: its upper half folded over and
turned right by its top five bits. -/
def keyWord (s : UInt64) : UInt32 :=
  let x := (((s >>> 18) ^^^ s) >>> 27).toUInt32
  let turn := (s >>> 59).toUInt32
  (x >>> turn) ||| (x <<< ((32 - turn) % 32))

/-- The start of the key stream for a seed. -/
def ofSeed (seed : UInt64) : ChaCha :=
  { key := Vector.ofFn fun i => keyWord (Nat.repeat seedStep (i.val + 1) seed)
    counter := 0
    pending := [] }

/-! ## §3. Drawing -/

instance : Generator ChaCha where
  next g :=
    match g.pending with
    | w :: rest => (w, { g with pending := rest })
    | [] =>
        let words := pairs (block g.key g.counter).toList
        (words.headD 0, { g with counter := g.counter + 1, pending := words.tail })

end ChaCha

end Annealing
