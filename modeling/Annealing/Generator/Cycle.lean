/-
  Annealing.Generator.Cycle
  ─────────────────────────
  **A FIXED LIST OF WORDS, OVER AND OVER.**
-/
import Annealing.Draws

namespace Annealing

/-- A list of words and the position of the next one. -/
structure Cycle where
  /-- The words of one round. -/
  words : Array UInt64
  /-- The position of the next word. -/
  position : Nat
  deriving Repr, DecidableEq

namespace Cycle

/-- The list from its start. -/
def ofWords (words : Array UInt64) : Cycle := ⟨words, 0⟩

/-- An empty list yields zeros. -/
instance : Generator Cycle where
  next g := (g.words.getD g.position 0, { g with position := (g.position + 1) % g.words.size })

end Cycle

end Annealing
