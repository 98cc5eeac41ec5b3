/-
  Annealing.Generator.SplitMix
  ────────────────────────────
  **A GENERATOR WITH ONE WORD OF STATE.**

  The state advances by a fixed odd constant; each word is the state after two
  rounds of xor-shift and multiplication.
-/
import Annealing.Draws

namespace Annealing

/-- The state of the generator. -/
structure SplitMix where
  /-- The last point of the sequence of states. -/
  state : UInt64
  deriving Repr, DecidableEq

namespace SplitMix

/-- What is made of a state. -/
def mix (z : UInt64) : UInt64 :=
  let z := (z ^^^ (z >>> 30)) * 0xbf58476d1ce4e5b9
  let z := (z ^^^ (z >>> 27)) * 0x94d049bb133111eb
  z ^^^ (z >>> 31)

instance : Generator SplitMix where
  next g :=
    let state := g.state + 0x9e3779b97f4a7c15
    (mix state, ⟨state⟩)

end SplitMix

end Annealing
