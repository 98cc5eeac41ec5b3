/-
  Annealing.Generator.Counted
  ───────────────────────────
  **A GENERATOR THAT COUNTS ITS WORDS.**
-/
import Annealing.Draws

namespace Annealing

/-- A generator and the number of words taken from it. -/
structure Counted (γ : Type) where
  /-- The generator. -/
  source : γ
  /-- How many words it has yielded. -/
  drawn : Nat
  deriving Repr, DecidableEq

namespace Counted

/-- Nothing drawn yet. -/
def start {γ : Type} (source : γ) : Counted γ := ⟨source, 0⟩

instance {γ : Type} [Generator γ] : Generator (Counted γ) where
  next g :=
    let (w, source) := Generator.next g.source
    (w, ⟨source, g.drawn + 1⟩)

end Counted

end Annealing
