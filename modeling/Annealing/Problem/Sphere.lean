/-
  Annealing.Problem.Sphere
  ────────────────────────
  **A POINT THAT SEEKS THE ORIGIN.**

  The cost of a point is the square of its distance from the origin; a move
  shifts one coordinate by at most one half.
-/
import Annealing.Problem
import Annealing.Scalar

namespace Annealing.Sphere

/-- A random coordinate and a random shift. -/
def problem : Problem Float Unit (Array Float) (Nat × Float) where
  choose _ x _ := .draw fun v => .draw fun w =>
    let i := v.toNat % x.size
    let shift := Scalar.uniform w - 0.5
    let before := x.getD i 0
    let after := before + shift
    .done ⟨(), [], .ok ⟨(i, shift), after * after - before * before⟩⟩
  apply _ x move := ⟨(), [], .ok (x.modify move.1 (· + move.2))⟩

end Annealing.Sphere
