/-
  Annealing.Problem.Walk
  ──────────────────────
  **A WALK ON THE INTEGERS TOWARD ZERO.**

  The cost of an integer is its absolute value, and a move is a step to a
  neighbour.
-/
import Annealing.Problem

namespace Annealing.Walk

/-- The cost change of a step. -/
def delta (x step : Int) : Float :=
  Float.ofInt (((x + step).natAbs : Int) - (x.natAbs : Int))

/-- Steps up on an odd word, down on an even one. -/
def problem : Problem Float Unit Int Int where
  choose _ x _ := .draw fun w =>
    let step := if w % 2 = 1 then 1 else -1
    .done ⟨(), [], .ok ⟨step, delta x step⟩⟩
  apply _ x step := ⟨(), [], .ok (x + step)⟩

/-- Steps up at even iterations, down at odd ones, and draws nothing. -/
def alternating : Problem Float Unit Int Int where
  choose _ x iteration :=
    let step := if iteration % 2 = 0 then 1 else -1
    .done ⟨(), [], .ok ⟨step, delta x step⟩⟩
  apply _ x step := ⟨(), [], .ok (x + step)⟩

end Annealing.Walk
