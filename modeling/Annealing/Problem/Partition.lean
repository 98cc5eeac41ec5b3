/-
  Annealing.Problem.Partition
  ───────────────────────────
  **SPLITTING WEIGHTS INTO TWO EQUAL HALVES.**

  A candidate gives each weight a sign; its cost is the absolute value of the
  signed sum.  A move turns one sign.
-/
import Annealing.Problem

namespace Annealing.Partition

/-- The signed sum of the weights. -/
def imbalance (weights signs : Array Int) : Int :=
  (Array.zipWith (· * ·) signs weights).foldl (· + ·) 0

/-- The cost change of turning one sign. -/
def delta (weights signs : Array Int) (i : Nat) : Int :=
  let sum := imbalance weights signs
  ((sum - 2 * signs.getD i 0 * weights.getD i 0).natAbs : Int) - (sum.natAbs : Int)

/-- A random sign.  The memory holds the weights. -/
def problem : Problem Float (Array Int) (Array Int) Nat where
  choose weights signs _ := .draw fun w =>
    let i := w.toNat % signs.size
    .done ⟨weights, [], .ok ⟨i, Float.ofInt (delta weights signs i)⟩⟩
  apply weights signs i := ⟨weights, [], .ok (signs.modify i (-·))⟩

end Annealing.Partition
