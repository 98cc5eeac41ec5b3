/-
  Annealing.Problem.Sorting
  ─────────────────────────
  **SORTING A PERMUTATION BY SWAPS.**

  The cost is the number of entries that differ from their position; a move swaps
  two positions.
-/
import Annealing.Problem

namespace Annealing.Sorting

/-- Is `entry` misplaced at position `i`? -/
def misplaced (i : Nat) (entry : Int) : Int :=
  if entry = i then 0 else 1

/-- The cost change of swapping two positions. -/
def delta (p : Array Int) (i j : Nat) : Int :=
  misplaced i (p.getD j 0) + misplaced j (p.getD i 0)
    - misplaced i (p.getD i 0) - misplaced j (p.getD j 0)

/-- Two random positions, which may be equal. -/
def problem : Problem Float Unit (Array Int) (Nat × Nat) where
  choose _ p _ := .draw fun v => .draw fun w =>
    let i := v.toNat % p.size
    let j := w.toNat % p.size
    .done ⟨(), [], .ok ⟨(i, j), Float.ofInt (delta p i j)⟩⟩
  apply _ p move := ⟨(), [], .ok (p.swapIfInBounds move.1 move.2)⟩

end Annealing.Sorting
