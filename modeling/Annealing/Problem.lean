/-
  Annealing.Problem
  ─────────────────
  **WHAT A SEARCH SEARCHES IN.**

  A search knows nothing of candidates and moves.  It asks its problem for one
  proposal per iteration and hands the move back if it is accepted.  A problem
  may keep a memory of its own, draw words while it chooses, ask searches to
  stop, and fail; none of this is undone when a move is refused.
-/
import Annealing.Draws
import Annealing.Flags

namespace Annealing

/-! ## §1. Proposals and replies -/

/-- A move, and by how much it would change the cost.  A negative change is an
improvement. -/
structure Proposal (α μ : Type) where
  /-- What to hand back if the move is accepted. -/
  move : μ
  /-- The cost after the move minus the cost before it. -/
  delta : α
  deriving Repr, BEq

/-- What a problem leaves behind when it is asked something. -/
structure Reply (π β : Type) where
  /-- The problem's memory afterwards. -/
  memory : π
  /-- The handles it has raised the flags of. -/
  fired : List AbortHandle
  /-- The answer, or the reason why there is none. -/
  result : Except String β

/-! ## §2. Problems -/

/-- **A problem** with memory `π`, candidates `σ`, moves `μ` and costs `α`. -/
structure Problem (α π σ μ : Type) where
  /-- Propose a move away from a candidate, at an iteration. -/
  choose : π → σ → UInt64 → Draws (Reply π (Proposal α μ))
  /-- The candidate after a move. -/
  apply : π → σ → μ → Reply π σ

/-- The problem made of two functions.  It draws no words: functions that need
random words keep a generator in their memory. -/
def Problem.ofFunctions {α π σ μ : Type}
    (choose : π → σ → UInt64 → Reply π (Proposal α μ))
    (apply : π → σ → μ → Reply π σ) : Problem α π σ μ where
  choose memory state iteration := .done (choose memory state iteration)
  apply := apply

end Annealing
