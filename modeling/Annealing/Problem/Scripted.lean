/-
  Annealing.Problem.Scripted
  ──────────────────────────
  **COST DIFFERENCES READ FROM A LIST.**

  Proposes the iteration number as the move and takes its cost difference from a
  list, whatever the candidate is.  The place in the list is the iteration, the
  size of the candidate or the number of the choice, and the list repeats.  An
  applied move leaves its trace in the candidate, unless the candidate is a point.
-/
import Annealing.Problem

namespace Annealing

/-! ## §1. Candidates that record moves -/

/-- A candidate that keeps some trace of the moves applied to it, or a point, which
keeps none. -/
inductive Record (α : Type) where
  /-- The iterations of all moves. -/
  | list (iterations : Array Int)
  /-- The number of moves, from any start. -/
  | number (n : Int)
  /-- A token for each move. -/
  | text (s : String)
  /-- The number of moves, and a digest of their iterations. -/
  | digest (count hash : UInt64)
  /-- Coordinates, which no move changes. -/
  | point (coordinates : Array α)
  deriving Repr, DecidableEq

namespace Record

variable {α : Type}

/-- The record's size as a word; a number counts modulo the size of words, so that
minus one is the greatest. -/
def size : Record α → UInt64
  | .list iterations => .ofNat iterations.size
  | .number n => .ofInt n
  | .text s => .ofNat s.length
  | .digest count _ => count
  | .point coordinates => .ofNat coordinates.size

/-- The record after the move of an iteration.  The digest is one linear
congruential step per move. -/
def add (tokens : Array String) (iteration : UInt64) : Record α → Record α
  | .list iterations => .list (iterations.push iteration.toNat)
  | .number n => .number (n + 1)
  | .text s => .text (s ++ tokens.getD (iteration.toNat % tokens.size) "")
  | .digest count hash => .digest (count + 1) (hash * 6364136223846793005 + iteration + 1)
  | .point coordinates => .point coordinates

end Record

/-! ## §2. The problem -/

/-- What the place in the list is. -/
inductive Basis where
  /-- The iteration. -/
  | iteration
  /-- The candidate's size. -/
  | size
  /-- The number of the choice. -/
  | call
  deriving Repr, DecidableEq

/-- A script. -/
structure Script (α : Type) where
  /-- The cost differences. -/
  deltas : Array α
  /-- The tokens for texts. -/
  tokens : Array String
  /-- What the place in the list is. -/
  basis : Basis
  deriving Repr

namespace Script

variable {α : Type} [Zero α]

/-- The cost difference at a place; an empty list has zeros. -/
def delta (s : Script α) (place : Nat) : α :=
  s.deltas.getD (place % s.deltas.size) 0

/-- The problem, at the choice numbered `call`. -/
def problem (call : Nat) : Problem α (Script α) (Record α) UInt64 where
  choose s state iteration :=
    let place :=
      match s.basis with
      | .iteration => iteration.toNat
      | .size => state.size.toNat
      | .call => call
    .done ⟨s, [], .ok ⟨iteration, s.delta place⟩⟩
  apply s state iteration := ⟨s, [], .ok (state.add s.tokens iteration)⟩

end Script

end Annealing
