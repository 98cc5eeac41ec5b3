/-
  Annealing.ScaleEstimate
  ───────────────────────
  **THE SCALE LEARNED FROM COST DIFFERENCES.**

  A cost difference suggests the scale under which it would be accepted with a
  fixed probability at temperature 1.  The estimate is the running mean of these
  suggestions.
-/
import Annealing.Scalar

namespace Annealing

/-- The mean of the samples so far, and their number. -/
structure ScaleEstimate (α : Type) where
  /-- The estimated scale; zero before the first sample. -/
  mean : α
  /-- How many samples it is the mean of. -/
  samples : UInt64
  deriving Repr, DecidableEq

namespace ScaleEstimate

variable {α : Type} [Scalar α]

/-- No sample yet. -/
def empty : ScaleEstimate α := ⟨0, 0⟩

/-- The acceptance probability at temperature 1 that a sample aims for. -/
def targetAcceptance : α := 0.7

/-- The scale under which `delta` has the target probability at temperature 1:
the solution of `exp (-k * delta) = targetAcceptance`. -/
def sample (delta : α) : α :=
  -Scalar.log targetAcceptance / delta

/-- Take a cost difference into the mean. -/
def fold (e : ScaleEstimate α) (delta : α) : ScaleEstimate α :=
  let samples := e.samples + 1
  let weight := 1 / Scalar.ofCount samples
  ⟨sample delta * weight + e.mean * (1 - weight), samples⟩

end ScaleEstimate

end Annealing
