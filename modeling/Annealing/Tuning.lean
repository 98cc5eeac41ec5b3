/-
  Annealing.Tuning
  ────────────────
  **WHAT A CALLER SETS BEFORE A SEARCH.**

  The tuning says how a search should behave, not how far it has got: the budget
  the schedule divides by, the scale of the acceptance exponent, the schedule,
  and a seed.  Nothing is checked when a tuning is built or used.
-/
import Annealing.Schedule

namespace Annealing

/-- The tuning of a search. -/
structure Tuning (α : Type) where
  /-- About how many iterations are planned.  Running past it is allowed. -/
  budget : α
  /-- The factor on cost differences in the acceptance exponent.  Unless it is
  positive, the search estimates one from the first differences it meets. -/
  scale : α
  /-- The cooling schedule. -/
  schedule : Schedule α
  /-- Where the standard generator starts; without it, anywhere. -/
  seed : Option UInt64

namespace Tuning

variable {α : Type} [Scalar α]

/-- The budget of a tuning that sets none. -/
def defaultBudget : α := 10000.0

/-- Ten thousand iterations, exponential cooling, an estimated scale, no seed. -/
instance : Inhabited (Tuning α) :=
  ⟨{ budget := defaultBudget, scale := 0, schedule := default, seed := none }⟩

/-- The temperature at an iteration. -/
def temperature (t : Tuning α) (iteration : UInt64) : α :=
  t.schedule.temperature (Scalar.ofCount iteration) t.budget

/-- The share of the budget during which the scale is estimated. -/
def learningShare : α := 0.4

/-- Does the iteration fall in the first part of the budget, in which the scale
is estimated? -/
def inLearningWindow (t : Tuning α) (iteration : UInt64) : Bool :=
  Scalar.ofCount iteration ≤ learningShare * t.budget

/-- Is the scale given, rather than estimated? -/
def hasScale (t : Tuning α) : Bool :=
  0 < t.scale

end Tuning

end Annealing
