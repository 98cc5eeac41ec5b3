/-
  Annealing.Schedule
  ──────────────────
  **COOLING SCHEDULES.**

  A schedule gives the temperature at an iteration of a search that plans a
  number of iterations, the budget.  The two built-in schedules start at 1 and
  reach the final temperature, 1/100, when the iteration equals the budget; they
  look at the quotient of the two alone.  Any other rule is a custom schedule.
-/
import Annealing.Scalar

namespace Annealing

/-! ## §1. The built-in rules -/

section
variable {α : Type} [Scalar α]

/-- Temperature of the built-in schedules when the budget is spent. -/
def finalTemperature : α := 0.01

/-- **Linear cooling**: falls by the same amount at each iteration, and on below
zero once the budget is well past. -/
def linearTemperature (iteration budget : α) : α :=
  1 - (1 - finalTemperature) * (iteration / budget)

/-- **Exponential cooling**: falls by the same factor at each iteration. -/
def exponentialTemperature (iteration budget : α) : α :=
  Scalar.pow finalTemperature (iteration / budget)

end

/-! ## §2. Schedules -/

/-- How the temperature depends on the iteration and the budget. -/
inductive Schedule (α : Type) where
  /-- Cooling by `exponentialTemperature`. -/
  | exponential
  /-- Cooling by `linearTemperature`. -/
  | linear
  /-- Any other function of the iteration and the budget, in this order. -/
  | custom (rule : α → α → α)

namespace Schedule

variable {α : Type}

/-- A schedule that is not chosen is exponential. -/
instance : Inhabited (Schedule α) := ⟨.exponential⟩

/-- The temperature at an iteration, out of a budget. -/
def temperature [Scalar α] : Schedule α → α → α → α
  | .exponential => exponentialTemperature
  | .linear => linearTemperature
  | .custom rule => rule

/-- The schedule's display text.  A custom rule has no text of its own. -/
def text : Schedule α → String
  | .exponential => "Exponential"
  | .linear => "Linear"
  | .custom _ => "Custom(..)"

/-- Is this one of the two schedules that have a name? -/
def isBuiltIn : Schedule α → Bool
  | .custom _ => false
  | _ => true

end Schedule

end Annealing
