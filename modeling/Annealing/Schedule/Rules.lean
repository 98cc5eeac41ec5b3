/-
  Annealing.Schedule.Rules
  ────────────────────────
  **READY-MADE CUSTOM RULES.**

  Constant, stepwise, reciprocal and tabulated cooling, and the rules that
  return the iteration, the budget or the share of the budget that remains.
-/
import Annealing.Schedule

namespace Annealing.Schedule

section
variable {α : Type} [Scalar α]

/-- The same temperature throughout. -/
def constant (value : α) : Schedule α :=
  .custom fun _ _ => value

/-- One temperature until the given share of the budget is spent, another from then
on. -/
def stepwise (share before after : α) : Schedule α :=
  .custom fun iteration budget => if iteration < budget * share then before else after

/-- The reciprocal of a line that starts at 1 and has slope `rate`. -/
def reciprocal (rate : α) : Schedule α :=
  .custom fun iteration _ => 1 / (1 + rate * iteration)

/-- The iteration itself. -/
def iterationItself : Schedule α :=
  .custom fun iteration _ => iteration

/-- The budget itself. -/
def budgetItself : Schedule α :=
  .custom fun _ budget => budget

/-- The share of the budget that is left. -/
def remaining : Schedule α :=
  .custom fun iteration budget => (budget - iteration) / budget

end

/-- One temperature for each iteration; the last one stays.  A negative or
undefined iteration counts as the first. -/
def table (values : Array Float) : Schedule Float :=
  .custom fun iteration _ =>
    values.getD (min iteration.toUInt64.toNat (values.size - 1)) 0

end Annealing.Schedule
