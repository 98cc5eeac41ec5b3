/-
  Annealing.Scalar
  ────────────────
  **THE ARITHMETIC A SEARCH IS WRITTEN OVER.**

  Costs, temperatures and probabilities are scalars.  A search only ever adds,
  subtracts, multiplies, divides, compares, and takes `exp`, `log` and `pow`, so
  every definition of the annealer is stated for any type with these
  operations.  Running programs use `Float` (binary64); arguments about exact
  arithmetic use another instance.  No law is asked for here: `Float` has few.
-/
namespace Annealing

/-! ## §1. The operations -/

/-- What a type of costs and temperatures provides.  Comparison is decidable but
need not be total: with `Float`, every comparison with NaN is false. -/
class Scalar (α : Type) extends
    Zero α, One α, Add α, Sub α, Mul α, Div α, Neg α, LT α, LE α, OfScientific α where
  /-- Whether one scalar is below another can be tested. -/
  decidableLT : DecidableLT α
  /-- Whether one scalar is at most another can be tested. -/
  decidableLE : DecidableLE α
  /-- The scalar nearest to a count. -/
  ofCount : UInt64 → α
  /-- The exponential function. -/
  exp : α → α
  /-- The natural logarithm. -/
  log : α → α
  /-- The first scalar raised to the second. -/
  pow : α → α → α
  /-- Is this the result of an operation without a value? -/
  isNaN : α → Bool
  /-- Is this neither NaN nor infinite? -/
  isFinite : α → Bool

attribute [reducible, instance] Scalar.decidableLT Scalar.decidableLE

/-- Binary64 arithmetic. -/
instance : Scalar Float where
  decidableLT := inferInstance
  decidableLE := inferInstance
  ofCount := UInt64.toFloat
  exp := Float.exp
  log := Float.log
  pow := Float.pow
  isNaN := Float.isNaN
  isFinite := Float.isFinite

/-! ## §2. Uniform scalars from random words -/

/-- The scalar in `[0, 1)` that a random word stands for: its upper 53 bits,
counted in steps of `2⁻⁵³`. -/
def Scalar.uniform {α : Type} [Scalar α] (word : UInt64) : α :=
  Scalar.ofCount (word >>> 11) / Scalar.ofCount 9007199254740992

end Annealing
