/-
  Annealing.Proofs.Exact
  ──────────────────────
  **EXACT ARITHMETIC.**

  The real numbers as a scalar type: nothing is rounded, counts are themselves,
  and there is neither NaN nor infinity.  A quotient by zero is zero.
-/
import Mathlib
import Annealing.Scalar

namespace Annealing

noncomputable instance : Scalar ℝ where
  decidableLT := Classical.decRel _
  decidableLE := Classical.decRel _
  ofCount n := n.toNat
  exp := Real.exp
  log := Real.log
  pow := (· ^ ·)
  isNaN _ := false
  isFinite _ := true

end Annealing
