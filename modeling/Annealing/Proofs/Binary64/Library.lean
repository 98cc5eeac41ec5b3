/-
  Annealing.Proofs.Binary64.Library
  ─────────────────────────────────
  **SEARCHES IN BINARY64 ARITHMETIC, WHATEVER LIBRARY BRINGS `exp` AND `log`.**

  The four operations and comparisons of doubles are determined; `exp`, `log` and
  `pow` come from a library.  `Binary64 lib` is the scalar type made of both.  Of
  the library only special values are assumed: `exp` at NaN and at negative
  infinity, and the sign of the logarithm of 0.7.

    • `exponent_hasSign` — the exponent of an acceptance test is never positive,
    • `settle_of_sunk` — no chance is taken whose exponent is NaN or negative
      infinity,
    • `fold_hasSign`, `fold_isFinite` — what an estimate keeps of its past.
-/
import Annealing.Proofs.Binary64.Special
import Annealing.Proofs.Judgement

namespace Annealing

/-! ## §1. The scalar type -/

/-- The functions that a library of arithmetic brings along. -/
structure Library where
  /-- The exponential function. -/
  exp : Float → Float
  /-- The natural logarithm. -/
  log : Float → Float
  /-- The first argument raised to the second. -/
  pow : Float → Float → Float

/-- Special values of a library's functions. -/
structure Library.Lawful (lib : Library) : Prop where
  exp_nan : ∀ x : Float, x.isNaN = true → (lib.exp x).isNaN = true
  exp_bottom : ∀ x : Float, x.isFinite = false → x < 0 → lib.exp x = 0
  log_target : lib.log 0.7 < 0

/-- Doubles, with the functions of a library. -/
def Binary64 (_lib : Library) : Type := Float

instance (lib : Library) : Scalar (Binary64 lib) :=
  { (inferInstance : Scalar Float) with exp := lib.exp, log := lib.log, pow := lib.pow }

/-- The library of the running program. -/
def Library.native : Library := ⟨Float.exp, Float.log, Float.pow⟩

/-- With it, this is the arithmetic of the running program. -/
example : (inferInstance : Scalar (Binary64 .native)) = (inferInstance : Scalar Float) := rfl

namespace Binary64

variable {lib : Library}

/-! ## §2. Acceptance -/

theorem exponent_hasSign {k delta temperature : Float} (hk : HasSign .positive k)
    (worsens : ¬ delta ≤ 0) (warm : 0 < temperature) :
    HasSign .negative (-k * delta / temperature) :=
  (hk.neg.mul (.of_not_le_zero worsens)).div (.of_zero_lt warm)

theorem exponent_sunk {k delta temperature : Float} (hk : HasSign .positive k)
    (worsens : ¬ delta ≤ 0) (warm : 0 < temperature)
    (h : k.isFinite = false ∨ delta.isFinite = false) : Sunk (-k * delta / temperature) := by
  refine ⟨exponent_hasSign hk worsens warm, isFinite_div_left ?_ temperature⟩
  rcases h with hk | hdelta
  · exact isFinite_mul_left (isFinite_neg hk) delta
  · exact isFinite_mul_right (-k) hdelta

theorem uniform_hasSign (w : UInt64) :
    HasSign .positive (Scalar.uniform w : Binary64 lib) :=
  (hasSign_toFloat (w >>> 11)).div (hasSign_toFloat 9007199254740992)

theorem not_lt_exp_of_sunk (hlib : lib.Lawful) {u x : Float} (hu : HasSign .positive u)
    (hx : Sunk x) : ¬ u < lib.exp x := by
  rcases hx.isNaN_or_lt_zero with hnan | hneg
  · exact not_lt_of_isNaN (hlib.exp_nan x hnan)
  · rw [hlib.exp_bottom x hx.2 hneg]
    exact hu.not_lt_zero

/-- **No such chance is taken**, whatever the word. -/
theorem settle_of_sunk {γ : Type} [Generator γ] (hlib : lib.Lawful) {k delta temperature : Float}
    (h : Sunk (-k * delta / temperature)) (g : γ) :
    ((Verdict.chance (Tuning.acceptance k delta temperature : Binary64 lib)).settle g).1
      = false := by
  have hu : HasSign .positive (Scalar.uniform (Generator.next g).1 : Binary64 lib) :=
    uniform_hasSign _
  exact decide_eq_false (not_lt_exp_of_sunk hlib hu h)

/-! ## §3. The estimate -/

theorem sample_hasSign (hlib : lib.Lawful) {delta : Float} (worsens : ¬ delta ≤ 0) :
    HasSign .positive (ScaleEstimate.sample delta : Binary64 lib) :=
  (HasSign.of_lt_zero hlib.log_target).neg.div (.of_not_le_zero worsens)

/-- A mean with an infinite weight is NaN: it is positive infinity less itself. -/
theorem isNaN_mean_of_wrapped {x y : Float} (hx : HasSign .positive x) (hy : HasSign .positive y) :
    (x * (1 / (0 : UInt64).toFloat) + y * (1 - 1 / (0 : UInt64).toFloat)).isNaN = true := by
  have hweight : HasSign .positive (1 / (0 : UInt64).toFloat) :=
    hasSign_one.div (hasSign_toFloat 0)
  have hrest : HasSign .negative (1 - 1 / (0 : UInt64).toFloat) :=
    .of_signOf (congrArg signOf parts_one_sub_one_div_zero)
  exact isNaN_add (hx.mul hweight) (isFinite_mul_right x (congrArg _ parts_one_div_zero))
    (hy.mul hrest) (isFinite_mul_right y (congrArg _ parts_one_sub_one_div_zero))

/-- A weighted mean of what is not negative is not negative. -/
theorem mean_hasSign {x y : Float} (n : UInt64) (hx : HasSign .positive x)
    (hy : HasSign .positive y) :
    HasSign .positive (x * (1 / n.toFloat) + y * (1 - 1 / n.toFloat)) := by
  by_cases hn : n = 0
  -- a failed iteration can learn without being counted, so the count of samples may wrap
  · rw [hn]
    exact .of_isNaN (isNaN_mean_of_wrapped hx hy)
  · exact (hx.mul (hasSign_one.div (hasSign_toFloat n))).add
      (hy.mul (hasSign_one_sub_one_div hn))

/-- **Taking in a worsening difference keeps the mean from being negative.** -/
theorem fold_hasSign (hlib : lib.Lawful) {e : ScaleEstimate (Binary64 lib)}
    {delta : Binary64 lib} (worsens : ¬ delta ≤ 0) (he : HasSign .positive e.mean) :
    HasSign .positive (e.fold delta).mean :=
  mean_hasSign (e.samples + 1) (sample_hasSign hlib worsens) he

/-- **A mean that is not finite never is again.** -/
theorem fold_isFinite {e : ScaleEstimate (Binary64 lib)} (delta : Binary64 lib)
    (he : Scalar.isFinite e.mean = false) : Scalar.isFinite (e.fold delta).mean = false :=
  isFinite_add_right _ (isFinite_mul_left he _)

end Binary64

/-! ## §4. A library in full -/

/-- A library with the true values at NaN, at negative infinity and zero, and at 0.7, which is
all that the walks of the examples ask it for. -/
def Library.special : Library where
  exp x := if x.isNaN then x else if x < 0 then 0 else 1
  log _ := -0.35667494393873245
  pow _ _ := 1

theorem Library.special_lawful : Library.special.Lawful where
  exp_nan x h := by
    show (if x.isNaN = true then x else _).isNaN = true
    rw [if_pos h]
    exact h
  exp_bottom x _ h := by
    show (if x.isNaN = true then x else if x < 0 then 0 else 1) = 0
    rw [if_neg fun hnan => Binary64.not_lt_of_isNaN_left hnan h, if_pos h]
  log_target := by decide

end Annealing
