/-
  Annealing.Proofs.Temperatures
  ─────────────────────────────
  **THE TEMPERATURES OF A TUNING THAT PASSES THE CHECK.**

  The built-in schedules look at the share of the budget that an iteration makes
  up.  The budget of a tuning that passes is positive and finite, so the share is
  a double that is not negative: zero at the first iteration, and never falling,
  though it may underflow to zero for large budgets and overflow to infinity for
  small ones.  Both schedules start at one and never rise with the share, if the
  library's power function does not.

    • `share_le` — shares are in order as the iterations are,
    • `exists_falls` — what the built-in schedules do with a share,
    • `temperature_falls` — so the temperatures are as planned.
-/
import Annealing.Proofs.Binary64.Library
import Annealing.Proofs.Binary64.Monotone
import Annealing.Proofs.Checking

namespace Annealing

/-! ## §1. Shares of the budget -/

/-- The powers of the final temperature: they start at one, do not rise, and are not
negative. -/
structure Library.PowFalls (lib : Library) : Prop where
  pow_zero : lib.pow 0.01 0 = 1
  pow_le_pow : ∀ q q' : Float, 0 ≤ q → q ≤ q' → lib.pow 0.01 q' ≤ lib.pow 0.01 q
  pow_nonneg : ∀ q : Float, 0 ≤ q → 0 ≤ lib.pow 0.01 q

namespace Binary64

open Float.Model Float.Model.UnpackedFloat

/-- The share of the budget that an iteration makes up. -/
def share (i : UInt64) (budget : Float) : Float := i.toFloat / budget

theorem le_of_zero_lt {x : Float} (pos : 0 < x) : 0 ≤ x := by
  rcases sign_cases x with hnan | ⟨-, hle, -⟩ | ⟨-, -, hlt⟩
  · exact absurd pos (not_lt_of_isNaN hnan)
  · exact hle
  · exact absurd pos hlt

section
variable {budget : Float} (finite : budget.isFinite = true) (pos : 0 < budget)
include finite pos

theorem share_zero : share 0 budget = 0 :=
  zero_div_eq finite pos

/-- **Shares are in order as the iterations are.** -/
theorem share_le {i j : UInt64} (h : i ≤ j) : share i budget ≤ share j budget :=
  div_mono (toFloat_standsFor i).isFinite (toFloat_standsFor j).isFinite finite pos
    (toFloat_mono h)

theorem share_nonneg (i : UInt64) : 0 ≤ share i budget :=
  share_zero finite pos ▸ share_le finite pos i.zero_le

end

theorem parts_learningShare : parts 0.4
    = .finite .positive 7205759403792794 (-54) (by decide) := rfl

/-- The first iteration is within the learning share of every positive budget. -/
theorem zero_le_learningShare_mul {budget : Float} (pos : 0 < budget) :
    (0 : UInt64).toFloat ≤ 0.4 * budget :=
  zero_le_mul parts_learningShare (by decide) (le_of_zero_lt pos)

/-! ## §2. What the schedules do with a share -/

/-- A function of the share that starts at one and does not rise. -/
structure Falls (f : Float → Float) : Prop where
  start : f 0 = 1
  falls : ∀ {q q' : Float}, 0 ≤ q → q ≤ q' → f q' ≤ f q

/-- How far linear cooling falls in all. -/
theorem parts_slope : parts (1 - 0.01)
    = .finite .positive 8917127262193582 (-53) (by decide) := rfl

theorem falls_linear : Falls fun q => 1 - (1 - 0.01) * q where
  start := by
    show 1 - (1 - 0.01) * 0 = (1 : Float)
    rw [mul_zero_eq parts_slope]
    rfl
  falls hq h := by
    refine sub_anti rfl ?_ (mul_mono parts_slope (by decide) hq h)
    exact zero_le_mul parts_slope (by decide) hq

theorem falls_exponential {lib : Library} (hlib : lib.PowFalls) : Falls (lib.pow 0.01) where
  start := hlib.pow_zero
  falls := hlib.pow_le_pow _ _

end Binary64

/-! ## §3. Temperatures -/

namespace Tuning

variable {lib : Library} {t : Tuning (Binary64 lib)}

theorem budget_of_check (passes : t.check = .ok ()) :
    Float.isFinite t.budget = true ∧ (0 : Float) < t.budget := by
  have hbudget := (t.check_iff.1.mp passes).1
  exact ⟨hbudget.2, ((Binary64.between_iff t.budget).mpr hbudget).1⟩

/-- **The built-in schedules look at the share of the budget alone**, and never rise with it. -/
theorem exists_falls (hlib : lib.PowFalls) (builtIn : t.schedule.isBuiltIn = true) :
    ∃ f, Binary64.Falls f ∧ ∀ i, t.temperature i = f (Binary64.share i t.budget) := by
  unfold temperature
  cases hschedule : t.schedule with
  | exponential => exact ⟨_, Binary64.falls_exponential hlib, fun _ => rfl⟩
  | linear => exact ⟨_, Binary64.falls_linear, fun _ => rfl⟩
  | custom rule =>
      rw [hschedule] at builtIn
      cases builtIn

/-- **Temperatures never rise.** -/
theorem temperature_anti (hlib : lib.PowFalls) (builtIn : t.schedule.isBuiltIn = true)
    (passes : t.check = .ok ()) {i j : UInt64} (h : i ≤ j) :
    t.temperature j ≤ t.temperature i := by
  obtain ⟨finite, pos⟩ := budget_of_check passes
  obtain ⟨f, hf, heq⟩ := exists_falls hlib builtIn
  rw [heq i, heq j]
  exact hf.falls (Binary64.share_nonneg finite pos i) (Binary64.share_le finite pos h)

theorem temperature_zero (hlib : lib.PowFalls) (builtIn : t.schedule.isBuiltIn = true)
    (passes : t.check = .ok ()) : t.temperature 0 = 1 := by
  obtain ⟨finite, pos⟩ := budget_of_check passes
  obtain ⟨f, hf, heq⟩ := exists_falls hlib builtIn
  rw [heq, Binary64.share_zero finite pos]
  exact hf.start

theorem temperature_nonneg (hlib : lib.PowFalls) (exponential : t.schedule = .exponential)
    (passes : t.check = .ok ()) (i : UInt64) : 0 ≤ t.temperature i := by
  obtain ⟨finite, pos⟩ := budget_of_check passes
  unfold temperature
  rw [exponential]
  exact hlib.pow_nonneg _ (Binary64.share_nonneg finite pos i)

/-- **The temperatures of a tuning that passes the check** are numbers, start at one, and never
rise: what is cold stays cold. -/
theorem temperature_falls (hlib : lib.PowFalls) (t : Tuning (Binary64 lib))
    (builtIn : t.schedule.isBuiltIn = true) (passes : t.check = .ok ()) :
    (∀ i, Scalar.isNaN (t.temperature i) = false)
      ∧ t.temperature 0 = 1
      ∧ (∀ i, t.temperature i ≤ 1)
      ∧ (∀ i j, i ≤ j → t.temperature j ≤ t.temperature i)
      ∧ (t.schedule = .exponential → ∀ i, 0 ≤ t.temperature i)
      ∧ t.inLearningWindow 0 = true
      ∧ ∀ i j, i ≤ j → t.temperature i ≤ 0 → t.temperature j ≤ 0 := by
  have hanti := fun i j => temperature_anti hlib builtIn passes (i := i) (j := j)
  have hstart := temperature_zero hlib builtIn passes
  obtain ⟨-, pos⟩ := budget_of_check passes
  refine ⟨fun i => ?_, hstart, fun i => ?_, hanti, fun exponential => ?_, ?_, fun i j h cold => ?_⟩
  · exact (Binary64.le_self_iff _).mp (hanti i i (UInt64.le_refl i))
  · exact hstart ▸ hanti 0 i i.zero_le
  · exact temperature_nonneg hlib exponential passes
  · exact decide_eq_true (Binary64.zero_le_learningShare_mul pos)
  · exact Binary64.le_transitive (hanti i j h) cold

end Tuning

/-! ## §4. The least budget -/

/-- A library with the true powers at zero and at infinity, the only shares of the least
budget. -/
def Library.steep : Library :=
  { Library.special with pow := fun _ q => if q ≤ 0 then 1 else 0 }

theorem Library.steep_powFalls : Library.steep.PowFalls where
  pow_zero := by decide +kernel
  pow_le_pow q q' _ h := by
    show (if q' ≤ 0 then (1 : Float) else 0) ≤ if q ≤ 0 then 1 else 0
    by_cases hq' : q' ≤ 0
    · rw [if_pos hq', if_pos (Binary64.le_transitive h hq')]
      decide +kernel
    · rw [if_neg hq']
      split <;> decide +kernel
  pow_nonneg q _ := by
    show (0 : Float) ≤ if q ≤ 0 then 1 else 0
    split <;> decide +kernel

/-- Exponential cooling over the least budget there is, which is subnormal. -/
def Tuning.least : Tuning (Binary64 .steep) :=
  { budget := (5e-324 : Float), scale := (0 : Float), schedule := .exponential, seed := none }

theorem Tuning.temperature_falls_least :
    (Tuning.least.schedule.isBuiltIn = true ∧ Tuning.least.check = .ok ())
      ∧ (∀ i, Scalar.isNaN (Tuning.least.temperature i) = false)
      ∧ Tuning.least.temperature 0 = 1
      ∧ (∀ i, Tuning.least.temperature i ≤ 1)
      ∧ (∀ i j, i ≤ j → Tuning.least.temperature j ≤ Tuning.least.temperature i)
      ∧ (Tuning.least.schedule = .exponential → ∀ i, 0 ≤ Tuning.least.temperature i)
      ∧ Tuning.least.inLearningWindow 0 = true
      ∧ ∀ i j, i ≤ j → Tuning.least.temperature i ≤ 0 → Tuning.least.temperature j ≤ 0 :=
  have passes : Tuning.least.check = .ok () :=
    Tuning.least.check_iff.1.mpr ⟨by decide +kernel, by decide +kernel⟩
  ⟨⟨rfl, passes⟩, Tuning.temperature_falls Library.steep_powFalls Tuning.least rfl passes⟩

end Annealing
