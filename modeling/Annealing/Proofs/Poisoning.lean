/-
  Annealing.Proofs.Poisoning
  ──────────────────────────
  **COST DIFFERENCES THAT ARE NOT NUMBERS.**

  In binary64 arithmetic a mean of scales is never negative, whatever the cost
  differences are, so no worsening move has an acceptance exponent above zero; and
  a difference that is NaN or infinite makes that exponent NaN or negative
  infinity, so its move is refused.  In the learning window it also leaves a mean
  that is not finite.  Such a mean stays, and from then on a search that estimates
  its scale takes a move exactly if it does not worsen the cost, until a reset.

    • `judge_refuses` — the judgements that no word can turn,
    • `history_scaleSign` — the sign of the scale, and differences not finite,
    • `history_poisoned` — a mean that is not finite lasts until a reset.
-/
import Annealing.Generator.Cycle
import Annealing.Proofs.Binary64.Library

namespace Annealing

open Binary64

/-! ## §1. One judgement -/

section
variable {lib : Library} {γ π σ μ : Type} [Generator γ]

/-- **A worsening move is refused for sure** if its difference is not finite, or if the scale
is estimated by a mean that is not. -/
theorem Tuning.judge_refuses (hlib : lib.Lawful) (t : Tuning (Binary64 lib)) (i : UInt64)
    {e : ScaleEstimate (Binary64 lib)} (he : HasSign .positive e.mean) {delta : Binary64 lib}
    (worsens : ¬ delta ≤ 0)
    (h : Scalar.isFinite delta = false ∨ ¬ 0 < t.scale ∧ Scalar.isFinite e.mean = false)
    (g : γ) : ((t.judge i e delta).1.settle g).1 = false := by
  have hjudges := t.judge_judges i e delta
  generalize t.judge i e delta = judgement at hjudges
  obtain ⟨verdict, e'⟩ := judgement
  change t.Judges i e delta verdict e' at hjudges
  cases hjudges with
  | improving improves => exact absurd improves worsens
  | cold => rfl
  | given _ warm scale =>
      have hdelta := h.resolve_right fun hmean => hmean.1 scale
      exact settle_of_sunk hlib (exponent_sunk (.of_zero_lt scale) worsens warm (.inr hdelta)) g
  | learning _ warm _ _ =>
      have hfold := h.symm.imp_left fun hmean => fold_isFinite delta hmean.2
      exact settle_of_sunk hlib
        (exponent_sunk (fold_hasSign hlib worsens he) worsens warm hfold) g
  | frozen _ warm _ _ =>
      have hmean := h.symm.imp_left And.right
      exact settle_of_sunk hlib (exponent_sunk he worsens warm hmean) g

/-- The scale in force is never negative. -/
theorem Tuning.scaleFor_hasSign (hlib : lib.Lawful) (t : Tuning (Binary64 lib)) (i : UInt64)
    {e : ScaleEstimate (Binary64 lib)} (he : HasSign .positive e.mean) {delta : Binary64 lib}
    (worsens : ¬ delta ≤ 0) : HasSign .positive (t.scaleFor i e delta).1 := by
  unfold scaleFor hasScale
  by_cases hscale : 0 < t.scale
  · rw [decide_eq_true hscale, if_pos rfl]
    exact .of_zero_lt hscale
  · rw [decide_eq_false hscale, if_neg Bool.false_ne_true]
    cases t.inLearningWindow i with
    | true => exact fold_hasSign hlib worsens he
    | false => exact he

theorem not_le_zero_of_special {delta : Binary64 lib}
    (h : Scalar.isNaN delta = true ∨ delta = 1 / 0) :
    ¬ delta ≤ 0 ∧ Scalar.isFinite delta = false := by
  rcases h with hnan | rfl
  · exact ⟨not_le_of_isNaN hnan, isFinite_of_isNaN hnan⟩
  · exact ⟨not_infinity_le_zero, isFinite_infinity⟩

end

/-! ## §2. A walk whose first cost is not a number -/

namespace Walk

/-- Steps up; the cost difference of the first step is NaN. -/
def lapse : Problem (Binary64 .special) Unit Int Int :=
  .ofFunctions (fun _ _ iteration => ⟨(), [], .ok ⟨1, if iteration = 0 then 0 / 0 else 1⟩⟩)
    (fun _ x step => ⟨(), [], .ok (x + step)⟩)

/-- Tuned by default, but always at temperature 1. -/
def lukewarm : Tuning (Binary64 .special) :=
  { (default : Tuning (Binary64 .special)) with schedule := .custom fun _ _ => 1 }

/-- The walk after its first step. -/
def lapsed : Search (Binary64 .special) Cycle Unit Int :=
  (Search.performAll ⟨.create () lukewarm (.ofWords #[5]) ⟨0⟩, ⟨#[false]⟩, 0⟩ lapse
    [.run none 1]).1

theorem lapsed_mean : Scalar.isFinite lapsed.annealer.estimate.mean = false := by
  decide +kernel

end Walk

section
variable {lib : Library} {γ π σ μ : Type} [Generator γ]

/-! ## §3. Every point that a search reaches -/

namespace Search

variable {problem : Problem (Binary64 lib) π σ μ}

/-- The mean of a new search is not negative at any point of any history. -/
theorem Reaches.mean_hasSign (hlib : lib.Lawful) {memory : π} {tuning : Tuning (Binary64 lib)}
    {generator : γ} {abort : AbortHandle} {flags : FlagBoard} {state : σ}
    {cs : List (Command (Binary64 lib) π σ)} {p : Progress (Binary64 lib) γ π σ}
    (h : (performAll ⟨.create memory tuning generator abort, flags, state⟩ problem cs).1.Reaches
      problem p) : HasSign .positive p.annealer.estimate.mean := by
  have folds : ∀ (e : ScaleEstimate (Binary64 lib)) delta, ¬ delta ≤ 0 →
      HasSign .positive e.mean → HasSign .positive (e.fold delta).mean :=
    fun e delta worsens he => fold_hasSign hlib worsens he
  exact h.estimate folds (performAll_estimate folds (fun _ _ _ => hasSign_zero) hasSign_zero)

/-- **The sign of the scale, and differences that are not finite.**  At every point of every
history of a new search, runs in which the problem fails included:

  * the mean is NaN or not negative;
  * the acceptance exponent of a worsening difference at a positive temperature is NaN or not
    positive, whichever scale is in force;
  * a difference that is NaN or positive infinity is not accepted, and no other tuning,
    iteration or word would have it accepted. -/
theorem history_scaleSign (hlib : lib.Lawful) (problem : Problem (Binary64 lib) π σ μ)
    (memory : π) (tuning : Tuning (Binary64 lib)) (generator : γ) (abort : AbortHandle)
    (flags : FlagBoard) (state : σ) (cs : List (Command (Binary64 lib) π σ))
    (p : Progress (Binary64 lib) γ π σ)
    (h : (performAll ⟨.create memory tuning generator abort, flags, state⟩ problem cs).1.Reaches
      problem p) :
    let a := p.annealer
    (Scalar.isNaN a.estimate.mean = true ∨ 0 ≤ a.estimate.mean)
    ∧ (∀ delta temperature : Binary64 lib, ¬ delta ≤ 0 → 0 < temperature →
        let k := (a.tuning.scaleFor a.iteration a.estimate delta).1
        Scalar.isNaN (-k * delta / temperature) = true ∨ -k * delta / temperature ≤ 0)
    ∧ (∀ asked proposal, problem.propose p = (asked, .ok proposal) →
        (Scalar.isNaN proposal.delta = true ∨ proposal.delta = 1 / 0) →
        (asked.weigh proposal.delta).2 = false)
    ∧ ∀ (t : Tuning (Binary64 lib)) (i : UInt64) (g : γ) (delta : Binary64 lib),
        (Scalar.isNaN delta = true ∨ delta = 1 / 0) →
        ((t.judge i a.estimate delta).1.settle g).1 = false := by
  have hmean := Reaches.mean_hasSign hlib h
  have hspecial : ∀ (t : Tuning (Binary64 lib)) (i : UInt64) (g : γ) (delta : Binary64 lib),
      (Scalar.isNaN delta = true ∨ delta = 1 / 0) →
      ((t.judge i p.annealer.estimate delta).1.settle g).1 = false := by
    intro t i g delta hdelta
    obtain ⟨worsens, infinite⟩ := not_le_zero_of_special hdelta
    exact t.judge_refuses hlib i hmean worsens (.inl infinite) g
  refine ⟨hmean.isNaN_or_zero_le, ?_, ?_, hspecial⟩
  · intro delta temperature worsens warm
    exact (exponent_hasSign (p.annealer.tuning.scaleFor_hasSign hlib _ hmean worsens)
      worsens warm).isNaN_or_le_zero
  · intro asked proposal hasked hdelta
    rw [Progress.weigh_of_propose hasked]
    exact hspecial _ _ _ _ hdelta

/-- Where the walk starts its second run. -/
theorem history_scaleSign_lapse :
    let p := Walk.lapsed.annealer.start Walk.lapsed.flags Walk.lapsed.state
    Library.special.Lawful ∧ Walk.lapsed.Reaches Walk.lapse p
    ∧ (Scalar.isNaN p.annealer.estimate.mean = true ∨ 0 ≤ p.annealer.estimate.mean)
    ∧ ((Walk.lukewarm.judge 7 p.annealer.estimate (1 / 0)).1.settle p.annealer.generator).1
        = false := by
  have hreached : Walk.lapsed.Reaches Walk.lapse
      (Walk.lapsed.annealer.start Walk.lapsed.flags Walk.lapsed.state) := ⟨none, [], .done _⟩
  obtain ⟨hmean, -, -, hany⟩ := history_scaleSign Library.special_lawful Walk.lapse ()
    Walk.lukewarm _ _ _ _ [.run none 1] _ hreached
  exact ⟨Library.special_lawful, hreached, hmean, hany _ _ _ _ (.inr rfl)⟩

/-- **A mean that is not finite lasts until a reset.**  If a new search comes to a point where
its mean is NaN or infinite, then at every point of every later history without a reset, runs
in which the problem fails included,

  * the mean is NaN or infinite;
  * as long as no scale is given, a move is taken exactly if it does not worsen the cost. -/
theorem history_poisoned (hlib : lib.Lawful) (problem : Problem (Binary64 lib) π σ μ)
    (memory : π) (tuning : Tuning (Binary64 lib)) (generator : γ) (abort : AbortHandle)
    (flags : FlagBoard) (state : σ) (cs : List (Command (Binary64 lib) π σ))
    (p : Progress (Binary64 lib) γ π σ)
    (h : (performAll ⟨.create memory tuning generator abort, flags, state⟩ problem cs).1.Reaches
      problem p)
    (hmean : Scalar.isFinite p.annealer.estimate.mean = false)
    (later : List (Command (Binary64 lib) π σ)) (hlater : ∀ c ∈ later, c.isReset = false) :
    let after := (performAll ⟨p.annealer, p.flags, p.state⟩ problem later).1
    Scalar.isFinite after.annealer.estimate.mean = false
    ∧ ∀ q, after.Reaches problem q →
        Scalar.isFinite q.annealer.estimate.mean = false
        ∧ (¬ 0 < q.annealer.tuning.scale →
            ∀ asked proposal, problem.propose q = (asked, .ok proposal) →
              (asked.weigh proposal.delta).2 = decide (proposal.delta ≤ 0)) := by
  intro after
  -- the mean is not negative and not finite, and both last
  let J : ScaleEstimate (Binary64 lib) → Prop := fun e =>
    HasSign .positive e.mean ∧ Scalar.isFinite e.mean = false
  have folds : ∀ (e : ScaleEstimate (Binary64 lib)) delta, ¬ delta ≤ 0 → J e →
      J (e.fold delta) :=
    fun e delta worsens he => ⟨fold_hasSign hlib worsens he.1, fold_isFinite delta he.2⟩
  have hafter : J after.annealer.estimate :=
    performAll_estimate (s := ⟨p.annealer, p.flags, p.state⟩) folds
      (fun c hc hreset => absurd hreset (by rw [hlater c hc]; exact Bool.false_ne_true))
      ⟨Reaches.mean_hasSign hlib h, hmean⟩
  refine ⟨hafter.2, fun q hq => ?_⟩
  obtain ⟨hsign, hfinite⟩ := hq.estimate folds hafter
  refine ⟨hfinite, fun hscale asked proposal hasked => ?_⟩
  rw [Progress.weigh_of_propose hasked]
  by_cases hdelta : proposal.delta ≤ 0
  · unfold Tuning.judge
    rw [if_pos hdelta, decide_eq_true hdelta]
    rfl
  · rw [decide_eq_false hdelta]
    exact q.annealer.tuning.judge_refuses hlib _ hsign hdelta (.inr ⟨hscale, hfinite⟩) _

/-- Two more runs of the walk, with a scale given and taken back. -/
theorem history_poisoned_lapse :
    let later : List (Command (Binary64 .special) Unit Int) :=
      [.run none 3, .setScale 1, .run none 1, .setScale 0]
    let after := (performAll ⟨Walk.lapsed.annealer, Walk.lapsed.flags, Walk.lapsed.state⟩
      Walk.lapse later).1
    Library.special.Lawful ∧ Scalar.isFinite Walk.lapsed.annealer.estimate.mean = false
    ∧ (∀ c ∈ later, c.isReset = false)
    ∧ Scalar.isFinite after.annealer.estimate.mean = false
    ∧ ∀ q, after.Reaches Walk.lapse q → ¬ 0 < q.annealer.tuning.scale →
        ∀ asked proposal, Walk.lapse.propose q = (asked, .ok proposal) →
          (asked.weigh proposal.delta).2 = decide (proposal.delta ≤ 0) := by
  have hreached : Walk.lapsed.Reaches Walk.lapse
      (Walk.lapsed.annealer.start Walk.lapsed.flags Walk.lapsed.state) := ⟨none, [], .done _⟩
  have hpoisoned := history_poisoned Library.special_lawful Walk.lapse () Walk.lukewarm _ _ _ _
    [.run none 1] _ hreached
  have hmean := Walk.lapsed_mean
  -- from here on it does not matter how the walk has come to where it is
  generalize Walk.lapsed = s at hpoisoned hmean ⊢
  intro later after
  have hlater : ∀ c ∈ later, c.isReset = false := by simp [later, Command.isReset]
  obtain ⟨hafter, hgreedy⟩ := hpoisoned hmean later hlater
  exact ⟨Library.special_lawful, hmean, hlater, hafter, fun q hq => (hgreedy q hq).2⟩

end Search

end

end Annealing
