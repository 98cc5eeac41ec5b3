/-
  Annealing.Proofs.Nesting
  ────────────────────────
  **ACCEPTANCE SETS ARE NESTED.**

  An acceptance test compares its probability with a count of steps of `2⁻⁵³`.  So
  the counts that accept are an initial part of all, and a smaller probability
  accepts fewer of them.  In exact arithmetic the probability falls as the cost
  difference grows.  That is plain for a given scale and for an estimate that is
  final.  In the learning window a greater difference comes with a smaller scale;
  but what it suggests itself adds the same to every exponent, and what was learned
  before is a mean that is never negative.

    • `takes_iff` — the counts that accept,
    • `scaleFor_mul_mono` — the exponent grows with the difference,
    • `history_nesting` — what follows at every point of every history.
-/
import Mathlib
import Annealing.Generator.Cycle
import Annealing.Proofs.Exact
import Annealing.Proofs.Judgement

namespace Annealing

noncomputable section

/-! ## §1. What a word decides -/

/-- How many steps of `2⁻⁵³` a word stands for. -/
def steps (w : UInt64) : Nat :=
  (w >>> 11).toNat

theorem steps_lt (w : UInt64) : steps w < 2 ^ 53 := by
  have hw : w.toNat < 2 ^ 64 := w.toNat_lt_size
  unfold steps
  rw [UInt64.toNat_shiftRight, Nat.shiftRight_eq_div_pow]
  show w.toNat / 2 ^ 11 < 2 ^ 53
  omega

/-- Every number of steps is some word's. -/
theorem exists_steps {j : Nat} (hj : j < 2 ^ 53) : ∃ w, steps w = j := by
  refine ⟨UInt64.ofNat (j * 2 ^ 11), ?_⟩
  unfold steps
  rw [UInt64.toNat_shiftRight, UInt64.toNat_ofNat_of_lt' (by show _ < 2 ^ 64; omega),
    Nat.shiftRight_eq_div_pow]
  show j * 2 ^ 11 / 2 ^ 11 = j
  omega

theorem uniform_eq_steps (w : UInt64) : (Scalar.uniform w : ℝ) = steps w / 2 ^ 53 := by
  have hlast : ((9007199254740992 : UInt64).toNat : ℝ) = 2 ^ 53 := by
    have : (9007199254740992 : UInt64).toNat = 2 ^ 53 := rfl
    rw [this]
    norm_num
  show ((w >>> 11).toNat : ℝ) / ((9007199254740992 : UInt64).toNat : ℝ) = _
  rw [hlast]
  rfl

/-- **A chance is taken by an initial part of the words**, in steps. -/
theorem takes_iff (p : ℝ) (w : UInt64) :
    (Verdict.chance p).takes w = true ↔ steps w < ⌈p * 2 ^ 53⌉₊ := by
  have htakes : (Verdict.chance p).takes w = true ↔ (Scalar.uniform w : ℝ) < p :=
    decide_eq_true_iff
  rw [htakes, uniform_eq_steps, Nat.lt_ceil, div_lt_iff₀ (by positivity)]

/-- A greater chance is taken by more words. -/
theorem takes_mono {p p' : ℝ} (hp : p ≤ p') {w : UInt64} (h : (Verdict.chance p).takes w = true) :
    (Verdict.chance p').takes w = true :=
  decide_eq_true (lt_of_lt_of_le (of_decide_eq_true h) hp)

/-! ## §2. The exponent -/

namespace ScaleEstimate

/-- What the sample of a difference adds to the exponent of the difference. -/
theorem sample_mul {delta : ℝ} (hd : 0 < delta) : sample delta * delta = -Real.log 0.7 :=
  div_mul_cancel₀ (-Real.log 0.7) hd.ne'

theorem sample_pos {delta : ℝ} (hd : 0 < delta) : 0 < sample delta := by
  have hlog : Real.log 0.7 < 0 := Real.log_neg (by norm_num) (by norm_num)
  exact div_pos (neg_pos.mpr hlog) hd

/-- The weight of the next sample. -/
def weight (e : ScaleEstimate ℝ) : ℝ :=
  1 / ((e.samples + 1).toNat : ℝ)

theorem weight_nonneg (e : ScaleEstimate ℝ) : 0 ≤ e.weight :=
  div_nonneg zero_le_one (Nat.cast_nonneg _)

theorem weight_le_one (e : ScaleEstimate ℝ) : e.weight ≤ 1 := by
  unfold weight
  rw [one_div]
  exact Nat.cast_inv_le_one _

theorem fold_mean_eq (e : ScaleEstimate ℝ) (delta : ℝ) :
    (e.fold delta).mean = sample delta * e.weight + e.mean * (1 - e.weight) := rfl

/-- **A mean of positive samples is not negative.** -/
theorem fold_mean_nonneg {e : ScaleEstimate ℝ} {delta : ℝ} (he : 0 ≤ e.mean) (hd : 0 < delta) :
    0 ≤ (e.fold delta).mean := by
  rw [fold_mean_eq]
  exact add_nonneg (mul_nonneg (sample_pos hd).le e.weight_nonneg)
    (mul_nonneg he (sub_nonneg.mpr e.weight_le_one))

/-- **The exponent of a difference that is taken in grows with it**: its own sample adds the same
to every exponent, and the earlier ones add a multiple of the difference. -/
theorem fold_mean_mul_mono {e : ScaleEstimate ℝ} {d d' : ℝ} (he : 0 ≤ e.mean) (hd : 0 < d)
    (hle : d ≤ d') : (e.fold d).mean * d ≤ (e.fold d').mean * d' := by
  have hexponent : ∀ {x : ℝ}, 0 < x →
      (e.fold x).mean * x = -Real.log 0.7 * e.weight + e.mean * (1 - e.weight) * x := by
    intro x hx
    rw [← sample_mul hx, fold_mean_eq]
    ring
  rw [hexponent hd, hexponent (hd.trans_le hle)]
  have hrest : 0 ≤ e.mean * (1 - e.weight) := mul_nonneg he (sub_nonneg.mpr e.weight_le_one)
  exact add_le_add_right (mul_le_mul_of_nonneg_left hle hrest) _

end ScaleEstimate

namespace Tuning

variable {t : Tuning ℝ} {i : UInt64} {e : ScaleEstimate ℝ}

/-- The scale in force, in each of the three modes. -/
theorem scaleFor_fst (t : Tuning ℝ) (i : UInt64) (e : ScaleEstimate ℝ) (d : ℝ) :
    (0 < t.scale → (t.scaleFor i e d).1 = t.scale)
    ∧ (¬ 0 < t.scale → t.inLearningWindow i = true → (t.scaleFor i e d).1 = (e.fold d).mean)
    ∧ (¬ 0 < t.scale → t.inLearningWindow i = false → (t.scaleFor i e d).1 = e.mean) := by
  unfold scaleFor hasScale
  refine ⟨fun hscale => ?_, fun hscale hwindow => ?_, fun hscale hwindow => ?_⟩
  · rw [decide_eq_true hscale]
    rfl
  · rw [decide_eq_false hscale, hwindow]
    rfl
  · rw [decide_eq_false hscale, hwindow]
    rfl

/-- What holds of a scale in each mode holds of the scale in force. -/
theorem scaleFor_cases {P : ℝ → ℝ → Prop} (d d' : ℝ)
    (given : 0 < t.scale → P t.scale t.scale)
    (learning : P (e.fold d).mean (e.fold d').mean) (final : P e.mean e.mean) :
    P (t.scaleFor i e d).1 (t.scaleFor i e d').1 := by
  obtain ⟨hgiven, hlearning, hfinal⟩ := t.scaleFor_fst i e d
  obtain ⟨hgiven', hlearning', hfinal'⟩ := t.scaleFor_fst i e d'
  by_cases hscale : 0 < t.scale
  · rw [hgiven hscale, hgiven' hscale]
    exact given hscale
  · cases hwindow : t.inLearningWindow i with
    | true =>
        rw [hlearning hscale hwindow, hlearning' hscale hwindow]
        exact learning
    | false =>
        rw [hfinal hscale hwindow, hfinal' hscale hwindow]
        exact final

theorem scaleFor_nonneg {d : ℝ} (he : 0 ≤ e.mean) (hd : 0 < d) : 0 ≤ (t.scaleFor i e d).1 :=
  scaleFor_cases (P := fun k _ => 0 ≤ k) d d le_of_lt
    (ScaleEstimate.fold_mean_nonneg he hd) he

/-- **The exponent grows with the difference**, in all modes. -/
theorem scaleFor_mul_mono {d d' : ℝ} (he : 0 ≤ e.mean) (hd : 0 < d) (hle : d ≤ d') :
    (t.scaleFor i e d).1 * d ≤ (t.scaleFor i e d').1 * d' :=
  scaleFor_cases (P := fun k k' => k * d ≤ k' * d') d d'
    (fun hscale => mul_le_mul_of_nonneg_left hle hscale.le)
    (ScaleEstimate.fold_mean_mul_mono he hd hle)
    (mul_le_mul_of_nonneg_left hle he)

/-! ## §3. The probability -/

/-- While the search is warm, a worsening difference is left to chance, by the scale in force. -/
theorem judge_warm {d : ℝ} (hd : 0 < d) (hwarm : 0 < t.temperature i) :
    (t.judge i e d).1
      = .chance (Real.exp (-(t.scaleFor i e d).1 * d / t.temperature i)) := by
  unfold judge
  rw [if_neg (not_le.mpr hd)]
  simp only [if_pos hwarm]
  rfl

/-- A probability is at most one. -/
theorem exp_le_one {k d temperature : ℝ} (hk : 0 ≤ k) (hd : 0 < d) (hwarm : 0 < temperature) :
    Real.exp (-k * d / temperature) ≤ 1 := by
  rw [Real.exp_le_one_iff, neg_mul]
  exact div_nonpos_of_nonpos_of_nonneg (neg_nonpos.mpr (mul_nonneg hk hd.le)) hwarm.le

/-- A smaller exponent makes a greater probability. -/
theorem exp_anti {k k' d d' temperature : ℝ} (hle : k * d ≤ k' * d') (hwarm : 0 < temperature) :
    Real.exp (-k' * d' / temperature) ≤ Real.exp (-k * d / temperature) := by
  rw [Real.exp_le_exp, neg_mul, neg_mul]
  exact div_le_div_of_nonneg_right (neg_le_neg hle) hwarm.le

/-- So does a higher temperature. -/
theorem exp_mono_temperature {k d temperature temperature' : ℝ} (hk : 0 ≤ k) (hd : 0 < d)
    (hwarm : 0 < temperature) (hle : temperature ≤ temperature') :
    Real.exp (-k * d / temperature) ≤ Real.exp (-k * d / temperature') := by
  rw [Real.exp_le_exp, neg_mul, neg_div, neg_div, neg_le_neg_iff]
  exact div_le_div_of_nonneg_left (mul_nonneg hk hd.le) hwarm hle

end Tuning

/-! ## §4. Every history -/

namespace Search

variable {γ π σ μ : Type} [Generator γ]

/-- **Acceptance sets are nested.**  In exact arithmetic, take a point that a run can come to
after a history of a new search, and let the temperature be positive there.

  * Whatever is proposed next, the next word decides by the judgement.
  * A worsening difference has the probability `exp (-k * d / T)`, where `k` is the given scale,
    the estimate with this difference taken in, or the final estimate.  It lies above zero and
    is at most one, and the words that accept are those with fewer steps than it has, rounded
    up; all these numbers of steps occur.
  * A word that accepts a difference accepts every smaller one, in each of these modes.
  * A word that accepts a difference accepts it at a higher temperature too. -/
theorem history_nesting (problem : Problem ℝ π σ μ) (memory : π) (tuning : Tuning ℝ)
    (generator : γ) (abort : AbortHandle) (flags : FlagBoard) (state : σ)
    (cs : List (Command ℝ π σ)) (q : Progress ℝ γ π σ)
    (hq : (performAll ⟨.create memory tuning generator abort, flags, state⟩ problem cs).1.Reaches
      problem q) (hwarm : 0 < q.annealer.temperature) :
    let a := q.annealer
    let scale (d : ℝ) := (a.tuning.scaleFor a.iteration a.estimate d).1
    let verdict (a : Annealer ℝ γ π) (d : ℝ) := (a.tuning.judge a.iteration a.estimate d).1
    let probability (d : ℝ) := Real.exp (-scale d * d / a.temperature)
    (∀ asked answer, problem.propose q = (asked, answer) → ∀ d,
      (asked.weigh d).2 = (verdict a d).takes (Generator.next asked.annealer.generator).1)
    ∧ (∀ d, 0 < d →
        (0 < a.tuning.scale → scale d = a.tuning.scale)
        ∧ (¬ 0 < a.tuning.scale → a.inLearningWindow = true →
            scale d = (a.estimate.fold d).mean)
        ∧ (¬ 0 < a.tuning.scale → a.inLearningWindow = false → scale d = a.estimate.mean)
        ∧ 0 < probability d ∧ probability d ≤ 1
        ∧ verdict a d = .chance (probability d)
        ∧ (∀ w, (verdict a d).takes w = true ↔ steps w < ⌈probability d * 2 ^ 53⌉₊)
        ∧ {j | ∃ w, steps w = j ∧ (verdict a d).takes w = true}
            = Set.Iio ⌈probability d * 2 ^ 53⌉₊)
    ∧ (∀ d d' w, 0 < d → d ≤ d' → (verdict a d').takes w = true → (verdict a d).takes w = true)
    ∧ ∀ schedule d w, 0 < d → a.temperature ≤ (a.setSchedule schedule).temperature →
        (verdict a d).takes w = true → (verdict (a.setSchedule schedule) d).takes w = true := by
  intro a scale verdict probability
  have hmean : 0 ≤ a.estimate.mean :=
    hq.estimate (J := fun e => 0 ≤ e.mean)
      (fun _ _ hworse he => ScaleEstimate.fold_mean_nonneg he (not_le.mp hworse))
      (performAll_estimate (J := fun e => 0 ≤ e.mean)
        (fun _ _ hworse he => ScaleEstimate.fold_mean_nonneg he (not_le.mp hworse))
        (fun _ _ _ => le_refl (0 : ℝ)) (le_refl (0 : ℝ)))
  have hverdict : ∀ d, 0 < d → verdict a d = .chance (probability d) :=
    fun d hd => Tuning.judge_warm hd hwarm
  have hone : ∀ d, 0 < d → probability d ≤ 1 :=
    fun d hd => Tuning.exp_le_one (Tuning.scaleFor_nonneg hmean hd) hd hwarm
  have htakes : ∀ d, 0 < d → ∀ w,
      ((verdict a d).takes w = true ↔ steps w < ⌈probability d * 2 ^ 53⌉₊) := by
    intro d hd w
    rw [hverdict d hd]
    exact takes_iff _ w
  refine ⟨fun asked answer h d => ?_, fun d hd => ?_, fun d d' w hd hle h => ?_,
    fun schedule d w hd hle h => ?_⟩
  · exact Progress.weigh_takes h d
  · obtain ⟨hgiven, hlearning, hfinal⟩ := a.tuning.scaleFor_fst a.iteration a.estimate d
    refine ⟨hgiven, hlearning, hfinal, Real.exp_pos _, hone d hd, hverdict d hd, htakes d hd, ?_⟩
    ext j
    constructor
    · rintro ⟨w, rfl, h⟩
      exact (htakes d hd w).mp h
    · intro hj
      -- a probability of at most one has no more steps than there are
      have hlast : ⌈probability d * 2 ^ 53⌉₊ ≤ 2 ^ 53 := by
        refine Nat.ceil_le.mpr ?_
        calc probability d * 2 ^ 53 ≤ 1 * 2 ^ 53 :=
              mul_le_mul_of_nonneg_right (hone d hd) (by norm_num)
          _ = ((2 ^ 53 : ℕ) : ℝ) := by norm_num
      obtain ⟨w, rfl⟩ := exists_steps (lt_of_lt_of_le hj hlast)
      exact ⟨w, rfl, (htakes d hd w).mpr hj⟩
  · rw [hverdict d' (hd.trans_le hle)] at h
    rw [hverdict d hd]
    exact takes_mono (Tuning.exp_anti (Tuning.scaleFor_mul_mono hmean hd hle) hwarm) h
  · have hlater : verdict (a.setSchedule schedule) d
        = .chance (Real.exp (-scale d * d / (a.setSchedule schedule).temperature)) :=
      Tuning.judge_warm hd (hwarm.trans_le hle)
    rw [hverdict d hd] at h
    rw [hlater]
    exact takes_mono (Tuning.exp_mono_temperature (Tuning.scaleFor_nonneg hmean hd) hd hwarm hle) h

/-- A walk whose steps cost three each, at temperature two.  After three iterations, a word that
would accept a difference of two would accept a difference of one. -/
theorem history_nesting_walk :
    let walk : Problem ℝ Unit Int Int :=
      .ofFunctions (fun _ _ _ => ⟨(), [], .ok ⟨1, 3⟩⟩) (fun _ x step => ⟨(), [], .ok (x + step)⟩)
    let tuning : Tuning ℝ := { (default : Tuning ℝ) with schedule := .custom fun _ _ => 2 }
    let first : Search ℝ Cycle Unit Int :=
      ⟨.create () tuning (.ofWords #[1, 5]) ⟨0⟩, ⟨#[false]⟩, 0⟩
    let s := (first.performAll walk [.run none 3]).1
    let verdict (d : ℝ) := (s.annealer.tuning.judge s.annealer.iteration s.annealer.estimate d).1
    s.Reaches walk (s.annealer.start s.flags s.state) ∧ 0 < s.annealer.temperature
    ∧ ∀ w, (verdict 2).takes w = true → (verdict 1).takes w = true := by
  intro walk tuning first s verdict
  have hreaches : s.Reaches walk (s.annealer.start s.flags s.state) := ⟨none, [], .done _⟩
  have htuning : s.annealer.tuning = tuning := first.annealer.run_tuning walk first.flags 0 3
  have hwarm : 0 < s.annealer.temperature := by
    unfold Annealer.temperature
    rw [htuning]
    exact two_pos (α := ℝ)
  obtain ⟨-, -, hnested, -⟩ := history_nesting walk () tuning (Cycle.ofWords #[1, 5]) ⟨0⟩
    ⟨#[false]⟩ 0 [.run none 3] _ hreaches hwarm
  exact ⟨hreaches, hwarm, fun w => hnested 1 2 w one_pos one_le_two⟩

end Search

end

end Annealing
