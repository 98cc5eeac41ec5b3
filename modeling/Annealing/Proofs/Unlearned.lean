/-
  Annealing.Proofs.Unlearned
  ──────────────────────────
  **A SEARCH THAT HAS LEARNED NOTHING TAKES EVERYTHING.**

  The estimate is zero before its first sample.  A search that leaves the learning
  window without one, and is given no scale, goes on with a scale of zero: the
  exponent of every acceptance test is then a zero, its probability is one, and
  every word stands for less.  Only a difference that is NaN or infinite still
  makes the exponent NaN, and is refused.  Outside the window nothing is learned
  any more, so this lasts.

    • `uniform_lt_one` — every draw is below one,
    • `judge_unlearned` — what a judgement without an estimate decides,
    • `isFrozen_of_mem_attempts` — outside the window, every iteration begins with
      the estimate of the first,
    • `history_unlearned` — so everything is taken, from then on.
-/
import Annealing.Proofs.Binary64.Bits
import Annealing.Proofs.Freezing
import Annealing.Proofs.Lessons
import Annealing.Proofs.Nesting
import Annealing.Proofs.Poisoning

namespace Annealing

/-! ## §1. Zeros -/

/-- The exponential function at a zero and at NaN. -/
structure Library.ExpAtZero (lib : Library) : Prop where
  exp_nan : ∀ x : Float, x.isNaN = true → (lib.exp x).isNaN = true
  exp_neg_zero : lib.exp (-0) = 1

theorem Library.special_expAtZero : Library.special.ExpAtZero where
  exp_nan := Library.special_lawful.exp_nan
  exp_neg_zero := by decide +kernel

namespace Binary64

open Float.Model Float.Model.UnpackedFloat

theorem parts_neg_zero : parts (-0) = .zero .negative := rfl

/-- What is not at most zero is NaN, positive infinity, or a positive number. -/
theorem parts_of_not_le_zero {x : Float} (h : ¬ x ≤ 0) :
    x.isNaN = true ∨ x = 1 / 0 ∨ ∃ m e hm, parts x = .finite .positive m e hm := by
  show (parts x).isNaN = true ∨ _
  have hinfinity : parts (1 / 0) = .infinity .positive := rfl
  rw [le_iff, parts_zero] at h
  rcases hx : parts x with (_ | _) | _ | (_ | _) | ⟨(_ | _), m, e, hm⟩ <;> rw [hx] at h
  case notANumber => exact .inl rfl
  case infinity.positive => exact .inr (.inl (parts_injective (hx.trans hinfinity.symm)))
  case finite.positive => exact .inr (.inr ⟨m, e, hm, rfl⟩)
  all_goals exact absurd rfl h

theorem isNaN_of_parts {x : Float} (h : parts x = .notANumber) : x.isNaN = true := by
  show (parts x).isNaN = true
  rw [h]
  rfl

/-- Zero times infinity is NaN. -/
theorem isNaN_exponent {delta : Float} (h : delta.isNaN = true ∨ delta = 1 / 0)
    (temperature : Float) : (-0 * delta / temperature).isNaN = true := by
  have hproduct : parts (-0 * delta) = .notANumber := by
    rw [parts_mul, parts_neg_zero]
    rcases h with hnan | rfl
    · rw [parts_of_isNaN hnan]
      exact refit_notANumber
    · exact refit_notANumber
  refine isNaN_of_parts ?_
  rw [parts_div, hproduct]
  cases parts temperature <;> exact refit_notANumber

/-- **A scale of zero makes an exponent of zero.** -/
theorem exponent_eq_neg_zero {delta temperature : Float} {m : Nat} {e : Int} {hm : 0 < m}
    (hdelta : parts delta = .finite .positive m e hm) (warm : 0 < temperature) :
    -0 * delta / temperature = -0 := by
  refine parts_injective ?_
  have hproduct : parts (-0 * delta) = .zero .negative := by
    rw [parts_mul, parts_neg_zero, hdelta]
    exact refit_zero .negative
  rw [parts_div, hproduct, parts_neg_zero]
  rw [lt_iff, parts_zero] at warm
  generalize parts temperature = b at warm ⊢
  rcases b with (_ | _) | _ | (_ | _) | ⟨(_ | _), m', e', hm'⟩
  case infinity.positive => exact refit_zero .negative
  case finite.positive => exact refit_zero .negative
  all_goals exact absurd warm Bool.false_ne_true

/-! ## §2. Draws -/

/-- The greatest double below one. -/
theorem canonical_last : Canonical (2 ^ 53 - 1) (-53) :=
  ⟨by decide, by decide, .inl (by decide)⟩

/-- What is not negative and at most the greatest double below one is less than one. -/
theorem lt_one_of_holds {x : Float} {v : ℚ} (hx : Holds (parts x) .positive v)
    (hv : v ≤ scaled (2 ^ 53 - 1) (-53)) : x < 1 := by
  obtain ⟨hzero, -⟩ | ⟨m, e, hm, hfinite, hc, hval⟩ := hx
  · rw [lt_iff, hzero, parts_one]
    rfl
  · have hplace : e < -52 := by
      by_contra he
      have hbig : 2 ^ 52 ≤ m := hc.normal.resolve_right (by omega)
      have hgreater := scaled_lt_of_lt canonical_last.mantissa_lt hbig (by omega : -53 < e)
      rw [hval] at hgreater
      exact absurd hgreater hv.not_gt
    rw [lt_iff, hfinite, parts_one]
    show (some ((compare e (-52)).then (compare m (2 ^ 52))) == some .lt) = true
    rw [compare_lt_iff_lt.mpr hplace]
    rfl

theorem parts_steps : parts (9007199254740992 : UInt64).toFloat
    = .finite .positive (2 ^ 52) 1 (by decide) := rfl

/-- A count of fewer than `2⁵³` steps of `2⁻⁵³` is not rounded up to one. -/
theorem steps_div_holds {n : UInt64} (hn : n ≠ 0) (hlt : n.toNat < 2 ^ 53) :
    ∃ v ≤ scaled (2 ^ 53 - 1) (-53),
      Holds (parts (n.toFloat / (9007199254740992 : UInt64).toFloat)) .positive v := by
  have hpos : 0 < n.toNat := Nat.pos_of_ne_zero fun h => hn (UInt64.toNat_inj.mp h)
  obtain ⟨m, e, hm, hparts, -, hval⟩ := exists_parts_toFloat hn
  rw [rounded_natCast hpos hlt] at hval
  have hle : scaled m e / scaled (2 ^ 52) 1 ≤ scaled (2 ^ 53 - 1) (-53) := by
    have hsteps : scaled (2 ^ 52) 1 = 2 ^ 53 := by unfold scaled; norm_num
    have hlast : scaled (2 ^ 53 - 1) (-53) = ((2 ^ 53 - 1 : ℕ) : ℚ) / 2 ^ 53 := by
      unfold scaled
      norm_num
    rw [hval, hsteps, hlast]
    exact div_le_div_of_nonneg_right (by exact_mod_cast Nat.le_sub_one_of_lt hlt) (by norm_num)
  have hrounded : rounded (scaled m e / scaled (2 ^ 52) 1) ≤ scaled (2 ^ 53 - 1) (-53) := by
    rw [← rounded_scaled (by decide : 0 < 2 ^ 53 - 1) canonical_last]
    exact rounded_mono (div_pos (scaled_pos hm e) (scaled_pos (by decide) 1)) hle
  have hholds : Holds (UnpackedFloat.div Format.binary64 (.finite .positive m e hm)
      (.finite .positive (2 ^ 52) 1 (by decide))) .positive
      (rounded (scaled m e / scaled (2 ^ 52) 1)) := div_holds .positive .positive hm (by decide)
  refine ⟨_, hrounded, ?_⟩
  rw [parts_div, hparts, parts_steps,
    hholds.refit_eq (hrounded.trans (by unfold scaled; norm_num))]
  exact hholds

/-- **Every draw is below one.** -/
theorem uniform_lt_one {lib : Library} (w : UInt64) :
    (Scalar.uniform w : Binary64 lib) < 1 := by
  show (w >>> 11).toFloat / (9007199254740992 : UInt64).toFloat < (1 : Float)
  have hlt : (w >>> 11).toNat < 2 ^ 53 := steps_lt w
  generalize w >>> 11 = n at hlt ⊢
  by_cases hn : n = 0
  · rw [hn]
    decide +kernel
  · obtain ⟨v, hv, hholds⟩ := steps_div_holds hn hlt
    exact lt_one_of_holds hholds hv

end Binary64

/-! ## §3. Judgements without an estimate -/

section
variable {lib : Library} {γ π σ μ : Type} [Generator γ]

open Binary64

/-- A chance under a scale of zero is taken by every word, unless the exponent is NaN. -/
theorem takes_unlearned (hlib : lib.ExpAtZero) {delta temperature : Float} (worsens : ¬ delta ≤ 0)
    (warm : 0 < temperature) (w : UInt64) :
    (Verdict.chance (Tuning.acceptance 0 delta temperature : Binary64 lib)).takes w = true
      ↔ ¬ (delta.isNaN = true ∨ delta = 1 / 0) := by
  have htakes : (Verdict.chance (Tuning.acceptance 0 delta temperature : Binary64 lib)).takes w = true
      ↔ (Scalar.uniform w : Binary64 lib) < lib.exp (-0 * delta / temperature) :=
    decide_eq_true_iff
  rw [htakes]
  by_cases hspecial : delta.isNaN = true ∨ delta = 1 / 0
  · have hnan := hlib.exp_nan _ (isNaN_exponent hspecial temperature)
    exact iff_of_false (not_lt_of_isNaN hnan) (not_not.mpr hspecial)
  · refine iff_of_true ?_ hspecial
    obtain hnan | hinfinity | ⟨m, e, hm, hparts⟩ := parts_of_not_le_zero worsens
    · exact absurd (.inl hnan) hspecial
    · exact absurd (.inr hinfinity) hspecial
    · rw [exponent_eq_neg_zero hparts warm, hlib.exp_neg_zero]
      exact uniform_lt_one w

/-- **Without an estimate and a given scale, and outside the learning window**, a difference is
taken by every word while the search is warm, unless it is NaN or infinite; and otherwise if it
does not worsen the cost. -/
theorem Tuning.judge_unlearned (hlib : lib.ExpAtZero) {t : Tuning (Binary64 lib)} {i : UInt64}
    (hscale : ¬ 0 < t.scale) (houtside : t.inLearningWindow i = false) (delta : Binary64 lib)
    (w : UInt64) :
    (0 < t.temperature i →
      ((t.judge i .empty delta).1.takes w = true ↔ ¬ (Scalar.isNaN delta = true ∨ delta = 1 / 0)))
    ∧ (¬ 0 < t.temperature i →
      ((t.judge i .empty delta).1.takes w = true ↔ delta ≤ 0)) := by
  have hjudges := t.judge_judges i .empty delta
  generalize (t.judge i .empty delta).1 = verdict at hjudges ⊢
  generalize (t.judge i .empty delta).2 = e at hjudges
  cases hjudges with
  | improving improves =>
      exact ⟨fun _ => iff_of_true rfl fun h => (not_le_zero_of_special h).1 improves,
        fun _ => iff_of_true rfl improves⟩
  | cold worsens cold =>
      exact ⟨fun warm => absurd warm cold, fun _ => iff_of_false Bool.false_ne_true worsens⟩
  | given _ _ given => exact absurd given hscale
  | learning _ _ _ inside => exact absurd (inside.symm.trans houtside) (by simp)
  | frozen worsens warm _ _ =>
      exact ⟨fun _ => takes_unlearned hlib worsens warm w, fun cold => absurd warm cold⟩

/-! ## §4. Outside the window -/

namespace Problem

variable {α : Type} [Scalar α] {problem : Problem α π σ μ}

/-- What each iteration preserves with one less to go holds wherever a loop begins one. -/
theorem mem_attempts_invariant {J : Nat → Progress α γ π σ → Prop}
    (preserves : ∀ n p, J (n + 1) p → J n (problem.iterate p).1) (n : Nat) :
    ∀ {p x : Progress α γ π σ}, J n p → x ∈ problem.attempts n p → ∃ m, J (m + 1) x := by
  induction n with
  | zero => intro p x _ hx; exact absurd hx List.not_mem_nil
  | succ n ih =>
      intro p x hp hx
      unfold attempts at hx
      rcases List.mem_cons.mp hx with rfl | hx
      · exact ⟨n, hp⟩
      · have hnext := preserves n p hp
        cases hi : problem.iterate p with
        | mk q failure =>
            rw [hi] at hx hnext
            cases failure with
            | some reason => exact absurd hx List.not_mem_nil
            | none =>
                cases hab : q.isAborted with
                | true =>
                    simp only [hab, if_true] at hx
                    exact absurd hx List.not_mem_nil
                | false =>
                    simp only [hab, Bool.false_eq_true, if_false] at hx
                    exact ih hnext hx

end Problem

namespace Search

variable {α : Type} [Scalar α] [CountsInOrder α] {problem : Problem α π σ μ}

/-- **Outside the window, every iteration begins with the tuning and the estimate of the
first**, and outside. -/
theorem isFrozen_of_mem_attempts {q : Progress α γ π σ} :
    ∀ {cs : List (Command α π σ)} {s : Search α γ π σ}, (∀ c ∈ cs, c.goesOn = true) →
      s.annealer.inLearningWindow = false → q ∈ s.attempts problem cs →
      ∃ n, q.IsFrozen s.annealer.tuning s.annealer.estimate n := by
  intro cs
  induction cs with
  | nil => intro s _ _ hq; exact absurd hq List.not_mem_nil
  | cons c cs ih =>
      intro s hcs outside hq
      obtain ⟨hc, hcs⟩ := List.forall_mem_cons.mp hcs
      rcases List.mem_append.mp hq with hq | hq
      · unfold attemptsOf at hq
        cases hreq : c.request with
        | none =>
            rw [hreq] at hq
            exact absurd hq List.not_mem_nil
        | some request =>
            obtain ⟨start, n⟩ := request
            rw [hreq] at hq
            have hstart : (s.annealer.start s.flags (start.getD s.state)).IsFrozen
                s.annealer.tuning s.annealer.estimate (s.annealer.allowed n) :=
              ⟨rfl, rfl, outside, s.annealer.iteration_add_allowed_lt n⟩
            obtain ⟨m, hm⟩ := Problem.mem_attempts_invariant
              (J := fun n p => p.IsFrozen s.annealer.tuning s.annealer.estimate n)
              (fun _ _ hp => hp.iterate problem) _ hstart hq
            exact ⟨_, hm⟩
      · obtain ⟨hnext, hestimate⟩ := s.perform_outside problem hc outside
        have hlater := ih hcs hnext hq
        rwa [hestimate, s.perform_tuning problem hc] at hlater

end Search

/-! ## §5. Every history -/

namespace Search

/-- **A search that has learned nothing takes everything.**  Take a new search after a history
`earlier`, whose runs may have failed as long as the samples can be counted.  Let it have no
sample and no given scale, and stand outside the learning window.  Let it go on with `later`,
in which it is neither reset nor tuned.

  * It never has an estimate again, at the end or wherever it begins an iteration.
  * Whatever it is proposed there, the next word decides by the judgement.
  * At a positive temperature every word takes a difference that is neither NaN nor positive
    infinity, and none takes one that is.
  * At a temperature that is zero, negative or NaN, every word takes a difference that is at most
    zero, and none takes another. -/
theorem history_unlearned (hlib : lib.ExpAtZero) (problem : Problem (Binary64 lib) π σ μ)
    (memory : π) (tuning : Tuning (Binary64 lib)) (generator : γ) (abort : AbortHandle)
    (flags : FlagBoard) (state : σ) (earlier later : List (Command (Binary64 lib) π σ)) :
    let first : Search (Binary64 lib) γ π σ :=
      ⟨.create memory tuning generator abort, flags, state⟩
    let s := (first.performAll problem earlier).1
    let reports := (first.performAll problem earlier).2
    (∀ r ∈ reports, ∃ o, r.result = .ok o)
        ∨ (first.taught problem [] earlier).length < UInt64.size →
    s.annealer.estimate.samples = 0 → ¬ 0 < s.annealer.tuning.scale →
    s.annealer.inLearningWindow = false → (∀ c ∈ later, c.goesOn = true) →
    (s.performAll problem later).1.annealer.estimate = .empty
    ∧ ∀ q ∈ s.attempts problem later,
        let verdict (delta : Binary64 lib) :=
          (q.annealer.tuning.judge q.annealer.iteration q.annealer.estimate delta).1
        q.annealer.estimate = .empty
        ∧ (∀ asked answer, problem.propose q = (asked, answer) → ∀ delta,
            (asked.weigh delta).2
              = (verdict delta).takes (Generator.next asked.annealer.generator).1)
        ∧ ∀ delta w,
            (0 < q.annealer.temperature → ((verdict delta).takes w = true
              ↔ ¬ (Scalar.isNaN delta = true ∨ delta = 1 / 0)))
            ∧ (¬ 0 < q.annealer.temperature → ((verdict delta).takes w = true ↔ delta ≤ 0)) := by
  intro first s reports hcounted hnone hscale houtside hlater
  have hfew : (first.taught problem [] earlier).length < UInt64.size := by
    rcases hcounted with hok | hfew
    · have hnothing : first.annealer.HasLearned problem
          ([] : List (Iteration (Binary64 lib) γ π σ μ)) := .nil rfl rfl
      have hmore : ([] : List (Iteration (Binary64 lib) γ π σ μ)).length ≤ s.annealer.allowed 0 :=
        Nat.zero_le _
      have hlt := length_taught_lt hnothing hok hmore
      rwa [lessons, List.filterMap_nil, List.append_nil] at hlt
    · exact hfew
  have hempty : s.annealer.estimate = .empty := estimate_eq_empty (s := first) rfl hfew hnone
  refine ⟨((s.performAll_outside problem hlater houtside).2).trans hempty, fun q hq => ?_⟩
  obtain ⟨n, htuning, hestimate, hout, -⟩ := isFrozen_of_mem_attempts hlater houtside hq
  intro verdict
  have hq' : q.annealer.estimate = .empty := hestimate.trans hempty
  refine ⟨hq', fun asked answer h delta => ?_, fun delta w => ?_⟩
  · exact Progress.weigh_takes h delta
  · have hjudge := Tuning.judge_unlearned hlib hscale hout delta w
    rw [← htuning, ← hq'] at hjudge
    exact hjudge

end Search

end

/-! ## §6. A lamp under a scale that is taken away -/

namespace Walk

/-- The learning window is spent under a given scale, which is then taken away. -/
def lent : List (Command (Binary64 .special) Unit Bool) :=
  [.setScale 1, .run none 3, .setScale 0]

/-- Two runs, and a request to stop between them. -/
def afterwards : List (Command (Binary64 .special) Unit Bool) :=
  [.run none 4, .abort, .runBatch (some true)]

end Walk

/-- The lamp has learned nothing, and would be switched at any finite cost. -/
theorem Search.history_unlearned_lamp :
    let s := (Walk.unlit.performAll Walk.lamp Walk.lent).1
    (∀ r ∈ (Walk.unlit.performAll Walk.lamp Walk.lent).2, ∃ o, r.result = .ok o)
    ∧ s.annealer.estimate.samples = 0 ∧ ¬ 0 < s.annealer.tuning.scale
    ∧ s.annealer.inLearningWindow = false ∧ (∀ c ∈ Walk.afterwards, c.goesOn = true)
    ∧ (s.performAll Walk.lamp Walk.afterwards).1.annealer.estimate = .empty
    ∧ (s.attempts Walk.lamp Walk.afterwards).length = 5
    ∧ ∀ q ∈ s.attempts Walk.lamp Walk.afterwards, 0 < q.annealer.temperature → ∀ w,
        (q.annealer.tuning.judge q.annealer.iteration q.annealer.estimate 1000.0).1.takes w
          = true := by
  intro s
  have hok := performAll_returns Walk.lamp_neverFails Walk.lent Walk.unlit
  have hnone : s.annealer.estimate.samples = 0 := by decide +kernel
  have hscale : ¬ 0 < s.annealer.tuning.scale := by decide +kernel
  have houtside : s.annealer.inLearningWindow = false := by decide +kernel
  have hlater : ∀ c ∈ Walk.afterwards, c.goesOn = true := by decide
  have hfinite : ¬ (Scalar.isNaN (1000.0 : Binary64 .special) = true
      ∨ (1000.0 : Binary64 .special) = 1 / 0) := by
    rintro (hnan | hinfinity)
    · exact absurd hnan (by decide +kernel)
    · have hparts := congrArg Scalar.isFinite hinfinity
      exact absurd hparts (by decide +kernel)
  have hstart : (⟨.create () Walk.unlit.annealer.tuning Walk.unlit.annealer.generator ⟨0⟩,
      Walk.unlit.flags, Walk.unlit.state⟩ : Search (Binary64 .special) Cycle Unit Bool)
      = Walk.unlit := rfl
  have h := history_unlearned Library.special_expAtZero Walk.lamp () Walk.unlit.annealer.tuning
    Walk.unlit.annealer.generator ⟨0⟩ Walk.unlit.flags Walk.unlit.state Walk.lent Walk.afterwards
  rw [hstart] at h
  obtain ⟨hempty, hpoints⟩ := h (.inl hok) hnone hscale houtside hlater
  have hs : (Walk.unlit.performAll Walk.lamp Walk.lent).1 = s := rfl
  rw [hs] at hempty hpoints
  refine ⟨hok, hnone, hscale, houtside, hlater, hempty, by decide +kernel, fun q hq warm w => ?_⟩
  obtain ⟨-, -, hverdict⟩ := hpoints q hq
  exact ((hverdict 1000.0 w).1 warm).mpr hfinite

end Annealing
