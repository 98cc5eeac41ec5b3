/-
  Annealing.Proofs.Cooling
  ────────────────────────
  **COOLING IN EXACT ARITHMETIC, AND THE GREEDY TAIL.**

  In exact arithmetic both built-in schedules fall strictly, from one to the
  final temperature when the budget is spent.  Exponential cooling stays above
  zero, so every worsening move is left to chance, at the price of one word.
  Linear cooling is at zero once the iteration is 100/99 of the budget.  The
  counter never falls in a search that goes on as it is tuned, so from there on
  the search takes no risk and is greedy for good.

    • `temperature_strictAnti`, `linear_nonpos_iff` — the schedules,
    • `later_of_mem_attempts` — where a search that goes on begins its iterations,
    • `history_cooling` — what follows for every history.
-/
import Annealing.Proofs.Exact
import Annealing.Proofs.Greedy
import Annealing.Proofs.Relevance
import Annealing.Proofs.Unlearned
import Annealing.Proofs.Words

namespace Annealing

/-! ## §1. The schedules -/

namespace Schedule

theorem linear_eq (x budget : ℝ) :
    Schedule.linear.temperature x budget = 1 - 99 / 100 * (x / budget) := by
  show (1 : ℝ) - (1 - 0.01) * (x / budget) = _
  norm_num

theorem exponential_eq (x budget : ℝ) :
    Schedule.exponential.temperature x budget = (1 / 100 : ℝ) ^ (x / budget) := by
  show (0.01 : ℝ) ^ (x / budget) = _
  norm_num

variable {schedule : Schedule ℝ} {budget : ℝ}

/-- **The built-in schedules fall strictly.** -/
theorem temperature_strictAnti (builtIn : schedule.isBuiltIn = true) (pos : 0 < budget) {x y : ℝ}
    (h : x < y) : schedule.temperature y budget < schedule.temperature x budget := by
  have hshare : x / budget < y / budget := div_lt_div_of_pos_right h pos
  cases schedule with
  | exponential =>
      rw [exponential_eq, exponential_eq]
      exact Real.rpow_lt_rpow_of_exponent_gt (by norm_num) (by norm_num) hshare
  | linear =>
      rw [linear_eq, linear_eq]
      linarith
  | custom rule => cases builtIn

theorem temperature_zero (builtIn : schedule.isBuiltIn = true) :
    schedule.temperature 0 budget = 1 := by
  cases schedule with
  | exponential => rw [exponential_eq, zero_div, Real.rpow_zero]
  | linear => rw [linear_eq, zero_div, mul_zero, sub_zero]
  | custom rule => cases builtIn

theorem temperature_budget (builtIn : schedule.isBuiltIn = true) (pos : 0 < budget) :
    schedule.temperature budget budget = 1 / 100 := by
  cases schedule with
  | exponential => rw [exponential_eq, div_self pos.ne', Real.rpow_one]
  | linear =>
      rw [linear_eq, div_self pos.ne']
      norm_num
  | custom rule => cases builtIn

theorem temperature_of_share (builtIn : schedule.isBuiltIn = true) {x x' budget' : ℝ}
    (h : x' / budget' = x / budget) :
    schedule.temperature x' budget' = schedule.temperature x budget := by
  cases schedule with
  | exponential => rw [exponential_eq, exponential_eq, h]
  | linear => rw [linear_eq, linear_eq, h]
  | custom rule => cases builtIn

theorem exponential_pos (x budget : ℝ) : 0 < Schedule.exponential.temperature x budget := by
  rw [exponential_eq]
  exact Real.rpow_pos_of_pos (by norm_num) _

/-- **Linear cooling reaches zero when the iteration is 100/99 of the budget.** -/
theorem linear_nonpos_iff (pos : 0 < budget) (x : ℝ) :
    Schedule.linear.temperature x budget ≤ 0 ↔ 100 * budget ≤ 99 * x := by
  rw [linear_eq, sub_nonpos, ← mul_div_assoc, le_div_iff₀ pos]
  constructor <;> intro h <;> linarith

end Schedule

/-! ## §2. Searches that go on -/

/-- The run has these settings, is at this iteration or a later one, and has at least so many
iterations to go before its counter is full. -/
structure Progress.IsLater {α γ π σ : Type} (t : Tuning α) (i : UInt64) (n : Nat)
    (p : Progress α γ π σ) : Prop where
  tuning : p.annealer.tuning = t
  later : i ≤ p.annealer.iteration
  room : p.annealer.iteration.toNat + n < UInt64.size

theorem Command.isReset_of_goesOn {α π σ : Type} (c : Command α π σ) (h : c.goesOn = true) :
    c.isReset = false := by
  cases c <;> first | rfl | cases h

section
variable {α γ π σ μ : Type} [Scalar α] [Generator γ]

theorem Progress.IsLater.iterate {t : Tuning α} {i : UInt64} {n : Nat} {p : Progress α γ π σ}
    (h : p.IsLater t i (n + 1)) (problem : Problem α π σ μ) :
    (problem.iterate p).1.IsLater t i n := by
  obtain ⟨htuning, hlater, hroom⟩ := h
  have hnext : (p.annealer.iteration + 1).toNat = p.annealer.iteration.toNat + 1 :=
    toNat_add_one_of_lt (by omega)
  refine ⟨(problem.iterate_tuning p).trans htuning, ?_, ?_⟩
  · rcases problem.iterate_iteration p with heq | heq <;> rw [heq]
    · exact hlater
    · rw [UInt64.le_iff_toNat_le] at hlater ⊢
      omega
  · rcases problem.iterate_iteration p with heq | heq <;> rw [heq] <;> omega

namespace Search

variable {problem : Problem α π σ μ}

omit [Scalar α] [Generator γ] in
theorem isLater_start (s : Search α γ π σ) (state : σ) (n : UInt64) :
    (s.annealer.start s.flags state).IsLater s.annealer.tuning s.annealer.iteration
      (s.annealer.allowed n) :=
  ⟨rfl, UInt64.le_refl _, s.annealer.iteration_add_allowed_lt n⟩

/-- The counter counts the iterations that are completed. -/
theorem perform_iteration (s : Search α γ π σ) (problem : Problem α π σ μ) {c : Command α π σ}
    (hc : c.isReset = false) :
    (s.perform problem c).1.annealer.iteration.toNat
      = s.annealer.iteration.toNat + (s.iterationsOf problem c).length := by
  unfold iterationsOf
  cases hreq : c.request with
  | none =>
      rw [perform_iteration_of_no_request s problem hreq hc]
      rfl
  | some request =>
      obtain ⟨start, n⟩ := request
      obtain ⟨r, q, hr, hq, ha, -⟩ :=
        s.annealer.run_passes problem s.flags (start.getD s.state) n
      obtain ⟨_, _, hends⟩ := s.annealer.iterations_ends problem s.flags (start.getD s.state) n
      rw [perform_of_request s problem hreq]
      show (s.annealer.run problem s.flags _ n).annealer.iteration.toNat = _
      rw [ha, hq.iteration]
      exact Annealer.iteration_toNat_of_passes hr hends.length_le

theorem performAll_iteration {cs : List (Command α π σ)} :
    ∀ {s : Search α γ π σ}, (∀ c ∈ cs, c.isReset = false) →
      (s.performAll problem cs).1.annealer.iteration.toNat
        = s.annealer.iteration.toNat + (s.allIterations problem cs).length := by
  induction cs with
  | nil => intro s _; rfl
  | cons c cs ih =>
      intro s hcs
      obtain ⟨hc, hcs⟩ := List.forall_mem_cons.mp hcs
      rw [performAll_cons, ih hcs, s.perform_iteration problem hc, allIterations,
        List.length_append]
      omega

theorem perform_later (s : Search α γ π σ) (problem : Problem α π σ μ) {c : Command α π σ}
    (hc : c.goesOn = true) : s.annealer.iteration ≤ (s.perform problem c).1.annealer.iteration := by
  rw [UInt64.le_iff_toNat_le, s.perform_iteration problem (c.isReset_of_goesOn hc)]
  exact Nat.le_add_right _ _

theorem isLater_of_mem_attemptsOf {s : Search α γ π σ} {c : Command α π σ} {q : Progress α γ π σ}
    (hq : q ∈ s.attemptsOf problem c) :
    ∃ m, q.IsLater s.annealer.tuning s.annealer.iteration (m + 1) := by
  unfold attemptsOf at hq
  cases hreq : c.request with
  | none =>
      rw [hreq] at hq
      exact absurd hq List.not_mem_nil
  | some request =>
      obtain ⟨start, n⟩ := request
      rw [hreq] at hq
      exact Problem.mem_attempts_invariant
        (J := fun n p => p.IsLater s.annealer.tuning s.annealer.iteration n)
        (fun _ _ hp => hp.iterate problem) _ (s.isLater_start _ n) hq

/-- **A search that goes on begins every iteration with the tuning it has, at its counter or
later.** -/
theorem later_of_mem_attempts {q : Progress α γ π σ} {cs : List (Command α π σ)} :
    ∀ {s : Search α γ π σ}, (∀ c ∈ cs, c.goesOn = true) → q ∈ s.attempts problem cs →
      q.annealer.tuning = s.annealer.tuning ∧ s.annealer.iteration ≤ q.annealer.iteration := by
  induction cs with
  | nil => intro s _ hq; exact absurd hq List.not_mem_nil
  | cons c cs ih =>
      intro s hcs hq
      obtain ⟨hc, hcs⟩ := List.forall_mem_cons.mp hcs
      rcases List.mem_append.mp hq with hq | hq
      · obtain ⟨m, hm⟩ := isLater_of_mem_attemptsOf hq
        exact ⟨hm.tuning, hm.later⟩
      · obtain ⟨htuning, hlater⟩ := ih hcs hq
        rw [s.perform_tuning problem hc] at htuning
        exact ⟨htuning, UInt64.le_trans (s.perform_later problem hc) hlater⟩

/-- **Without risk, a history without a reset learns nothing.** -/
theorem performAll_estimate_of_riskless {cs : List (Command α π σ)} :
    ∀ {s : Search α γ π σ}, (∀ c ∈ cs, c.isReset = false) →
      (∀ p ∈ s.attempts problem cs, problem.Riskless p) →
      (s.performAll problem cs).1.annealer.estimate = s.annealer.estimate := by
  induction cs with
  | nil => intro s _ _; rfl
  | cons c cs ih =>
      intro s hcs hr
      obtain ⟨hc, hcs⟩ := List.forall_mem_cons.mp hcs
      obtain ⟨hfirst, hrest⟩ := List.forall_mem_append.mp hr
      rw [performAll_cons]
      exact (ih hcs hrest).trans (perform_estimate_of_riskless hfirst hc)

end Search

/-- The generator that an iteration leaves is the one that its decision leaves, also if the
problem fails in it. -/
theorem Problem.iterate_generator {problem : Problem α π σ μ} {p asked : Progress α γ π σ}
    {proposal : Proposal α μ} (h : problem.propose p = (asked, .ok proposal)) :
    (problem.iterate p).1.annealer.generator
      = (asked.weigh proposal.delta).1.annealer.generator := by
  have hcarries : ∀ (q : Progress α γ π σ) move,
      (problem.carryOut q move).1.annealer.generator = q.annealer.generator := fun _ _ => rfl
  unfold iterate
  simp only [h]
  cases hw : asked.weigh proposal.delta with
  | mk weighed taken =>
      cases taken with
      | false => rfl
      | true =>
          have hcarried := hcarries weighed proposal.move
          simp only
          cases hu : problem.carryOut weighed proposal.move with
          | mk u answer =>
              rw [hu] at hcarried
              cases answer <;> exact hcarried

end

/-! ## §3. Histories -/

section
variable {γ π σ μ : Type} [Generator γ] {problem : Problem ℝ π σ μ} {s : Search ℝ γ π σ}
  {p asked : Progress ℝ γ π σ} {proposal : Proposal ℝ μ} {cs : List (Command ℝ π σ)}

/-- **Past 100/99 of the budget, linear cooling takes no risk.** -/
theorem Search.riskless_of_mem_attempts (linear : s.annealer.tuning.schedule = .linear)
    (pos : 0 < s.annealer.tuning.budget)
    (spent : 100 * s.annealer.tuning.budget ≤ 99 * (s.annealer.iteration.toNat : ℝ))
    (hcs : ∀ c ∈ cs, c.goesOn = true) (hp : p ∈ s.attempts problem cs) : problem.Riskless p := by
  obtain ⟨htuning, hlater⟩ := later_of_mem_attempts hcs hp
  have hcounter : (s.annealer.iteration.toNat : ℝ) ≤ p.annealer.iteration.toNat := by
    exact_mod_cast UInt64.le_iff_toNat_le.mp hlater
  have hcold : p.annealer.temperature ≤ 0 := by
    unfold Annealer.temperature Tuning.temperature
    rw [htuning, linear]
    exact (Schedule.linear_nonpos_iff pos _).mpr
      (spent.trans (mul_le_mul_of_nonneg_left hcounter (by norm_num)))
  exact fun _ _ => .inr (not_lt.mpr hcold)

omit [Generator γ] in
/-- **Exponential cooling is never cold.** -/
theorem Annealer.temperature_pos {a : Annealer ℝ γ π}
    (exponential : a.tuning.schedule = .exponential) : 0 < a.temperature := by
  unfold temperature Tuning.temperature
  rw [exponential]
  exact Schedule.exponential_pos _ _

/-- **At a positive temperature every worsening difference costs a word**, and no other does. -/
theorem Problem.iterate_generator_of_warm (warm : 0 < p.annealer.temperature)
    (h : problem.propose p = (asked, .ok proposal)) :
    (problem.iterate p).1.annealer.generator
      = Generator.after (if 0 < proposal.delta then 1 else 0) asked.annealer.generator := by
  have hkeeps := Progress.Keeps.propose h
  have hwarm : 0 < asked.annealer.tuning.temperature asked.annealer.iteration := by
    rw [hkeeps.tuning, hkeeps.iteration]
    exact warm
  rw [Problem.iterate_generator h, Progress.weigh_eq]
  refine (Tuning.judge_settle_generator _ _ _ _ _).trans ?_
  by_cases hworsens : 0 < proposal.delta
  · rw [if_pos ⟨not_le.mpr hworsens, hwarm⟩, if_pos hworsens]
  · rw [if_neg fun chance => hworsens (not_le.mp chance.1), if_neg hworsens]

end

namespace Search

variable {γ π σ μ : Type} [Generator γ]

/-- **Cooling in exact arithmetic.**  For every positive budget the built-in schedules fall
strictly, from one at the start to 1/100 when the budget is spent, and depend on the share of
the budget alone; exponential cooling is positive, and linear cooling is not from 100/99 of
the budget on.

  * A search with linear cooling whose counter has come so far, and that goes on without a reset
    or another tuning, decides each proposal by comparing its difference with zero, draws no
    word for it, and learns nothing, whether the problem fails or not.
  * A search with exponential cooling, whatever else happens to it, is never cold where it
    begins an iteration, and each proposal that worsens the cost costs it exactly one word. -/
theorem history_cooling (s : Search ℝ γ π σ) (problem : Problem ℝ π σ μ)
    (cs : List (Command ℝ π σ)) :
    (∀ budget : ℝ, 0 < budget →
      (∀ schedule : Schedule ℝ, schedule.isBuiltIn = true →
        (∀ x y : ℝ, x < y → schedule.temperature y budget < schedule.temperature x budget)
        ∧ schedule.temperature 0 budget = 1
        ∧ schedule.temperature budget budget = 1 / 100
        ∧ ∀ x x' budget' : ℝ, x' / budget' = x / budget →
            schedule.temperature x' budget' = schedule.temperature x budget)
      ∧ (∀ x : ℝ, 0 < Schedule.exponential.temperature x budget)
      ∧ ∀ x : ℝ, Schedule.linear.temperature x budget ≤ 0 ↔ 100 * budget ≤ 99 * x)
    ∧ (s.annealer.tuning.schedule = .linear → 0 < s.annealer.tuning.budget →
        100 * s.annealer.tuning.budget ≤ 99 * (s.annealer.iteration.toNat : ℝ) →
        (∀ c ∈ cs, c.goesOn = true) →
        (∀ p ∈ s.attempts problem cs, ∀ asked proposal,
          problem.propose p = (asked, .ok proposal) →
            ((asked.weigh proposal.delta).2 = true ↔ proposal.delta ≤ 0)
            ∧ (problem.iterate p).1.annealer.generator = asked.annealer.generator
            ∧ (problem.iterate p).1.annealer.estimate = p.annealer.estimate)
        ∧ (∀ it ∈ s.allIterations problem cs, it.taken = true ↔ it.delta ≤ 0)
        ∧ (s.performAll problem cs).1.annealer.estimate = s.annealer.estimate)
    ∧ (s.annealer.tuning.schedule = .exponential → (∀ c ∈ cs, c.keepsSchedule = true) →
        ∀ p ∈ s.attempts problem cs, 0 < p.annealer.temperature
          ∧ ∀ asked proposal, problem.propose p = (asked, .ok proposal) →
              (problem.iterate p).1.annealer.generator
                = Generator.after (if 0 < proposal.delta then 1 else 0)
                    asked.annealer.generator) := by
  refine ⟨fun budget pos => ⟨fun schedule builtIn => ⟨fun x y h => ?_, ?_, ?_, ?_⟩, ?_, ?_⟩,
    fun linear pos spent hcs => ?_, fun exponential hcs p hp => ?_⟩
  · exact Schedule.temperature_strictAnti builtIn pos h
  · exact Schedule.temperature_zero builtIn
  · exact Schedule.temperature_budget builtIn pos
  · exact fun _ _ _ => Schedule.temperature_of_share builtIn
  · exact fun x => Schedule.exponential_pos x budget
  · exact Schedule.linear_nonpos_iff pos
  · have hr : ∀ p ∈ s.attempts problem cs, problem.Riskless p :=
      fun p hp => riskless_of_mem_attempts linear pos spent hcs hp
    refine ⟨fun p hp asked proposal h => ⟨?_, ?_, ?_⟩, fun it hit => ?_, ?_⟩
    · rw [(hr p hp).weigh h]
      exact decide_eq_true_iff
    · rw [Problem.iterate_generator h, (hr p hp).weigh h]
    · rw [(hr p hp).iterate_eq, problem.greedily_estimate]
    · have hgreedy := (completes_of_mem_allIterations hit).of_riskless
        (hr _ (before_mem_attempts hit))
      rw [hgreedy.1]
      exact decide_eq_true_iff
    · exact performAll_estimate_of_riskless (fun c hc => c.isReset_of_goesOn (hcs c hc)) hr
  · have hschedule := (schedule_of_mem_attempts hcs hp).trans exponential
    have hwarm := Annealer.temperature_pos hschedule
    exact ⟨hwarm, fun asked proposal h => Problem.iterate_generator_of_warm hwarm h⟩

/-- A walk whose steps worsen the cost, at iteration 102 of 100. -/
noncomputable def lateWalk (schedule : Schedule ℝ) : Search ℝ Cycle Unit Int where
  annealer :=
    { Annealer.create () ⟨100, 0, schedule, none⟩ (.ofWords #[1, 5]) ⟨0⟩ with iteration := 102 }
  flags := ⟨#[false]⟩
  state := 0

/-- With linear cooling it refuses every step, and with exponential cooling it leaves every step
to chance. -/
theorem history_cooling_lateWalk :
    let walk : Problem ℝ Unit Int Int :=
      .ofFunctions (fun _ _ _ => ⟨(), [], .ok ⟨1, 3⟩⟩) (fun _ x step => ⟨(), [], .ok (x + step)⟩)
    let cs : List (Command ℝ Unit Int) := [.run none 30, .abort, .run none 2]
    (∀ it ∈ (lateWalk .linear).allIterations walk cs, it.taken = true ↔ it.delta ≤ 0)
    ∧ ((lateWalk .linear).performAll walk cs).1.annealer.estimate = .empty
    ∧ ∀ p ∈ (lateWalk .exponential).attempts walk cs, 0 < p.annealer.temperature := by
  intro walk cs
  have hpos : (0 : ℝ) < 100 := by norm_num
  have hspent : (100 : ℝ) * 100 ≤ 99 * ((102 : UInt64).toNat : ℝ) := by
    rw [show (102 : UInt64).toNat = 102 from rfl]
    norm_num
  obtain ⟨-, hlinear, -⟩ := history_cooling (lateWalk .linear) walk cs
  obtain ⟨-, -, hexponential⟩ := history_cooling (lateWalk .exponential) walk cs
  obtain ⟨-, htaken, hestimate⟩ := hlinear rfl hpos hspent (by decide)
  exact ⟨htaken, hestimate, fun p hp => (hexponential rfl (by decide) p hp).1⟩

end Search

end Annealing
