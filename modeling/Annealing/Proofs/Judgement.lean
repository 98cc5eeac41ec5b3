/-
  Annealing.Proofs.Judgement
  ──────────────────────────
  **HOW A COST DIFFERENCE IS JUDGED, AND WHAT THAT DOES TO THE ESTIMATE.**

  `Tuning.Judges` has one constructor for each way through a judgement.  Only one
  of them changes the estimate: it takes in a worsening difference, inside the
  learning window.  So whatever taking in such a difference preserves holds of the
  estimate at every point that a search reaches, also after an iteration in which
  the problem failed between the judgement and the end.

    • `judge_judges` — a judgement goes one of these ways,
    • `settle_takes` — of the generator, only the next word decides,
    • `Annealer.run_invariant` — what each iteration preserves, failed or not, a
      run preserves,
    • `performAll_estimate`, `Reaches.estimate` — invariants of the estimate.
-/
import Annealing.Proofs.History

namespace Annealing

/-! ## §1. The ways through a judgement -/

section
variable {α : Type} [Scalar α]

/-- **The judgement of a cost difference**: the verdict, and the estimate after it. -/
inductive Tuning.Judges (t : Tuning α) (i : UInt64) (e : ScaleEstimate α) (delta : α) :
    Verdict α → ScaleEstimate α → Prop where
  /-- The difference does not worsen the cost. -/
  | improving (improves : delta ≤ 0) : Judges t i e delta .taken e
  /-- It does, and the temperature is not positive. -/
  | cold (worsens : ¬ delta ≤ 0) (cold : ¬ 0 < t.temperature i) :
      Judges t i e delta .refused e
  /-- The scale is given. -/
  | given (worsens : ¬ delta ≤ 0) (warm : 0 < t.temperature i) (scale : 0 < t.scale) :
      Judges t i e delta (.chance (acceptance t.scale delta (t.temperature i))) e
  /-- The scale is the estimate, with this difference taken in. -/
  | learning (worsens : ¬ delta ≤ 0) (warm : 0 < t.temperature i) (scale : ¬ 0 < t.scale)
      (inside : t.inLearningWindow i = true) :
      Judges t i e delta (.chance (acceptance (e.fold delta).mean delta (t.temperature i)))
        (e.fold delta)
  /-- The scale is the estimate as it was. -/
  | frozen (worsens : ¬ delta ≤ 0) (warm : 0 < t.temperature i) (scale : ¬ 0 < t.scale)
      (outside : t.inLearningWindow i = false) :
      Judges t i e delta (.chance (acceptance e.mean delta (t.temperature i))) e

theorem Tuning.judge_judges (t : Tuning α) (i : UInt64) (e : ScaleEstimate α) (delta : α) :
    t.Judges i e delta (t.judge i e delta).1 (t.judge i e delta).2 := by
  unfold judge
  by_cases hdelta : delta ≤ 0
  · rw [if_pos hdelta]
    exact .improving hdelta
  · rw [if_neg hdelta]
    by_cases hwarm : 0 < t.temperature i
    · simp only [if_pos hwarm]
      unfold scaleFor hasScale
      by_cases hscale : 0 < t.scale
      · simp only [decide_eq_true hscale, if_true]
        exact .given hdelta hwarm hscale
      · simp only [decide_eq_false hscale, Bool.false_eq_true, if_false]
        cases hwindow : t.inLearningWindow i with
        | true => exact .learning hdelta hwarm hscale hwindow
        | false => exact .frozen hdelta hwarm hscale hwindow
    · simp only [if_neg hwarm]
      exact .cold hdelta hwarm

theorem Tuning.Judges.estimate_eq {t : Tuning α} {i : UInt64} {e e' : ScaleEstimate α}
    {delta : α} {v : Verdict α} (h : t.Judges i e delta v e') :
    e' = e ∨ ¬ delta ≤ 0 ∧ t.inLearningWindow i = true ∧ e' = e.fold delta := by
  cases h with
  | improving => exact .inl rfl
  | cold => exact .inl rfl
  | given => exact .inl rfl
  | learning worsens _ _ inside => exact .inr ⟨worsens, inside, rfl⟩
  | frozen => exact .inl rfl

end

/-! ## §2. What a word decides -/

/-- Is the proposal taken if the next word is `w`? -/
def Verdict.takes {α : Type} [Scalar α] : Verdict α → UInt64 → Bool
  | .taken, _ => true
  | .refused, _ => false
  | .chance p, w => Scalar.uniform w < p

theorem Verdict.settle_takes {α γ : Type} [Scalar α] [Generator γ] (v : Verdict α) (g : γ) :
    (v.settle g).1 = v.takes (Generator.next g).1 := by
  cases v <;> rfl

/-! ## §3. Iterations and runs, failed or not -/

section
variable {α γ π σ μ : Type} [Scalar α] [Generator γ]

/-- The estimate after an iteration is that before it, or a judgement's. -/
theorem Problem.iterate_estimate_judge (problem : Problem α π σ μ) (p : Progress α γ π σ) :
    (problem.iterate p).1.annealer.estimate = p.annealer.estimate
      ∨ ∃ delta, (problem.iterate p).1.annealer.estimate
          = (p.annealer.tuning.judge p.annealer.iteration p.annealer.estimate delta).2 := by
  unfold iterate
  split
  next q reason hq =>
    have hq' : q = (problem.propose p).1 := by rw [hq]
    exact .inl (by rw [hq']; rfl)
  next q proposal hq =>
    refine .inr ⟨proposal.delta, ?_⟩
    -- proposing leaves alone what is judged, and carrying out leaves alone the estimate
    have hweigh : (q.weigh proposal.delta).1.annealer.estimate
        = (p.annealer.tuning.judge p.annealer.iteration p.annealer.estimate
            proposal.delta).2 := by
      have hq' : q = (problem.propose p).1 := by rw [hq]
      rw [hq']
      rfl
    rw [← hweigh]
    split
    next r hr =>
      rw [hr]
      rfl
    next r hr =>
      rw [hr]
      split
      next u reason hu =>
        have hu' : u = (problem.carryOut r proposal.move).1 := by rw [hu]
        rw [hu']
        rfl
      next u state hu =>
        have hu' : u = (problem.carryOut r proposal.move).1 := by rw [hu]
        rw [hu']
        rfl

/-- An iteration leaves the estimate as it is, or takes in a worsening difference inside the
learning window. -/
theorem Problem.iterate_estimate (problem : Problem α π σ μ) (p : Progress α γ π σ) :
    (problem.iterate p).1.annealer.estimate = p.annealer.estimate
      ∨ ∃ delta, ¬ delta ≤ 0
        ∧ p.annealer.tuning.inLearningWindow p.annealer.iteration = true
        ∧ (problem.iterate p).1.annealer.estimate = p.annealer.estimate.fold delta := by
  rcases problem.iterate_estimate_judge p with heq | ⟨delta, heq⟩
  · exact .inl heq
  · rw [heq]
    rcases (p.annealer.tuning.judge_judges _ _ delta).estimate_eq with h | h
    · exact .inl h
    · exact .inr ⟨delta, h⟩

/-- An iteration does not change the tuning. -/
theorem Problem.iterate_tuning (problem : Problem α π σ μ) (p : Progress α γ π σ) :
    (problem.iterate p).1.annealer.tuning = p.annealer.tuning := by
  cases hi : problem.iterate p with
  | mk q failure =>
      cases failure with
      | some reason => exact (Progress.Keeps.of_iterate_failed hi).tuning
      | none =>
          obtain ⟨it, hc, rfl, rfl⟩ := completes_of_iterate hi
          exact hc.tuning_eq

namespace Problem.Ends

variable {problem : Problem α π σ μ} {n : Nat} {p q : Progress α γ π σ}
  {its : List (Iteration α γ π σ μ)} {stop : Stop}

/-- What each iteration preserves with one iteration less to go, a loop preserves. -/
theorem invariant {J : Nat → Progress α γ π σ → Prop}
    (preserves : ∀ n p, J (n + 1) p → J n (problem.iterate p).1)
    (h : problem.Ends n p its q stop) (hp : J n p) : ∃ m, J m q := by
  induction h with
  | reached p => exact ⟨0, hp⟩
  | @failed n p q reason fails =>
      have hq := preserves n p hp
      rw [fails] at hq
      exact ⟨n, hq⟩
  | @aborted n it last _ =>
      have hq := preserves n it.before hp
      rw [last.iterate_eq] at hq
      exact ⟨n, hq⟩
  | @step n it its q stop first _ _ ih =>
      have hq := preserves n it.before hp
      rw [first.iterate_eq] at hq
      exact ih hq

end Problem.Ends

/-- **What each iteration preserves, a run preserves**, whether it returns or fails. -/
theorem Annealer.run_invariant {problem : Problem α π σ μ} {J : Nat → Progress α γ π σ → Prop}
    (preserves : ∀ n p, J (n + 1) p → J n (problem.iterate p).1) (a : Annealer α γ π)
    (flags : FlagBoard) (state : σ) (n : UInt64) (h : J (a.allowed n) (a.start flags state)) :
    ∃ m q, J m q ∧ (a.run problem flags state n).annealer = q.annealer
      ∧ (a.run problem flags state n).flags = q.flags := by
  obtain ⟨q, stop, hq⟩ := a.iterations_ends problem flags state n
  obtain ⟨m, hJ⟩ := hq.invariant preserves h
  refine ⟨m, q, hJ, ?_⟩
  cases stop with
  | reached => rw [run_of_reached hq.advance_eq]; exact ⟨rfl, rfl⟩
  | aborted => rw [run_of_aborted hq.advance_eq]; exact ⟨rfl, rfl⟩
  | failed reason => rw [run_of_failed hq.advance_eq]; exact ⟨rfl, rfl⟩

/-- Weighing a difference is judging it and settling the verdict. -/
theorem Progress.weigh_eq (p : Progress α γ π σ) (delta : α) :
    p.weigh delta
      = ({ p with
            annealer.estimate :=
              (p.annealer.tuning.judge p.annealer.iteration p.annealer.estimate delta).2
            annealer.generator :=
              ((p.annealer.tuning.judge p.annealer.iteration p.annealer.estimate delta).1.settle
                p.annealer.generator).2 },
          ((p.annealer.tuning.judge p.annealer.iteration p.annealer.estimate delta).1.settle
            p.annealer.generator).1) := rfl

/-- The decision about a proposal is the judgement's, settled with the generator as the problem
left it. -/
theorem Progress.weigh_of_propose {problem : Problem α π σ μ} {p asked : Progress α γ π σ}
    {answer : Except String (Proposal α μ)} (h : problem.propose p = (asked, answer)) (delta : α) :
    (asked.weigh delta).2
      = ((p.annealer.tuning.judge p.annealer.iteration p.annealer.estimate delta).1.settle
          asked.annealer.generator).1 := by
  have hasked : asked = (problem.propose p).1 := by rw [h]
  rw [hasked]
  rfl

/-- So it is the next word's. -/
theorem Progress.weigh_takes {problem : Problem α π σ μ} {p asked : Progress α γ π σ}
    {answer : Except String (Proposal α μ)} (h : problem.propose p = (asked, answer)) (delta : α) :
    (asked.weigh delta).2
      = (p.annealer.tuning.judge p.annealer.iteration p.annealer.estimate delta).1.takes
          (Generator.next asked.annealer.generator).1 := by
  rw [weigh_of_propose h]
  exact Verdict.settle_takes _ _

/-! ## §4. The estimate at the points that a search reaches -/

namespace Search

/-- **A run from `s` can come to this point**: some iterations after it has started from the
current candidate or a given one. -/
def Reaches (s : Search α γ π σ) (problem : Problem α π σ μ) (p : Progress α γ π σ) : Prop :=
  ∃ (start : Option σ) (its : List (Iteration α γ π σ μ)),
    problem.Passes (s.annealer.start s.flags (start.getD s.state)) its p

variable {J : ScaleEstimate α → Prop} (folds : ∀ e delta, ¬ delta ≤ 0 → J e → J (e.fold delta))
include folds

theorem iterate_estimate_invariant (problem : Problem α π σ μ) (p : Progress α γ π σ)
    (h : J p.annealer.estimate) : J (problem.iterate p).1.annealer.estimate := by
  rcases problem.iterate_estimate p with heq | ⟨delta, worsens, -, heq⟩
  · rw [heq]
    exact h
  · rw [heq]
    exact folds _ delta worsens h

/-- **What taking in a worsening difference preserves holds at every point reached.** -/
theorem Reaches.estimate {problem : Problem α π σ μ} {s : Search α γ π σ}
    {p : Progress α γ π σ} (h : s.Reaches problem p) (hs : J s.annealer.estimate) :
    J p.annealer.estimate := by
  obtain ⟨start, its, hits⟩ := h
  refine hits.invariant (J := fun p => J p.annealer.estimate) (fun it hc hb => ?_) hs
  have hit := iterate_estimate_invariant folds problem it.before hb
  rwa [hc.iterate_eq] at hit

theorem perform_estimate (s : Search α γ π σ) (problem : Problem α π σ μ) {c : Command α π σ}
    (hreset : c.isReset = true → J .empty) (hs : J s.annealer.estimate) :
    J (s.perform problem c).1.annealer.estimate := by
  have hrun : ∀ (start : Option σ) (n : UInt64),
      J (s.run problem start n).1.annealer.estimate := by
    intro start n
    obtain ⟨-, q, hq, ha, -⟩ := Annealer.run_invariant (J := fun _ p => J p.annealer.estimate)
      (fun _ p => iterate_estimate_invariant folds problem p) s.annealer s.flags
      (start.getD s.state) n hs
    show J (s.annealer.run problem s.flags _ n).annealer.estimate
    rw [ha]
    exact hq
  cases c with
  | run start n => exact hrun start n
  | runBatch start => exact hrun start Annealer.batchSize
  | reset => exact hreset rfl
  | abort => exact hs
  | raise handle => exact hs
  | setBudget _ => exact hs
  | setScale _ => exact hs
  | setSchedule _ => exact hs
  | amend _ => exact hs

/-- **And after every history.**  A reset starts from the empty estimate. -/
theorem performAll_estimate {problem : Problem α π σ μ} {s : Search α γ π σ}
    {cs : List (Command α π σ)}
    (hreset : ∀ c ∈ cs, c.isReset = true → J .empty) (hs : J s.annealer.estimate) :
    J (s.performAll problem cs).1.annealer.estimate :=
  performAll_invariant (J := fun s => J s.annealer.estimate)
    (fun s c hc hs => perform_estimate folds s problem (hreset c hc) hs) hs

end Search

end

end Annealing
