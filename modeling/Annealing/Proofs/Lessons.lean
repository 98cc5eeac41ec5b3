/-
  Annealing.Proofs.Lessons
  ────────────────────────
  **WHAT IS LEARNED, FAILURES INCLUDED.**

  A difference is learned from as soon as it is judged.  So an iteration teaches
  its lesson also if the problem then fails to apply the move, and then teaches
  again when it is made again.  Read off the points at which iterations begin, the
  lessons since the last reset are all that the estimate knows, whether the runs
  have returned or not.

    • `iterate_estimate_lesson` — an iteration learns the lesson of its proposal,
    • `performAll_estimate_taught` — a history learns what it is taught,
    • `length_taught_lt` — if its runs return, that is no more than a counter can
      count.
-/
import Annealing.Proofs.Failures

namespace Annealing

variable {α γ π σ μ : Type} [Scalar α] [Generator γ]

/-! ## §1. The lesson of a proposal -/

theorem Iteration.worsens_of_lesson {α γ π σ μ : Type} [Scalar α] {it : Iteration α γ π σ μ}
    {delta : α} (h : it.lesson = some delta) : ¬ delta ≤ 0 := by
  unfold lesson at h
  split at h
  next hteaches =>
    injection h with h
    exact h ▸ hteaches.1.1
  next => exact absurd h (by simp)

theorem worsens_of_mem_lessons {α γ π σ μ : Type} [Scalar α] {its : List (Iteration α γ π σ μ)}
    {delta : α} (h : delta ∈ lessons its) : ¬ delta ≤ 0 := by
  obtain ⟨it, -, hit⟩ := List.mem_filterMap.mp h
  exact Iteration.worsens_of_lesson hit

namespace Problem

/-- The cost difference that the iteration beginning at `p` teaches, if it teaches one.  What
becomes of its move plays no part. -/
def lessonAt (problem : Problem α π σ μ) (p : Progress α γ π σ) : Option α :=
  match problem.propose p with
  | (asked, .ok proposal) =>
    Iteration.lesson
      { before := p, asked, proposal, taken := false, after := asked : Iteration α γ π σ μ }
  | (_, .error _) => none

variable {problem : Problem α π σ μ}

theorem lessonAt_of_propose {p asked : Progress α γ π σ} {proposal : Proposal α μ}
    (h : problem.propose p = (asked, .ok proposal)) (taken : Bool) (after : Progress α γ π σ) :
    problem.lessonAt p = Iteration.lesson ⟨p, asked, proposal, taken, after⟩ := by
  unfold lessonAt
  rw [h]
  rfl

theorem Completes.lessonAt_before {it : Iteration α γ π σ μ} (h : problem.Completes it) :
    problem.lessonAt it.before = it.lesson :=
  lessonAt_of_propose h.propose_eq it.taken it.after

/-- **An iteration learns the lesson of its proposal and nothing else**, whether it is completed
or the problem fails in it. -/
theorem iterate_estimate_lesson (problem : Problem α π σ μ) (p : Progress α γ π σ) :
    (problem.iterate p).1.annealer.estimate
      = (problem.lessonAt p).elim p.annealer.estimate p.annealer.estimate.fold := by
  cases hi : problem.iterate p with
  | mk q failure =>
      cases failure with
      | none =>
          obtain ⟨it, hc, rfl, rfl⟩ := completes_of_iterate hi
          rw [hc.lessonAt_before, ← it.judge_estimate]
          exact hc.estimate_eq
      | some reason =>
          rcases asks_or_breaksOff hi with hasks | ⟨it, hbreaks, rfl, rfl⟩
          -- without a proposal there is no lesson
          · have hnone : problem.lessonAt p = none := by
              unfold lessonAt
              rw [hasks]
            have hkept := congrArg Annealer.estimate (problem.propose_annealer p)
            rw [hasks] at hkept
            rw [hnone]
            exact hkept
          · rw [lessonAt_of_propose hbreaks.asks it.taken it.after]
            exact congrArg Annealer.estimate hbreaks.annealer_eq

/-- A difference that is taught worsens the cost. -/
theorem worsens_of_lessonAt {p : Progress α γ π σ} {delta : α}
    (h : problem.lessonAt p = some delta) : ¬ delta ≤ 0 := by
  unfold lessonAt at h
  split at h
  next => exact Iteration.worsens_of_lesson h
  next => exact absurd h (by simp)

/-! ## §2. The lessons of a loop -/

/-- **A loop learns the lessons of the iterations it begins**, in order. -/
theorem advance_estimate_taught (problem : Problem α π σ μ) (n : Nat) :
    ∀ {p : Progress α γ π σ} {deltas : List α}, p.annealer.estimate = .ofDeltas deltas →
      (problem.advance n p).1.annealer.estimate
        = .ofDeltas (deltas ++ (problem.attempts n p).filterMap problem.lessonAt) := by
  induction n with
  | zero => intro p deltas h; rw [attempts, List.filterMap_nil, List.append_nil]; exact h
  | succ n ih =>
      intro p deltas h
      have hfirst : (problem.iterate p).1.annealer.estimate
          = .ofDeltas (deltas ++ (problem.lessonAt p).toList) := by
        rw [problem.iterate_estimate_lesson, h]
        cases problem.lessonAt p with
        | none => rw [Option.toList_none, List.append_nil]; rfl
        | some delta => exact ScaleEstimate.fold_ofDeltas deltas delta
      have hlessons : ∀ rest : List (Progress α γ π σ),
          deltas ++ (p :: rest).filterMap problem.lessonAt
            = (deltas ++ (problem.lessonAt p).toList) ++ rest.filterMap problem.lessonAt := by
        intro rest
        rw [List.filterMap_cons, List.append_assoc]
        cases problem.lessonAt p <;> rfl
      rw [advance_succ]
      unfold attempts
      rw [hlessons]
      cases hi : problem.iterate p with
      | mk q failure =>
          rw [hi] at hfirst
          cases failure with
          | some reason => rw [List.filterMap_nil, List.append_nil]; exact hfirst
          | none =>
              cases hab : q.isAborted with
              | true =>
                  simp only [hab, if_true, List.filterMap_nil, List.append_nil]
                  exact hfirst
              | false =>
                  simp only [hab, Bool.false_eq_true, if_false]
                  exact ih hfirst

/-- Completed iterations teach the lessons of the points at which they began. -/
theorem Passes.filterMap_lessonAt {p q : Progress α γ π σ} {its : List (Iteration α γ π σ μ)}
    (h : problem.Passes p its q) : (its.map (·.before)).filterMap problem.lessonAt = lessons its := by
  unfold lessons
  rw [List.filterMap_map]
  refine List.filterMap_congr fun it hit => ?_
  exact (h.completes hit).lessonAt_before

theorem Passes.estimate_ofDeltas {p q : Progress α γ π σ} {its : List (Iteration α γ π σ μ)}
    (h : problem.Passes p its q) :
    ∀ {deltas : List α}, p.annealer.estimate = .ofDeltas deltas →
      q.annealer.estimate = .ofDeltas (deltas ++ lessons its) := by
  induction h with
  | done p => intro deltas hp; rw [lessons, List.filterMap_nil, List.append_nil]; exact hp
  | @step it its q first _ ih =>
      intro deltas hp
      have hcons : lessons (it :: its) = it.lesson.toList ++ lessons its := by
        unfold lessons
        rw [List.filterMap_cons]
        cases it.lesson <;> rfl
      rw [hcons, ← List.append_assoc]
      exact ih (first.estimate_ofDeltas hp)

end Problem

/-! ## §3. The lessons of a history -/

namespace Search

/-- The cost differences that a command teaches, in order. -/
def taughtBy (s : Search α γ π σ) (problem : Problem α π σ μ) (c : Command α π σ) : List α :=
  (s.attemptsOf problem c).filterMap problem.lessonAt

/-- **The cost differences that a history has taught since its last reset**, in order; `seen`
are those before it. -/
def taught (s : Search α γ π σ) (problem : Problem α π σ μ) (seen : List α) :
    List (Command α π σ) → List α
  | [] => seen
  | c :: cs =>
    (s.perform problem c).1.taught problem
      (if c.isReset then [] else seen ++ s.taughtBy problem c) cs

variable {problem : Problem α π σ μ} {cs : List (Command α π σ)}

theorem perform_estimate_taught {s : Search α γ π σ} {seen : List α} (c : Command α π σ)
    (h : s.annealer.estimate = .ofDeltas seen) :
    (s.perform problem c).1.annealer.estimate
      = .ofDeltas (if c.isReset then [] else seen ++ s.taughtBy problem c) := by
  have hrun : ∀ (start : Option σ) (n : UInt64),
      (s.run problem start n).1.annealer.estimate
        = .ofDeltas (seen ++ (s.annealer.attempts problem s.flags (start.getD s.state) n).filterMap
            problem.lessonAt) := by
    intro start n
    show (s.annealer.run problem s.flags _ n).annealer.estimate = _
    rw [Annealer.run_annealer]
    exact problem.advance_estimate_taught _ h
  -- a command that is neither a run nor a reset teaches nothing
  have hrest : s.annealer.estimate = .ofDeltas (seen ++ []) := by
    rw [List.append_nil]
    exact h
  cases c with
  | run start n => exact hrun start n
  | runBatch start => exact hrun start Annealer.batchSize
  | reset => rfl
  | _ => exact hrest

/-- **A history learns what it is taught**, whether its runs return or not. -/
theorem performAll_estimate_taught :
    ∀ {cs : List (Command α π σ)} {s : Search α γ π σ} {seen : List α},
      s.annealer.estimate = .ofDeltas seen →
      (s.performAll problem cs).1.annealer.estimate = .ofDeltas (s.taught problem seen cs) := by
  intro cs
  induction cs with
  | nil => intro s seen h; exact h
  | cons c cs ih =>
      intro s seen h
      rw [performAll_cons]
      exact ih (perform_estimate_taught c h)

/-- What is taught worsens the cost. -/
theorem worsens_of_mem_taught :
    ∀ {cs : List (Command α π σ)} {s : Search α γ π σ} {seen : List α},
      (∀ delta ∈ seen, ¬ delta ≤ 0) →
      ∀ delta ∈ s.taught problem seen cs, ¬ delta ≤ 0 := by
  intro cs
  induction cs with
  | nil => intro s seen h; exact h
  | cons c cs ih =>
      intro s seen h
      refine ih fun delta hdelta => ?_
      split at hdelta
      next => exact absurd hdelta List.not_mem_nil
      next =>
        rcases List.mem_append.mp hdelta with hdelta | hdelta
        · exact h delta hdelta
        · obtain ⟨p, -, hp⟩ := List.mem_filterMap.mp hdelta
          exact Problem.worsens_of_lessonAt hp

/-- A history that has taught something counts it, as long as it can be counted. -/
theorem estimate_eq_empty {s : Search α γ π σ} {cs : List (Command α π σ)}
    (hs : s.annealer.estimate = .empty)
    (hfew : (s.taught problem [] cs).length < UInt64.size)
    (hnone : (s.performAll problem cs).1.annealer.estimate.samples = 0) :
    (s.performAll problem cs).1.annealer.estimate = .empty := by
  have htaught : (s.performAll problem cs).1.annealer.estimate
      = .ofDeltas (s.taught problem [] cs) := performAll_estimate_taught hs
  rw [htaught] at hnone ⊢
  have hlength : (s.taught problem [] cs).length = 0 := by
    rw [← UInt64.toNat_ofNat_of_lt' hfew]
    exact congrArg UInt64.toNat hnone
  rw [List.eq_nil_of_length_eq_zero hlength]
  rfl

/-! ## §4. Runs that return -/

/-- A command whose run returns teaches the lessons of its iterations. -/
theorem taughtBy_of_returns {s : Search α γ π σ} {c : Command α π σ}
    (hok : ∀ start n, c.request = some (start, n) →
      ∃ o, (s.run problem start n).2.result = .ok o) :
    s.taughtBy problem c = lessons (s.iterationsOf problem c) := by
  unfold taughtBy attemptsOf iterationsOf
  cases hreq : c.request with
  | none => rfl
  | some request =>
      obtain ⟨start, n⟩ := request
      obtain ⟨o, ho⟩ := hok start n hreq
      have hreturns : (s.annealer.run problem s.flags (start.getD s.state) n).result = .ok o := ho
      obtain ⟨q, hq, hends, -, -⟩ := Annealer.run_eq_conclude hreturns
      have hattempts : s.annealer.attempts problem s.flags (start.getD s.state) n
          = (s.annealer.iterations problem s.flags (start.getD s.state) n).map (·.before) := by
        refine hends.attempts_eq fun reason => ?_
        split <;> simp
      show (s.annealer.attempts problem s.flags (start.getD s.state) n).filterMap _ = _
      rw [hattempts]
      exact hq.filterMap_lessonAt

/-- If all runs return, what is taught are the lessons of the iterations. -/
theorem taught_of_returns :
    ∀ {cs : List (Command α π σ)} {s : Search α γ π σ} {seen : List (Iteration α γ π σ μ)},
      (∀ r ∈ (s.performAll problem cs).2, ∃ o, r.result = .ok o) →
      s.taught problem (lessons seen) cs = lessons (s.sinceReset problem seen cs) := by
  intro cs
  induction cs with
  | nil => intro s seen _; rfl
  | cons c cs ih =>
      intro s seen hok
      obtain ⟨hrun, hok⟩ := returns_of_performAll_cons hok
      unfold taught sinceReset
      rw [← ih hok, taughtBy_of_returns hrun]
      congr 1
      split
      · rfl
      · exact (List.filterMap_append ..).symm

/-- **If all runs return, no more is taught than a counter can count**, also with the iterations
that one more run may make. -/
theorem length_taught_lt {s : Search α γ π σ} {seen : List (Iteration α γ π σ μ)}
    (learned : s.annealer.HasLearned problem seen)
    (hok : ∀ r ∈ (s.performAll problem cs).2, ∃ o, r.result = .ok o)
    {its : List (Iteration α γ π σ μ)} {n : UInt64}
    (hle : its.length ≤ (s.performAll problem cs).1.annealer.allowed n) :
    (s.taught problem (lessons seen) cs ++ lessons its).length < UInt64.size := by
  have hlearned := hasLearned_performAll learned hok
  have hbound := (s.performAll problem cs).1.annealer.iteration_add_allowed_lt n
  have hseen : (lessons (s.sinceReset problem seen cs)).length
      ≤ (s.sinceReset problem seen cs).length := List.length_filterMap_le _ _
  have hits : (lessons its).length ≤ its.length := List.length_filterMap_le _ _
  have hcount := hlearned.counter
  rw [List.length_append, taught_of_returns hok]
  omega

end Search

end Annealing
