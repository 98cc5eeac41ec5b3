/-
  Annealing.Proofs.Failures
  ─────────────────────────
  **WHAT A FAILURE LEAVES BEHIND.**

  An iteration is not done at once: the problem proposes, the proposal is weighed,
  its move is applied, and then the iteration is counted.  If the problem fails on
  the way, what has been done stays done, and the iteration is not counted; so the
  next run begins with it again.  A failure to propose has drawn the words of the
  proposal and no more.  A failure to apply comes after the difference is learned
  from and the word of the acceptance test is drawn, so a difference can be learned
  from again: each such failure lets the samples run ahead of the counter by one.

    • `BreaksOff.annealer_eq` — what an iteration that breaks off has done,
    • `samples_le_advance`, `performAll_samples_le` — how far the samples run ahead,
    • `run_failure` — the law of a run that fails.
-/
import Annealing.Problem.Monitored
import Annealing.Proofs.Boards
import Annealing.Proofs.Calls
import Annealing.Proofs.Course
import Annealing.Proofs.Words

namespace Annealing

variable {α γ π σ μ : Type} [Scalar α] [Generator γ]

/-! ## §1. An iteration that breaks off -/

/-- How many words the problem draws for a proposal at `p`. -/
def Problem.choiceWords (problem : Problem α π σ μ) (p : Progress α γ π σ) : Nat :=
  (problem.choose p.annealer.memory p.state p.annealer.iteration).count p.annealer.generator

/-- **An iteration breaks off** when its move is applied.  It has come as far as this; `after`
is the run as the failure leaves it. -/
structure Problem.BreaksOff (problem : Problem α π σ μ) (it : Iteration α γ π σ μ)
    (reason : String) : Prop where
  asks : problem.propose it.before = (it.asked, .ok it.proposal)
  taken : it.taken = true
  fails : ∃ weighed, it.asked.weigh it.delta = (weighed, true)
    ∧ problem.carryOut weighed it.proposal.move = (it.after, .error reason)

namespace Problem

variable {problem : Problem α π σ μ} {p q : Progress α γ π σ} {reason : String}

/-- A failed iteration has failed to propose, or it has broken off. -/
theorem asks_or_breaksOff (h : problem.iterate p = (q, some reason)) :
    problem.propose p = (q, .error reason)
      ∨ ∃ it, problem.BreaksOff it reason ∧ it.before = p ∧ it.after = q := by
  rcases iterate_failed_iff.mp h with hasks | ⟨asked, weighed, proposal, hasks, hweighs, hfails⟩
  · exact .inl hasks
  · exact .inr ⟨⟨p, asked, proposal, true, q⟩, ⟨hasks, rfl, weighed, hweighs, hfails⟩, rfl, rfl⟩

/-- A proposal draws its words, and leaves all of the annealer but memory and generator. -/
theorem propose_annealer {α γ π σ μ : Type} [Generator γ] (problem : Problem α π σ μ)
    (p : Progress α γ π σ) : (problem.propose p).1.annealer = { p.annealer with
      memory := (problem.propose p).1.annealer.memory
      generator := Generator.after (problem.choiceWords p) p.annealer.generator } := by
  unfold choiceWords
  rw [← Draws.run_generator]
  rfl

end Problem

/-- A judgement takes in the difference that the iteration teaches, if it teaches one. -/
theorem Iteration.judge_estimate {α γ π σ μ : Type} [Scalar α] (it : Iteration α γ π σ μ)
    (e : ScaleEstimate α) :
    (it.tuning.judge it.number e it.delta).2 = it.lesson.elim e e.fold := by
  by_cases huse : it.UsesEstimate
  · obtain ⟨worsens, warm, scale⟩ := huse
    have hgiven : it.tuning.hasScale = false := decide_eq_false scale
    unfold Tuning.judge
    rw [if_neg worsens]
    show (if 0 < it.temperature then _ else _ : Verdict α × ScaleEstimate α).2 = _
    rw [if_pos warm]
    unfold Tuning.scaleFor
    rw [hgiven]
    by_cases hwindow : it.InWindow
    · have hin : it.tuning.inLearningWindow it.number = true := decide_eq_true hwindow
      have hlesson : it.lesson = some it.delta := if_pos ⟨⟨worsens, warm, scale⟩, hwindow⟩
      rw [hin, hlesson]
      rfl
    · have hout : it.tuning.inLearningWindow it.number = false := decide_eq_false hwindow
      have hlesson : it.lesson = none := if_neg fun h => hwindow h.2
      rw [hout, hlesson]
      rfl
  · have hlesson : it.lesson = none := if_neg fun h => huse h.1
    rw [judge_estimate_of_not_usesEstimate huse, hlesson]
    rfl

namespace Problem.BreaksOff

variable {problem : Problem α π σ μ} {it : Iteration α γ π σ μ} {reason : String}

/-- **What an iteration that breaks off has done**: drawn the words of its proposal and of its
acceptance test, and learned its lesson.  It is not counted. -/
theorem annealer_eq (h : problem.BreaksOff it reason) :
    it.after.annealer = { it.before.annealer with
      memory := it.after.annealer.memory
      generator := Generator.after (it.proposalWords problem + if it.LeftToChance then 1 else 0)
        it.before.annealer.generator
      estimate := it.lesson.elim it.before.annealer.estimate
        it.before.annealer.estimate.fold } := by
  obtain ⟨weighed, hweighs, hfails⟩ := h.fails
  have hafter : it.after = (problem.carryOut weighed it.proposal.move).1 := by rw [hfails]
  have hweighed : weighed = (it.asked.weigh it.delta).1 := by rw [hweighs]
  have hasked : it.asked.annealer = { it.before.annealer with
      memory := it.asked.annealer.memory
      generator := Generator.after (it.proposalWords problem) it.before.annealer.generator } := by
    have hpropose := problem.propose_annealer it.before
    rw [h.asks] at hpropose
    exact hpropose
  -- applying changes the memory, and weighing the estimate and the generator
  have hcarried : it.after.annealer
      = { weighed.annealer with memory := it.after.annealer.memory } := by
    rw [hafter]
    rfl
  rw [hcarried, hweighed, Progress.weigh_eq, hasked]
  simp only [Tuning.judge_settle_generator, Generator.after_add]
  rw [show it.before.annealer.tuning = it.tuning from rfl,
    show it.before.annealer.iteration = it.number from rfl, it.judge_estimate]
  rfl

end Problem.BreaksOff

/-! ## §2. How far the samples run ahead -/

/-- Is this a move that the problem has failed to apply? -/
def Call.isBrokenOff : Call α π σ μ → Bool
  | .apply _ _ _ (.error _) => true
  | _ => false

namespace Search

/-- How many moves the problem fails to apply in a command. -/
def brokenOffIn (s : Search α γ π σ) (problem : Problem α π σ μ) (c : Command α π σ) : Nat :=
  match c.request with
  | some (start, n) =>
    (s.annealer.calls problem s.flags (start.getD s.state) n).countP (·.isBrokenOff)
  | none => 0

/-- How many moves the problem has failed to apply in a history since its last reset; `seen`
are those before it. -/
def brokenOff (s : Search α γ π σ) (problem : Problem α π σ μ) (seen : Nat) :
    List (Command α π σ) → Nat
  | [] => seen
  | c :: cs =>
    (s.perform problem c).1.brokenOff problem
      (if c.isReset then 0 else seen + s.brokenOffIn problem c) cs

end Search

namespace Problem

/-- An iteration takes in one sample at most. -/
theorem iterate_samples_le (problem : Problem α π σ μ) (p : Progress α γ π σ) :
    (problem.iterate p).1.annealer.estimate.samples.toNat
      ≤ p.annealer.estimate.samples.toNat + 1 := by
  rcases problem.iterate_estimate p with heq | ⟨delta, -, -, heq⟩
  · rw [heq]
    exact Nat.le_succ _
  · rw [heq]
    show (p.annealer.estimate.samples + 1).toNat ≤ _
    rw [UInt64.toNat_add]
    exact Nat.mod_le _ _

/-- A failed iteration takes in a sample only if it breaks off. -/
theorem samples_le_of_failed {problem : Problem α π σ μ} {p q : Progress α γ π σ}
    {reason : String} (h : problem.iterate p = (q, some reason)) :
    q.annealer.estimate.samples.toNat
      ≤ p.annealer.estimate.samples.toNat + (problem.callsOf p).countP (·.isBrokenOff) := by
  have hle := problem.iterate_samples_le p
  rw [h] at hle
  rcases iterate_failed_iff.mp h with hasks | ⟨asked, weighed, proposal, hasks, hweighs, hfails⟩
  · have hq : q = (problem.propose p).1 := by rw [hasks]
    rw [hq]
    exact Nat.le_add_right _ _
  · have hone : (problem.callsOf p).countP (·.isBrokenOff) = 1 := by
      unfold callsOf
      simp only [hasks, hweighs, hfails]
      rfl
    rw [hone]
    exact hle

/-- **A loop lets the samples run ahead of the counter only by the moves it fails to
apply.** -/
theorem samples_le_advance (problem : Problem α π σ μ) (n : Nat) :
    ∀ {p : Progress α γ π σ} {ahead : Nat}, p.annealer.iteration.toNat + n < UInt64.size →
      p.annealer.estimate.samples.toNat ≤ p.annealer.iteration.toNat + ahead →
      (problem.advance n p).1.annealer.estimate.samples.toNat
        ≤ (problem.advance n p).1.annealer.iteration.toNat
          + (ahead + ((problem.attempts n p).flatMap problem.callsOf).countP
              (·.isBrokenOff)) := by
  induction n with
  | zero => intro p ahead _ h; exact h
  | succ n ih =>
      intro p ahead hlt h
      have hsample := problem.iterate_samples_le p
      rw [advance_succ]
      unfold attempts
      cases hi : problem.iterate p with
      | mk q failure =>
          rw [hi] at hsample
          rw [List.flatMap_cons, List.countP_append]
          cases failure with
          | some reason =>
              have hfailed := samples_le_of_failed hi
              have hcount := congrArg UInt64.toNat (Progress.Keeps.of_iterate_failed hi).iteration
              show q.annealer.estimate.samples.toNat ≤ q.annealer.iteration.toNat + _
              omega
          | none =>
              -- the sample is made up for by the count
              obtain ⟨it, hc, rfl, rfl⟩ := completes_of_iterate hi
              have hcount := hc.iteration_toNat (by omega)
              have hnext : it.after.annealer.estimate.samples.toNat
                  ≤ it.after.annealer.iteration.toNat + ahead := by
                change it.after.annealer.estimate.samples.toNat ≤ _ at hsample
                omega
              cases hab : it.after.isAborted with
              | true =>
                  simp only [hab, if_true]
                  omega
              | false =>
                  simp only [hab, Bool.false_eq_true, if_false]
                  have hrest := ih (by omega) hnext
                  omega

end Problem

namespace Search

variable {problem : Problem α π σ μ}

theorem perform_samples_le {s : Search α γ π σ} {ahead : Nat} (c : Command α π σ)
    (h : s.annealer.estimate.samples.toNat ≤ s.annealer.iteration.toNat + ahead) :
    (s.perform problem c).1.annealer.estimate.samples.toNat
      ≤ (s.perform problem c).1.annealer.iteration.toNat
        + (if c.isReset then 0 else ahead + s.brokenOffIn problem c) := by
  have hrun : ∀ (start : Option σ) (n : UInt64),
      (s.run problem start n).1.annealer.estimate.samples.toNat
        ≤ (s.run problem start n).1.annealer.iteration.toNat
          + (ahead + (s.annealer.calls problem s.flags (start.getD s.state) n).countP
              (·.isBrokenOff)) := by
    intro start n
    have hlt := s.annealer.iteration_add_allowed_lt n
    rw [Annealer.calls_eq_attempts]
    show (s.annealer.run problem s.flags _ n).annealer.estimate.samples.toNat
      ≤ (s.annealer.run problem s.flags _ n).annealer.iteration.toNat + _
    rw [Annealer.run_annealer]
    exact problem.samples_le_advance _ hlt h
  cases c with
  | run start n => exact hrun start n
  | runBatch start => exact hrun start Annealer.batchSize
  | reset => exact Nat.zero_le _
  | _ => exact h

/-- **A history lets the samples run ahead of the counter only by the moves it has failed to
apply** since its last reset. -/
theorem performAll_samples_le {cs : List (Command α π σ)} :
    ∀ {s : Search α γ π σ} {ahead : Nat},
      s.annealer.estimate.samples.toNat ≤ s.annealer.iteration.toNat + ahead →
      (s.performAll problem cs).1.annealer.estimate.samples.toNat
        ≤ (s.performAll problem cs).1.annealer.iteration.toNat
          + s.brokenOff problem ahead cs := by
  induction cs with
  | nil => intro s ahead h; exact h
  | cons c cs ih => intro s ahead h; exact ih (perform_samples_le c h)

end Search

/-! ## §3. Runs that fail -/

namespace Problem

variable {problem : Problem α π σ μ} {p q : Progress α γ π σ}
  {its : List (Iteration α γ π σ μ)} {reason : String}

/-- A loop that fails has completed its iterations with the flag lowered, and then fails. -/
theorem Ends.of_failed {n : Nat} (h : problem.Ends n p its q (.failed reason)) :
    its.length < n ∧ (∀ it ∈ its, it.after.isAborted = false)
      ∧ ∃ r, problem.Passes p its r ∧ problem.iterate r = (q, some reason) := by
  generalize hs : Stop.failed reason = stop at h
  induction h with
  | reached p => cases hs
  | @failed n p q reason fails =>
      cases hs
      exact ⟨Nat.succ_pos n, fun _ h => absurd h List.not_mem_nil, p, .done p, fails⟩
  | aborted _ _ => cases hs
  | step first lowered _ ih =>
      obtain ⟨hlt, hall, r, hr, hfails⟩ := ih hs
      exact ⟨Nat.succ_lt_succ hlt, List.forall_mem_cons.mpr ⟨lowered, hall⟩, r,
        .step first hr, hfails⟩

/-- A loop that completes iterations with the flag lowered has attempted these first. -/
theorem Passes.attempts_eq (h : problem.Passes p its q)
    (lowered : ∀ it ∈ its, it.after.isAborted = false) (m : Nat) :
    problem.attempts (its.length + m) p = its.map (·.before) ++ problem.attempts m q := by
  induction h with
  | done p => rw [List.length_nil, Nat.zero_add]; rfl
  | @step it its q first _ ih =>
      obtain ⟨hit, hits⟩ := List.forall_mem_cons.mp lowered
      rw [List.length_cons, Nat.add_right_comm, List.map_cons, List.cons_append, ← ih hits]
      rw [attempts, first.iterate_eq]
      simp only [hit, Bool.false_eq_true, if_false]

/-- A failed attempt is the last one. -/
theorem attempts_of_failed (fails : (problem.iterate p).2 = some reason) (m : Nat) :
    problem.attempts (m + 1) p = [p] := by
  unfold attempts
  cases hi : problem.iterate p with
  | mk q failure =>
      rw [hi] at fails
      change failure = some reason at fails
      subst fails
      rfl

end Problem

/-- **The report of a run from `a` that failed** in the iteration that begins at `p`, with `its`
completed before:

  * the failure comes through, nothing is logged, and the tuning is as it was;
  * the counter stands at that iteration;
  * of what stood at `p`, a failure to propose has changed the generator by the words of the
    proposal; a failure to apply has changed it by those and the word of the acceptance test,
    if one was due, and the estimate by the lesson of the iteration, if it teaches one;
  * the flags are those that the problem has fired;
  * the next run begins with this iteration again. -/
structure Report.FailedAt (r : Report α γ π σ) (a : Annealer α γ π) (problem : Problem α π σ μ)
    (flags : FlagBoard) (its : List (Iteration α γ π σ μ)) (p : Progress α γ π σ)
    (reason : String) : Prop where
  result : r.result = .error reason
  events : r.events = []
  tuning : r.annealer.tuning = a.tuning
  counter : r.annealer.iteration.toNat = a.iteration.toNat + its.length
  left :
    ((problem.propose p).2 = .error reason
      ∧ r.annealer = { p.annealer with
          memory := r.annealer.memory
          generator := Generator.after (problem.choiceWords p) p.annealer.generator })
    ∨ ∃ it, problem.BreaksOff it reason ∧ it.before = p
      ∧ r.annealer = { p.annealer with
          memory := r.annealer.memory
          generator := Generator.after
            (it.proposalWords problem + if it.LeftToChance then 1 else 0) p.annealer.generator
          estimate := it.lesson.elim p.annealer.estimate p.annealer.estimate.fold }
  flags : r.flags = flags.abortAll ((its.map (·.before) ++ [p]).flatMap problem.firedAt)
  next : ∀ state m, 0 < m → ∃ answer later,
    r.annealer.calls problem r.flags state m
      = .choose r.annealer.memory state p.annealer.iteration answer :: later

namespace Annealer

/-- **A run fails in the iteration that begins at `p`**, with these iterations completed and
the flag never raised before. -/
structure FailsAt (a : Annealer α γ π) (problem : Problem α π σ μ) (flags : FlagBoard)
    (state : σ) (n : UInt64) (its : List (Iteration α γ π σ μ)) (p : Progress α γ π σ)
    (reason : String) : Prop where
  passes : problem.Passes (a.start flags state) its p
  lowered : ∀ it ∈ its, it.after.isAborted = false
  within : its.length < a.allowed n
  fails : (problem.iterate p).2 = some reason

variable {a : Annealer α γ π} {problem : Problem α π σ μ} {flags : FlagBoard} {state : σ}
  {n : UInt64} {its : List (Iteration α γ π σ μ)} {p : Progress α γ π σ} {reason : String}

/-- The loop of a run that fails. -/
theorem FailsAt.ends (h : a.FailsAt problem flags state n its p reason) :
    problem.Ends (a.allowed n) (a.start flags state) its (problem.iterate p).1
      (.failed reason) := by
  obtain ⟨m, hm⟩ : ∃ m, a.allowed n = its.length + (m + 1) :=
    ⟨a.allowed n - its.length - 1, by have := h.within; omega⟩
  have hends := h.passes.ends h.lowered
    (Problem.Ends.failed (n := m) (Prod.ext rfl h.fails))
  rwa [← hm, List.append_nil] at hends

/-- **A run fails if and only if it fails in some iteration.** -/
theorem run_failed_iff :
    (a.run problem flags state n).result = .error reason
      ↔ ∃ its p, a.FailsAt problem flags state n its p reason := by
  constructor
  · intro h
    obtain ⟨q, stop, hq⟩ := a.iterations_ends problem flags state n
    cases stop with
    | reached =>
        rw [run_of_reached hq.advance_eq] at h
        exact absurd h (by simp [conclude])
    | aborted =>
        rw [run_of_aborted hq.advance_eq] at h
        exact absurd h (by simp [conclude])
    | failed reason' =>
        rw [run_of_failed hq.advance_eq] at h
        injection h with h
        subst h
        obtain ⟨hlt, hlow, p, hp, hfails⟩ := hq.of_failed
        exact ⟨_, p, hp, hlow, hlt, by rw [hfails]⟩
  · rintro ⟨its, p, h⟩
    rw [run_of_failed h.ends.advance_eq]

/-- The attempts of a run that fails are its completed iterations and the failed one. -/
theorem FailsAt.attempts_eq (h : a.FailsAt problem flags state n its p reason) :
    a.attempts problem flags state n = its.map (·.before) ++ [p] := by
  obtain ⟨m, hm⟩ : ∃ m, a.allowed n = its.length + (m + 1) :=
    ⟨a.allowed n - its.length - 1, by have := h.within; omega⟩
  unfold attempts
  rw [hm, h.passes.attempts_eq h.lowered, Problem.attempts_of_failed h.fails]

/-- If the counter is not at its largest, a run of some iterations first asks for a proposal
at the counter. -/
theorem calls_eq_cons (a : Annealer α γ π) (problem : Problem α π σ μ) (flags : FlagBoard)
    (state : σ) {m : UInt64} (hm : 0 < m) (hlt : a.iteration.toNat + 1 < UInt64.size) :
    ∃ answer later, a.calls problem flags state m
      = .choose a.memory state a.iteration answer :: later := by
  have hpos : 0 < m.toNat := UInt64.lt_iff_toNat_lt.mp hm
  obtain ⟨k, hk⟩ : ∃ k, a.allowed m = k + 1 := by
    refine ⟨a.allowed m - 1, ?_⟩
    unfold allowed
    omega
  rw [calls_eq_attempts]
  unfold attempts
  rw [hk, Problem.attempts, List.flatMap_cons]
  exact ⟨_, _, rfl⟩

/-- **What a run that fails leaves behind.** -/
theorem FailsAt.failedAt (h : a.FailsAt problem flags state n its p reason) :
    (a.run problem flags state n).FailedAt a problem flags its p reason := by
  have hrun := run_of_failed h.ends.advance_eq
  have hfails : problem.iterate p = ((problem.iterate p).1, some reason) := Prod.ext rfl h.fails
  have hkeeps := Progress.Keeps.of_iterate_failed hfails
  have hcounter : (problem.iterate p).1.annealer.iteration.toNat
      = a.iteration.toNat + its.length := by
    rw [hkeeps.iteration]
    exact iteration_toNat_of_passes h.passes (Nat.le_of_lt h.within)
  have hflags := a.run_flags problem flags state n
  have hfired : a.fired problem flags state n
      = (its.map (·.before) ++ [p]).flatMap problem.firedAt :=
    congrArg (·.flatMap problem.firedAt) h.attempts_eq
  rw [hfired] at hflags
  rw [hrun] at hflags ⊢
  refine ⟨rfl, rfl, hkeeps.tuning.trans h.passes.tuning_eq, hcounter, ?_, hflags, ?_⟩
  · rcases Problem.asks_or_breaksOff hfails with hasks | ⟨it, hbreaks, hbefore, hafter⟩
    · have hpropose := problem.propose_annealer p
      rw [hasks] at hpropose ⊢
      exact .inl ⟨rfl, hpropose⟩
    · have hannealer := hbreaks.annealer_eq
      rw [hbefore, hafter] at hannealer
      exact .inr ⟨it, hbreaks, hbefore, hannealer⟩
  · intro state' m hm
    have hlt := a.iteration_add_allowed_lt n
    have hwithin := h.within
    have hnext := (problem.iterate p).1.annealer.calls_eq_cons problem (problem.iterate p).1.flags
      state' hm (by omega)
    rwa [hkeeps.iteration] at hnext

/-- **When the problem fails.**

  * A run fails if and only if the problem fails in an iteration that the run comes to.
  * What such a run leaves behind is what it had before the iteration, and what was done in the
    iteration before the failure; the iteration is not counted, and the next run begins with it.
  * So in every history of a new search the samples run ahead of the counter by no more than
    the moves that the problem has failed to apply since the last reset. -/
theorem run_failure (a : Annealer α γ π) (problem : Problem α π σ μ) (flags : FlagBoard)
    (state : σ) (n : UInt64) :
    let run := a.run problem flags state n
    (∀ reason, run.result = .error reason
        ↔ ∃ its p, a.FailsAt problem flags state n its p reason)
    ∧ (∀ its p reason, a.FailsAt problem flags state n its p reason →
        run.FailedAt a problem flags its p reason)
    ∧ ∀ memory tuning generator abort (cs : List (Command α π σ)),
        let first : Search α γ π σ := ⟨.create memory tuning generator abort, flags, state⟩
        let after := (first.performAll problem cs).1.annealer
        after.estimate.samples.toNat
          ≤ after.iteration.toNat + first.brokenOff problem 0 cs := by
  refine ⟨fun _ => run_failed_iff, fun _ _ _ h => h.failedAt, ?_⟩
  intro memory tuning generator abort cs first after
  exact Search.performAll_samples_le (s := first) (Nat.le_refl 0)

end Annealer

/-! ## §4. A lamp that flickers -/

namespace Walk

/-- The lamp under observation. -/
def watchedLamp : Problem (Binary64 .special) (Monitored Unit) Bool Unit :=
  Monitored.problem fun _ => lamp

/-- The lamp at an infinite temperature; its second and third switches fail. -/
def flickering : Search (Binary64 .special) Cycle (Monitored Unit) Bool where
  annealer := .create
    { inner := (), handle := ⟨0⟩
      plan := { failOnApply := fun n => if n = 1 ∨ n = 2 then some "no light" else none } }
    ⟨5.0, 0, .custom fun _ _ => 1 / 0, none⟩ (.ofWords #[0, 7]) ⟨0⟩
  flags := ⟨#[false]⟩
  state := false

/-- Two runs that fail. -/
def twoAttempts : List (Command (Binary64 .special) (Monitored Unit) Bool) :=
  [.run none 3, .run none 3]

end Walk

/-- The second iteration fails in both runs, and is learned from twice. -/
theorem Annealer.run_failure_flickering :
    let a := Walk.flickering.annealer
    let run := a.run Walk.watchedLamp Walk.flickering.flags false 3
    let after := (Walk.flickering.performAll Walk.watchedLamp Walk.twoAttempts).1.annealer
    let brokenOff := Walk.flickering.brokenOff Walk.watchedLamp 0 Walk.twoAttempts
    (∃ its p reason, a.FailsAt Walk.watchedLamp Walk.flickering.flags false 3 its p reason
      ∧ run.FailedAt a Walk.watchedLamp Walk.flickering.flags its p reason)
    ∧ after.estimate.samples.toNat ≤ after.iteration.toNat + brokenOff
    ∧ (after.iteration, after.estimate.samples, brokenOff) = (1, 2, 2) := by
  obtain ⟨hfails, hleaves, hahead⟩ := run_failure Walk.flickering.annealer Walk.watchedLamp
    Walk.flickering.flags false 3
  have hstart : (⟨.create Walk.flickering.annealer.memory Walk.flickering.annealer.tuning
      Walk.flickering.annealer.generator Walk.flickering.annealer.abort, Walk.flickering.flags,
      false⟩ : Search (Binary64 .special) Cycle (Monitored Unit) Bool) = Walk.flickering := rfl
  have hbound := hahead Walk.flickering.annealer.memory Walk.flickering.annealer.tuning
    Walk.flickering.annealer.generator Walk.flickering.annealer.abort Walk.twoAttempts
  rw [hstart] at hbound
  refine ⟨?_, hbound, by decide +kernel⟩
  cases hresult : (Walk.flickering.annealer.run Walk.watchedLamp Walk.flickering.flags false
      3).result with
  | error reason =>
      obtain ⟨its, p, h⟩ := (hfails reason).mp hresult
      exact ⟨its, p, reason, h, hleaves its p reason h⟩
  | ok o =>
      have hfailed : (Walk.flickering.annealer.run Walk.watchedLamp Walk.flickering.flags false
          3).result.isOk = false := by decide +kernel
      rw [hresult] at hfailed
      cases hfailed

end Annealing
