/-
  Annealing.Proofs.Log
  ────────────────────
  **THE LOG AGREES WITH WHAT THE RUNS DID.**

  A run that returns writes one, two or three events: that it was aborted, if it
  was; that learning has ended, if it left the window with its scale learned; and
  that it finished.  What they show is what the run returns and where it leaves the
  search.  So the log of a history, added up, gives the counter, the number of
  moves applied and the number of runs aborted.

    • `run_log` — the events of a run that returns, in order,
    • `run_tally` — what they add up to,
    • `history_log` — the same of histories.
-/
import Mathlib
import Annealing.Proofs.Protocol
import Annealing.Schedule.Rules

namespace Annealing

/-! ## §1. Events -/

namespace Event

variable {α : Type}

/-- How important an event is, and what it says. -/
def line (e : Event α) : String × String := (e.level, e.message)

/-- The iterations that an event reports. -/
def iterations : Event α → Nat
  | .finished n _ _ _ _ => n.toNat
  | _ => 0

/-- The accepted moves that an event reports. -/
def accepted : Event α → Nat
  | .finished _ m _ _ _ => m.toNat
  | _ => 0

/-- Does an event report that the flag ended a run? -/
def isAborted : Event α → Bool
  | .aborted _ => true
  | _ => false

end Event

/-- Has the run ended because of the flag? -/
def Report.wasAborted {α γ π σ : Type} (r : Report α γ π σ) : Bool :=
  match r.result with
  | .ok o => o.aborted
  | .error _ => false

/-- What reports have written to the log, in order. -/
def logOf {α γ π σ : Type} (reports : List (Report α γ π σ)) : List (Event α) :=
  reports.flatMap (·.events)

/-! ## §2. Runs -/

/-- **The scale is learned, and the run from `before` to `after` has left the window** in which it
is, as `before` is tuned. -/
def Annealer.Leaves {α γ π : Type} [Scalar α] (before after : Annealer α γ π) : Prop :=
  ¬ 0 < before.tuning.scale ∧ before.tuning.inLearningWindow before.iteration = true
    ∧ before.tuning.inLearningWindow after.iteration = false

instance {α γ π : Type} [Scalar α] (before after : Annealer α γ π) :
    Decidable (before.Leaves after) :=
  inferInstanceAs (Decidable (_ ∧ _ ∧ _))

/-- **The log of a run** from `before` to `after` with this outcome. -/
def Outcome.log {α γ π σ : Type} [Scalar α] (o : Outcome α σ) (before after : Annealer α γ π) :
    List (Event α) :=
  (if o.aborted then [.aborted after.iteration] else [])
    ++ (if before.Leaves after then [.frozen after.estimate] else [])
    ++ [.finished o.iterations o.accepted o.temperature after.estimate.mean o.aborted]

section
variable {α γ π σ μ : Type} [Scalar α] [Generator γ]

/-- **A run that returns writes this log**, and nothing else. -/
theorem Annealer.run_log {a : Annealer α γ π} {problem : Problem α π σ μ} {flags : FlagBoard}
    {state : σ} {n : UInt64} {o : Outcome α σ}
    (ho : (a.run problem flags state n).result = .ok o) :
    (a.run problem flags state n).events = o.log a (a.run problem flags state n).annealer := by
  obtain ⟨q, hq, -, hrun, hout⟩ := run_eq_conclude ho
  -- a run does not change the tuning, so the window at its end is the window at its start
  have htuning : q.annealer.tuning = a.tuning := hq.tuning_eq
  have hfrozen : q.annealer.hasFrozen a = decide (a.Leaves q.annealer) := by
    unfold hasFrozen inLearningWindow Tuning.hasScale
    rw [htuning]
    by_cases hscale : 0 < a.tuning.scale
    · simp [Leaves, hscale]
    · cases hbefore : a.tuning.inLearningWindow a.iteration <;>
        cases hafter : a.tuning.inLearningWindow q.annealer.iteration <;>
        simp [Leaves, hscale, hbefore, hafter]
  rw [hrun]
  unfold conclude Outcome.log
  simp only [hfrozen, decide_eq_true_eq]
  rw [hout]
  rfl

end

/-! ## §3. What a log says and adds up to -/

namespace Outcome

variable {α γ π σ : Type} [Scalar α] (o : Outcome α σ) (before after : Annealer α γ π)

/-- What the events of a log say. -/
theorem log_line :
    (o.log before after).map (·.line)
      = (if o.aborted then [("TRACE", "annealing run aborted")] else [])
        ++ (if before.Leaves after then [("DEBUG", "scale learning frozen")] else [])
        ++ [("DEBUG", "annealing run finished")] := by
  unfold log
  rw [List.map_append, List.map_append]
  split <;> split <;> rfl

/-- Only the last event reports iterations. -/
theorem log_iterations : ((o.log before after).map Event.iterations).sum = o.iterations.toNat := by
  unfold log
  rw [List.map_append, List.sum_append, List.map_append, List.sum_append]
  split <;> split <;> simp [Event.iterations]

/-- Nor does any other report accepted moves. -/
theorem log_accepted : ((o.log before after).map Event.accepted).sum = o.accepted.toNat := by
  unfold log
  rw [List.map_append, List.sum_append, List.map_append, List.sum_append]
  split <;> split <;> simp [Event.accepted]

/-- That the run was aborted is reported once, if it was. -/
theorem log_countP_isAborted :
    (o.log before after).countP (·.isAborted) = if o.aborted then 1 else 0 := by
  unfold log
  rw [List.countP_append, List.countP_append]
  split <;> split <;> rfl

end Outcome

namespace Search

variable {α γ π σ μ : Type} [Scalar α] [Generator γ] {s : Search α γ π σ}
  {problem : Problem α π σ μ}

/-- **The log of a run that returns adds up**: to what the counter has gone up by, to the number
of moves applied, and to one if the run was aborted. -/
theorem run_tally {start : Option σ} {n : UInt64} {o : Outcome α σ}
    (ho : (s.run problem start n).2.result = .ok o) :
    let events := (s.run problem start n).2.events
    (s.run problem start n).1.annealer.iteration.toNat
        = s.annealer.iteration.toNat + (events.map Event.iterations).sum
      ∧ (events.map Event.accepted).sum
        = (s.session problem start n).calls.countP (·.isApply)
      ∧ events.countP (·.isAborted) = if (s.run problem start n).2.wasAborted then 1 else 0 := by
  intro events
  have hevents : events = o.log s.annealer (s.run problem start n).1.annealer :=
    Annealer.run_log (a := s.annealer) ho
  have haborted : (s.run problem start n).2.wasAborted = o.aborted := by
    unfold Report.wasAborted
    rw [ho]
  obtain ⟨o', ho', -, haccepted, hiterations⟩ := (session_orderly ho).outcome
  have hsame : o' = o := Except.ok.inj (ho'.symm.trans ho)
  subst hsame
  rw [hevents, o'.log_iterations, o'.log_accepted, o'.log_countP_isAborted, haborted]
  refine ⟨?_, haccepted, rfl⟩
  rw [hiterations]
  exact (session_numbers ho).2

/-- **The log of a history in which every run returns adds up.** -/
theorem performAll_tally {cs : List (Command α π σ)} :
    ∀ {s : Search α γ π σ}, (∀ c ∈ cs, c.isReset = false) →
      (∀ r ∈ (s.performAll problem cs).2, ∃ o, r.result = .ok o) →
      let log := logOf (s.performAll problem cs).2
      (s.performAll problem cs).1.annealer.iteration.toNat
          = s.annealer.iteration.toNat + (log.map Event.iterations).sum
        ∧ (log.map Event.accepted).sum
          = ((s.sessions problem cs).flatMap (·.calls)).countP (·.isApply)
        ∧ log.countP (·.isAborted) = (s.performAll problem cs).2.countP (·.wasAborted) := by
  induction cs with
  | nil => intro s _ _; exact ⟨rfl, rfl, rfl⟩
  | cons c cs ih =>
      intro s hcs hok
      obtain ⟨hc, hcs⟩ := List.forall_mem_cons.mp hcs
      obtain ⟨hrun, hok⟩ := returns_of_performAll_cons hok
      obtain ⟨hcount, happlied, haborted⟩ := ih hcs hok
      rw [performAll_cons]
      cases hreq : c.request with
      | none =>
          -- nothing is logged or asked, and the counter stays
          rw [s.perform_iteration_of_no_request problem hreq hc] at hcount
          rw [perform_of_no_request s problem hreq, sessions, hreq]
          exact ⟨hcount, happlied, haborted⟩
      | some request =>
          obtain ⟨start, n⟩ := request
          obtain ⟨o, ho⟩ := hrun start n hreq
          obtain ⟨hfirst, hfirstApplied, hfirstAborted⟩ := run_tally ho
          rw [sessions, hreq]
          rw [perform_of_request s problem hreq] at hcount happlied haborted ⊢
          intro log
          -- the log of the first run, then that of the others
          have hlog : log = (s.run problem start n).2.events
              ++ logOf ((s.run problem start n).1.performAll problem cs).2 := rfl
          rw [hlog, List.map_append, List.sum_append, List.map_append, List.sum_append,
            List.countP_append, List.flatMap_cons, List.countP_append]
          refine ⟨?_, congrArg₂ (· + ·) hfirstApplied happlied, ?_⟩
          · rw [hcount, hfirst, Nat.add_assoc]
          · rw [hfirstAborted, haborted, Option.toList_some, List.singleton_append,
              List.countP_cons, Nat.add_comm]

/-! ## §4. Histories -/

/-- **The log agrees with what the runs did.**

  * A run that returns writes, in this order and nothing else: a trace that it was aborted, with
    the counter it has come to, if its outcome says so; that learning has ended, with the
    estimate, if the scale is not positive and the counter was in the window before and is not
    after; and that it finished, with the numbers of its outcome and the mean it leaves.
  * In a history without a reset in which every run returns, the iterations reported make up what
    the counter has gone up by, so all of it if it was zero; the accepted moves reported are as
    many as moves were applied; and the reports of an abort are as many as the runs aborted. -/
theorem history_log (s : Search α γ π σ) (problem : Problem α π σ μ) :
    (∀ start n o, (s.run problem start n).2.result = .ok o →
      let after := (s.run problem start n).1.annealer
      let events := (s.run problem start n).2.events
      events = o.log s.annealer after
        ∧ events.map (·.line)
          = (if o.aborted then [("TRACE", "annealing run aborted")] else [])
            ++ (if s.annealer.Leaves after then [("DEBUG", "scale learning frozen")] else [])
            ++ [("DEBUG", "annealing run finished")])
    ∧ ∀ cs, (∀ c ∈ cs, c.isReset = false) →
        (∀ r ∈ (s.performAll problem cs).2, ∃ o, r.result = .ok o) →
        let reports := (s.performAll problem cs).2
        let log := logOf reports
        (s.performAll problem cs).1.annealer.iteration.toNat
            = s.annealer.iteration.toNat + (log.map Event.iterations).sum
          ∧ (log.map Event.accepted).sum
            = ((s.sessions problem cs).flatMap (·.calls)).countP (·.isApply)
          ∧ log.countP (·.isAborted) = reports.countP (·.wasAborted) := by
  refine ⟨fun start n o ho => ?_, fun cs hcs hok => performAll_tally hcs hok⟩
  have hevents : (s.run problem start n).2.events
      = o.log s.annealer (s.run problem start n).1.annealer := Annealer.run_log ho
  exact ⟨hevents, hevents ▸ o.log_line _ _⟩

/-- A cold walk that learns in its first three iterations. -/
def learningWalk : Search Float Cycle Unit Int where
  annealer := .create () ⟨5, 0, .constant 0, none⟩ (.ofWords #[]) ⟨0⟩
  flags := ⟨#[false]⟩
  state := 2

/-- A run, an empty one, and two with the flag raised, the second of them empty. -/
def fourRuns : List (Command Float Unit Int) :=
  [.run none 2, .run none 0, .abort, .run none 9, .run none 0]

/-- The third run is aborted in the iteration that leaves the window, and the log adds up. -/
theorem history_log_learningWalk :
    (∀ c ∈ fourRuns, c.isReset = false)
    ∧ (∀ r ∈ (learningWalk.performAll Walk.alternating fourRuns).2, ∃ o, r.result = .ok o)
    ∧ (∃ o, (learningWalk.run Walk.alternating none 2).2.result = .ok o
      ∧ (learningWalk.run Walk.alternating none 2).2.events
        = o.log learningWalk.annealer (learningWalk.run Walk.alternating none 2).1.annealer)
    ∧ (learningWalk.performAll Walk.alternating fourRuns).1.annealer.iteration.toNat
      = ((logOf (learningWalk.performAll Walk.alternating fourRuns).2).map Event.iterations).sum
    ∧ (logOf (learningWalk.performAll Walk.alternating fourRuns).2).countP (·.isAborted)
      = (learningWalk.performAll Walk.alternating fourRuns).2.countP (·.wasAborted)
    ∧ (logOf (learningWalk.performAll Walk.alternating fourRuns).2).map (·.line)
      = [("DEBUG", "annealing run finished"), ("DEBUG", "annealing run finished"),
        ("TRACE", "annealing run aborted"), ("DEBUG", "scale learning frozen"),
        ("DEBUG", "annealing run finished"), ("DEBUG", "annealing run finished")] := by
  have hreset : ∀ c ∈ fourRuns, c.isReset = false := by decide
  have hok := performAll_returns (Walk.alternating_neverFails Cycle) fourRuns learningWalk
  obtain ⟨hlog, hadds⟩ := history_log learningWalk Walk.alternating
  obtain ⟨hcount, -, haborted⟩ := hadds _ hreset hok
  obtain ⟨o, ho⟩ : ∃ o, (learningWalk.run Walk.alternating none 2).2.result = .ok o :=
    learningWalk.annealer.run_returns (Walk.alternating_neverFails Cycle) _ _ _
  exact ⟨hreset, hok, ⟨o, ho, (hlog none 2 o ho).1⟩, hcount.trans (Nat.zero_add _), haborted,
    by decide +kernel⟩

end Search

end Annealing
