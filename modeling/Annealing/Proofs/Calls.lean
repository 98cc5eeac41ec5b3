/-
  Annealing.Proofs.Calls
  ──────────────────────
  **THE QUESTIONS A SEARCH ASKS ITS PROBLEM.**

  `Problem.recorded` is a problem that writes down each question it is asked,
  with the answer, and otherwise answers as the problem it is made of.  A search
  cannot tell the two apart (`run_recorded`), so the record of a run on the one
  is what a run on the other asks: `Annealer.calls`.

    • `iterate_recorded`, `advance_recorded` — what iterations and loops write down,
    • `calls_of_ok` — a run that returns asks what its iterations ask, in order.
-/
import Annealing.Proofs.Lockstep

namespace Annealing

/-! ## §1. The record -/

/-- A question to a problem, with the memory it was asked at, and the answer. -/
inductive Call (α π σ μ : Type) where
  /-- Propose a move away from a candidate, at an iteration. -/
  | choose (memory : π) (state : σ) (iteration : UInt64)
      (answer : Except String (Proposal α μ))
  /-- Apply a move to a candidate. -/
  | apply (memory : π) (state : σ) (move : μ) (answer : Except String σ)

/-- A problem's memory, and the questions asked so far. -/
structure Recorded (α π σ μ : Type) where
  /-- The problem's own memory. -/
  inner : π
  /-- The questions, the first one first. -/
  calls : List (Call α π σ μ)

/-- The problem that writes down its questions. -/
def Problem.recorded {α π σ μ : Type} (problem : Problem α π σ μ) :
    Problem α (Recorded α π σ μ) σ μ where
  choose r state iteration :=
    (problem.choose r.inner state iteration).bind fun reply =>
      .done ⟨⟨reply.memory, r.calls ++ [.choose r.inner state iteration reply.result]⟩,
        reply.fired, reply.result⟩
  apply r state move :=
    let reply := problem.apply r.inner state move
    ⟨⟨reply.memory, r.calls ++ [.apply r.inner state move reply.result]⟩,
      reply.fired, reply.result⟩

/-- The same annealer, with a record in its memory. -/
def Annealer.recorded {α γ π σ μ : Type} (a : Annealer α γ π) (calls : List (Call α π σ μ)) :
    Annealer α γ (Recorded α π σ μ) where
  memory := ⟨a.memory, calls⟩
  tuning := a.tuning
  generator := a.generator
  iteration := a.iteration
  estimate := a.estimate
  abort := a.abort

/-- The same point of a run, with a record in its memory. -/
def Progress.recorded {α γ π σ μ : Type} (p : Progress α γ π σ) (calls : List (Call α π σ μ)) :
    Progress α γ (Recorded α π σ μ) σ where
  annealer := p.annealer.recorded calls
  flags := p.flags
  state := p.state
  accepted := p.accepted

/-- **The questions of a run**, as a recording problem writes them down. -/
def Annealer.calls {α γ π σ μ : Type} [Scalar α] [Generator γ] (a : Annealer α γ π)
    (problem : Problem α π σ μ) (flags : FlagBoard) (state : σ) (n : UInt64) :
    List (Call α π σ μ) :=
  ((a.recorded []).run problem.recorded flags state n).annealer.memory.calls

/-! ## §2. Recording changes nothing -/

theorem Draws.run_bind {β δ γ : Type} [Generator γ] (f : β → Draws δ) :
    ∀ (d : Draws β) (g : γ), (d.bind f).run g = (f (d.run g).1).run (d.run g).2
  | .done _, _ => rfl
  | .draw k, g => run_bind f (k (Generator.next g).1) (Generator.next g).2

namespace Problem

theorem propose_recorded {α γ π σ μ : Type} [Generator γ] (problem : Problem α π σ μ)
    (p : Progress α γ π σ) (calls : List (Call α π σ μ)) :
    problem.recorded.propose (p.recorded calls)
      = ((problem.propose p).1.recorded
            (calls ++ [.choose p.annealer.memory p.state p.annealer.iteration
              (problem.propose p).2]),
          (problem.propose p).2) := by
  unfold propose recorded Progress.recorded Annealer.recorded
  simp only [Draws.run_bind]
  rfl

variable {α γ π σ μ : Type} [Scalar α] [Generator γ]

/-- The questions of the iteration that starts at `p`. -/
def callsOf (problem : Problem α π σ μ) (p : Progress α γ π σ) : List (Call α π σ μ) :=
  .choose p.annealer.memory p.state p.annealer.iteration (problem.propose p).2 ::
    match problem.propose p with
    | (_, .error _) => []
    | (q, .ok proposal) =>
      match q.weigh proposal.delta with
      | (_, false) => []
      | (r, true) =>
        [.apply r.annealer.memory r.state proposal.move (problem.carryOut r proposal.move).2]

/-- **A recorded iteration** is the iteration, and its questions on the record. -/
theorem iterate_recorded (problem : Problem α π σ μ) (p : Progress α γ π σ)
    (calls : List (Call α π σ μ)) :
    problem.recorded.iterate (p.recorded calls)
      = ((problem.iterate p).1.recorded (calls ++ problem.callsOf p),
          (problem.iterate p).2) := by
  unfold iterate callsOf
  rw [propose_recorded]
  -- the record grows where the problem is asked, and each case has asked what `callsOf` lists
  cases problem.propose p with
  | mk q answer =>
      cases answer with
      | error reason => rfl
      | ok proposal =>
          have hw : ∀ calls : List (Call α π σ μ), (q.recorded calls).weigh proposal.delta
              = ((q.weigh proposal.delta).1.recorded calls, (q.weigh proposal.delta).2) :=
            fun _ => rfl
          simp only [hw]
          cases q.weigh proposal.delta with
          | mk r taken =>
              cases taken with
              | false => rfl
              | true =>
                  have hc : ∀ calls : List (Call α π σ μ),
                      problem.recorded.carryOut (r.recorded calls) proposal.move
                        = ((problem.carryOut r proposal.move).1.recorded
                              (calls ++ [.apply r.annealer.memory r.state proposal.move
                                (problem.carryOut r proposal.move).2]),
                            (problem.carryOut r proposal.move).2) :=
                    fun _ => rfl
                  simp only [hc, List.append_assoc, List.singleton_append]
                  cases problem.carryOut r proposal.move with
                  | mk u answer => cases answer <;> rfl

/-- **A recorded loop** is the loop, and the questions of the iterations it begins, failed or
not, on the record. -/
theorem advance_recorded (problem : Problem α π σ μ) (n : Nat) :
    ∀ (p : Progress α γ π σ) (calls : List (Call α π σ μ)),
      problem.recorded.advance n (p.recorded calls)
        = ((problem.advance n p).1.recorded
              (calls ++ (problem.attempts n p).flatMap problem.callsOf),
            (problem.advance n p).2) := by
  induction n with
  | zero =>
      intro p calls
      rw [attempts, List.flatMap_nil, List.append_nil]
      rfl
  | succ n ih =>
      intro p calls
      rw [advance_succ, advance_succ, iterate_recorded]
      unfold attempts
      cases problem.iterate p with
      | mk q failure =>
          cases failure with
          | some reason => simp only [List.flatMap_cons, List.flatMap_nil, List.append_nil]
          | none =>
              -- the flags are no part of the record
              have hflag : (q.recorded (calls ++ problem.callsOf p)).isAborted = q.isAborted := rfl
              cases hab : q.isAborted with
              | true =>
                  simp only [hflag, hab, if_true, List.flatMap_cons, List.flatMap_nil,
                    List.append_nil]
              | false =>
                  simp only [hflag, hab, Bool.false_eq_true, if_false, List.flatMap_cons, ih,
                    List.append_assoc]

/-- A loop that does not fail begins the iterations it completes, and no other. -/
theorem Ends.attempts_eq {problem : Problem α π σ μ} {n : Nat} {p q : Progress α γ π σ}
    {its : List (Iteration α γ π σ μ)} {stop : Stop} (h : problem.Ends n p its q stop)
    (hs : ∀ reason, stop ≠ .failed reason) : problem.attempts n p = its.map (·.before) := by
  induction h with
  | reached p => rfl
  | failed _ => exact absurd rfl (hs _)
  | aborted last raised =>
      rw [attempts, last.iterate_eq]
      simp only [raised, if_true, List.map_cons, List.map_nil]
  | step first lowered _ ih =>
      rw [attempts, first.iterate_eq]
      simp only [lowered, Bool.false_eq_true, if_false, List.map_cons, ih hs]

end Problem

namespace Annealer

variable {α γ π σ μ : Type} [Scalar α] [Generator γ]

/-- **The questions of a run** are those of the iterations it begins. -/
theorem calls_eq_attempts (a : Annealer α γ π) (problem : Problem α π σ μ)
    (flags : FlagBoard) (state : σ) (n : UInt64) :
    a.calls problem flags state n
      = (a.attempts problem flags state n).flatMap problem.callsOf := by
  unfold calls attempts
  rw [run_annealer]
  have hrecorded := problem.advance_recorded (a.allowed n) (a.start flags state) []
  exact congrArg (·.1.annealer.memory.calls) hrecorded

/-- **A search cannot tell whether its questions are recorded.** -/
theorem run_recorded (a : Annealer α γ π) (problem : Problem α π σ μ) (flags : FlagBoard)
    (state : σ) (n : UInt64) :
    (a.recorded []).run problem.recorded flags state n
      = { annealer := (a.run problem flags state n).annealer.recorded
            (a.calls problem flags state n)
          flags := (a.run problem flags state n).flags
          events := (a.run problem flags state n).events
          result := (a.run problem flags state n).result } := by
  have hadv : problem.recorded.advance (a.allowed n) ⟨a.recorded [], flags, state, 0⟩ = _ :=
    problem.advance_recorded (a.allowed n) (a.start flags state) []
  have hstart : (⟨a, flags, state, 0⟩ : Progress α γ π σ) = a.start flags state := rfl
  rw [List.nil_append] at hadv
  rw [calls_eq_attempts]
  unfold run attempts
  rw [show (a.recorded (σ := σ) (μ := μ) []).allowed n = a.allowed n from rfl, hadv, hstart]
  cases problem.advance (a.allowed n) (a.start flags state) with
  | mk q stop => cases stop <;> rfl

/-- **A run that returns asks what its iterations ask**, one after the other. -/
theorem calls_of_ok {a : Annealer α γ π} {problem : Problem α π σ μ} {flags : FlagBoard}
    {state : σ} {n : UInt64} {o : Outcome α σ}
    (ho : (a.run problem flags state n).result = .ok o) :
    a.calls problem flags state n
      = (a.iterations problem flags state n).flatMap fun it => problem.callsOf it.before := by
  obtain ⟨q, -, hends, -⟩ := run_eq_conclude ho
  have hattempts : a.attempts problem flags state n
      = (a.iterations problem flags state n).map (·.before) :=
    hends.attempts_eq fun reason => by split <;> simp
  rw [calls_eq_attempts, hattempts, List.flatMap_map]

end Annealer

end Annealing
