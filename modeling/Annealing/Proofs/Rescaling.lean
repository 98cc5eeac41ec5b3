/-
  Annealing.Proofs.Rescaling
  ──────────────────────────
  **COSTS IN OTHER UNITS.**

  Multiply every cost difference by a positive factor, and divide every given
  scale by it.  In exact arithmetic the search goes through the same iterations
  with the same decisions and the same words; only the scale it learns is divided
  by the factor.  Each part of a search has its rescaled form here, and the theorems
  say that every operation commutes with rescaling.

    • `fold_rescale`, `judge_rescale` — the factor cancels in each judgement,
    • `completes_rescale`, `ends_rescale` — so it does in each iteration and run,
    • `performAll_rescale` — and in each history.
-/
import Mathlib
import Annealing.Generator.Cycle
import Annealing.Proofs.Calls
import Annealing.Proofs.Exact
import Annealing.Proofs.Judgement
import Annealing.Proofs.Learning

namespace Annealing

noncomputable section

/-! ## §1. Rescaled parts -/

variable {γ π σ μ : Type}

/-- A scale in other units; one that is not positive is no scale, and stays. -/
def rescaleScale (L k : ℝ) : ℝ :=
  if 0 < k then k / L else k

/-- The tuning with its scale in other units. -/
def Tuning.rescale (L : ℝ) (t : Tuning ℝ) : Tuning ℝ :=
  { t with scale := rescaleScale L t.scale }

/-- An estimated scale in other units. -/
def ScaleEstimate.rescale (L : ℝ) (e : ScaleEstimate ℝ) : ScaleEstimate ℝ :=
  { e with mean := e.mean / L }

def Annealer.rescale (L : ℝ) (a : Annealer ℝ γ π) : Annealer ℝ γ π :=
  { a with tuning := a.tuning.rescale L, estimate := a.estimate.rescale L }

def Progress.rescale (L : ℝ) (p : Progress ℝ γ π σ) : Progress ℝ γ π σ :=
  { p with annealer := p.annealer.rescale L }

def Search.rescale (L : ℝ) (s : Search ℝ γ π σ) : Search ℝ γ π σ :=
  { s with annealer := s.annealer.rescale L }

/-- The same move, at another cost. -/
def Proposal.rescale (L : ℝ) (proposal : Proposal ℝ μ) : Proposal ℝ μ :=
  { proposal with delta := proposal.delta * L }

/-- The problem with its costs in other units. -/
def Problem.rescale (L : ℝ) (problem : Problem ℝ π σ μ) : Problem ℝ π σ μ where
  choose memory state iteration :=
    (problem.choose memory state iteration).bind fun reply =>
      .done { reply with result := reply.result.map (Proposal.rescale L) }
  apply := problem.apply

def Iteration.rescale (L : ℝ) (it : Iteration ℝ γ π σ μ) : Iteration ℝ γ π σ μ where
  before := it.before.rescale L
  asked := it.asked.rescale L
  proposal := it.proposal.rescale L
  taken := it.taken
  after := it.after.rescale L

def Event.rescale (L : ℝ) : Event ℝ → Event ℝ
  | .aborted iteration => .aborted iteration
  | .frozen estimate => .frozen (estimate.rescale L)
  | .finished iterations accepted temperature scale stopped =>
      .finished iterations accepted temperature (scale / L) stopped

/-- Nothing is changed in the result of a run. -/
def Report.rescale (L : ℝ) (r : Report ℝ γ π σ) : Report ℝ γ π σ :=
  { r with annealer := r.annealer.rescale L, events := r.events.map (Event.rescale L) }

def Command.rescale (L : ℝ) : Command ℝ π σ → Command ℝ π σ
  | .setScale k => .setScale (rescaleScale L k)
  | c => c

/-! ## §2. Judgements -/

section
variable {L : ℝ}

/-- Without samples there is nothing to rescale. -/
theorem empty_rescale (L : ℝ) : (ScaleEstimate.empty : ScaleEstimate ℝ).rescale L = .empty :=
  congrArg (ScaleEstimate.mk · 0) (zero_div L)

/-- **The estimate made of rescaled differences is the rescaled estimate.** -/
theorem fold_rescale (L : ℝ) (e : ScaleEstimate ℝ) (delta : ℝ) :
    (e.rescale L).fold (delta * L) = (e.fold delta).rescale L := by
  have hmean : ∀ c w : ℝ, c / (delta * L) * w + e.mean / L * (1 - w)
      = (c / delta * w + e.mean * (1 - w)) / L := by
    intro c w
    rw [div_mul_eq_div_div]
    ring
  exact congrArg (ScaleEstimate.mk · (e.samples + 1)) (hmean _ _)

variable (hL : 0 < L)
include hL

theorem rescaleScale_pos_iff (k : ℝ) : 0 < rescaleScale L k ↔ 0 < k := by
  unfold rescaleScale
  by_cases hk : 0 < k
  · rw [if_pos hk]
    exact iff_of_true (div_pos hk hL) hk
  · rw [if_neg hk]

theorem hasScale_rescale (t : Tuning ℝ) : (t.rescale L).hasScale = t.hasScale :=
  decide_eq_decide.mpr (rescaleScale_pos_iff hL t.scale)

/-- The factor cancels in the exponent. -/
theorem acceptance_rescale (k delta temperature : ℝ) :
    Tuning.acceptance (k / L) (delta * L) temperature
      = Tuning.acceptance k delta temperature := by
  have hcancel : -(k / L) * (delta * L) = -k * delta := by field_simp
  exact congrArg (fun x : ℝ => Real.exp (x / temperature)) hcancel

/-- **A rescaled difference is judged alike.** -/
theorem judge_rescale (t : Tuning ℝ) (i : UInt64) (e : ScaleEstimate ℝ) (delta : ℝ) :
    (t.rescale L).judge i (e.rescale L) (delta * L)
      = ((t.judge i e delta).1, (t.judge i e delta).2.rescale L) := by
  have hdelta : delta * L ≤ 0 ↔ delta ≤ 0 := by
    rw [← not_lt, ← not_lt, mul_pos_iff_of_pos_right hL]
  have hscale := hasScale_rescale hL t
  have htemperature : (t.rescale L).temperature i = t.temperature i := rfl
  have hwindow : (t.rescale L).inLearningWindow i = t.inLearningWindow i := rfl
  unfold Tuning.judge
  by_cases himproves : delta ≤ 0
  · rw [if_pos himproves, if_pos (hdelta.mpr himproves)]
  · rw [if_neg himproves, if_neg (mt hdelta.mp himproves)]
    by_cases hwarm : 0 < t.temperature i
    · simp only [htemperature, if_pos hwarm]
      unfold Tuning.scaleFor
      rw [hscale, hwindow]
      by_cases hgiven : 0 < t.scale
      · have hk : (t.rescale L).scale = t.scale / L := if_pos hgiven
        simp only [Tuning.hasScale, decide_eq_true hgiven, if_true, hk, acceptance_rescale hL]
      · simp only [Tuning.hasScale, decide_eq_false hgiven, Bool.false_eq_true, if_false]
        cases t.inLearningWindow i with
        | true =>
            simp only [if_true, fold_rescale]
            exact congrArg (fun p => (Verdict.chance p, _)) (acceptance_rescale hL _ _ _)
        | false =>
            exact congrArg (fun p => (Verdict.chance p, _)) (acceptance_rescale hL _ _ _)
    · simp only [htemperature, if_neg hwarm]

end

/-! ## §3. Iterations -/

section
variable {L : ℝ} {problem : Problem ℝ π σ μ}

theorem carryOut_rescale {p q : Progress ℝ γ π σ} {move : μ} {answer : Except String σ}
    (h : problem.carryOut p move = (q, answer)) :
    (problem.rescale L).carryOut (p.rescale L) move = (q.rescale L, answer) := by
  have hcarries : (problem.rescale L).carryOut (p.rescale L) move
      = ((problem.carryOut p move).1.rescale L, (problem.carryOut p move).2) := rfl
  rw [hcarries, h]

variable [Generator γ]

theorem propose_rescale {p q : Progress ℝ γ π σ} {answer : Except String (Proposal ℝ μ)}
    (h : problem.propose p = (q, answer)) :
    (problem.rescale L).propose (p.rescale L)
      = (q.rescale L, answer.map (Proposal.rescale L)) := by
  have hasks : (problem.rescale L).propose (p.rescale L)
      = ((problem.propose p).1.rescale L, (problem.propose p).2.map (Proposal.rescale L)) := by
    unfold Problem.propose Problem.rescale Progress.rescale Annealer.rescale
    simp only [Draws.run_bind]
    rfl
  rw [hasks, h]

variable (hL : 0 < L)
include hL

theorem weigh_rescale {p q : Progress ℝ γ π σ} {delta : ℝ} {taken : Bool}
    (h : p.weigh delta = (q, taken)) :
    (p.rescale L).weigh (delta * L) = (q.rescale L, taken) := by
  have hjudge : (p.rescale L).annealer.tuning.judge (p.rescale L).annealer.iteration
      (p.rescale L).annealer.estimate (delta * L) = _ :=
    judge_rescale hL p.annealer.tuning p.annealer.iteration p.annealer.estimate delta
  have hweighs : (p.rescale L).weigh (delta * L)
      = ((p.weigh delta).1.rescale L, (p.weigh delta).2) := by
    rw [Progress.weigh_eq, Progress.weigh_eq, hjudge]
    rfl
  rw [hweighs, h]

/-- **A completed iteration completes in other units**, with the same decision. -/
theorem completes_rescale {it : Iteration ℝ γ π σ μ} (h : problem.Completes it) :
    (problem.rescale L).Completes (it.rescale L) := by
  cases h with
  | refused asks weighs => exact .refused (propose_rescale asks) (weigh_rescale hL weighs)
  | applied asks weighs carries =>
      exact .applied (propose_rescale asks) (weigh_rescale hL weighs) (carryOut_rescale carries)

/-- An iteration that fails, fails in other units, for the same reason. -/
theorem iterate_failed_rescale {p q : Progress ℝ γ π σ} {reason : String}
    (h : problem.iterate p = (q, some reason)) :
    (problem.rescale L).iterate (p.rescale L) = (q.rescale L, some reason) := by
  rw [Problem.iterate_failed_iff] at h ⊢
  rcases h with asks | ⟨asked, weighed, proposal, asks, weighs, carries⟩
  · exact .inl (propose_rescale asks)
  · exact .inr ⟨_, _, _, propose_rescale asks, weigh_rescale hL weighs, carryOut_rescale carries⟩

/-- **The loop of a run goes the same way.** -/
theorem ends_rescale {n : Nat} {p q : Progress ℝ γ π σ}
    {its : List (Iteration ℝ γ π σ μ)} {stop : Stop} (h : problem.Ends n p its q stop) :
    (problem.rescale L).Ends n (p.rescale L) (its.map (Iteration.rescale L)) (q.rescale L)
      stop := by
  induction h with
  | reached p => exact .reached _
  | failed fails => exact .failed (iterate_failed_rescale hL fails)
  | aborted last raised => exact .aborted (completes_rescale hL last) raised
  | step first lowered _ ih => exact .step (completes_rescale hL first) lowered ih

end

/-! ## §4. Runs -/

section
variable {L : ℝ} (hL : 0 < L)
include hL

theorem conclude_rescale (a : Annealer ℝ γ π) (q : Progress ℝ γ π σ) (aborted : Bool) :
    (a.rescale L).conclude (q.rescale L) aborted = (a.conclude q aborted).rescale L := by
  have hfrozen : (q.rescale L).annealer.hasFrozen (a.rescale L) = q.annealer.hasFrozen a := by
    have hscale : (q.annealer.tuning.rescale L).hasScale = q.annealer.tuning.hasScale :=
      hasScale_rescale hL q.annealer.tuning
    show (a.inLearningWindow && !(q.annealer.tuning.rescale L).hasScale
      && !q.annealer.inLearningWindow) = _
    rw [hscale]
    rfl
  unfold Annealer.conclude Report.rescale
  simp only [hfrozen]
  cases q.annealer.hasFrozen a <;> cases aborted <;> rfl

variable [Generator γ]

theorem iterations_rescale (a : Annealer ℝ γ π) (problem : Problem ℝ π σ μ) (flags : FlagBoard)
    (state : σ) (n : UInt64) :
    (a.rescale L).iterations (problem.rescale L) flags state n
      = (a.iterations problem flags state n).map (Iteration.rescale L) := by
  obtain ⟨q, stop, hq⟩ := a.iterations_ends problem flags state n
  exact (ends_rescale hL hq).trace_eq

/-- **A run commutes with rescaling.** -/
theorem run_rescale (a : Annealer ℝ γ π) (problem : Problem ℝ π σ μ) (flags : FlagBoard)
    (state : σ) (n : UInt64) :
    (a.rescale L).run (problem.rescale L) flags state n
      = (a.run problem flags state n).rescale L := by
  obtain ⟨q, stop, hq⟩ := a.iterations_ends problem flags state n
  have hq' : (problem.rescale L).Ends ((a.rescale L).allowed n) ((a.rescale L).start flags state)
      _ _ _ := ends_rescale hL hq
  cases stop with
  | reached =>
      rw [Annealer.run_of_reached hq.advance_eq, Annealer.run_of_reached hq'.advance_eq,
        conclude_rescale hL]
  | aborted =>
      rw [Annealer.run_of_aborted hq.advance_eq, Annealer.run_of_aborted hq'.advance_eq,
        conclude_rescale hL]
  | failed reason =>
      rw [Annealer.run_of_failed hq.advance_eq, Annealer.run_of_failed hq'.advance_eq]
      rfl

end

/-! ## §5. Histories -/

namespace Search

variable {L : ℝ} [Generator γ] (hL : 0 < L)
include hL

theorem run_rescale (s : Search ℝ γ π σ) (problem : Problem ℝ π σ μ) (start : Option σ)
    (n : UInt64) :
    (s.rescale L).run (problem.rescale L) start n
      = ((s.run problem start n).1.rescale L, (s.run problem start n).2.rescale L) := by
  have hrun : (s.rescale L).annealer.run (problem.rescale L) (s.rescale L).flags
      (start.getD (s.rescale L).state) n = _ :=
    Annealing.run_rescale hL s.annealer problem s.flags (start.getD s.state) n
  unfold run
  simp only [hrun]
  rfl

theorem perform_rescale (s : Search ℝ γ π σ) (problem : Problem ℝ π σ μ) (c : Command ℝ π σ) :
    (s.rescale L).perform (problem.rescale L) (c.rescale L)
      = ((s.perform problem c).1.rescale L, (s.perform problem c).2.map (Report.rescale L)) := by
  have hrun : ∀ (start : Option σ) (n : UInt64),
      (((s.rescale L).run (problem.rescale L) start n).1,
          some ((s.rescale L).run (problem.rescale L) start n).2)
        = ((s.run problem start n).1.rescale L,
            (some (s.run problem start n).2).map (Report.rescale L)) := by
    intro start n
    rw [run_rescale hL]
    rfl
  cases c with
  | run start n => exact hrun start n
  | runBatch start => exact hrun start Annealer.batchSize
  | reset =>
      show (Search.mk { s.annealer.rescale L with iteration := 0, estimate := .empty } _ _, none)
        = _
      rw [← empty_rescale L]
      rfl
  | abort => rfl
  | raise _ => rfl
  | setBudget _ => rfl
  | setScale _ => rfl
  | setSchedule _ => rfl
  | amend _ => rfl

/-- **A history commutes with rescaling.** -/
theorem performAll_rescale (problem : Problem ℝ π σ μ) (cs : List (Command ℝ π σ)) :
    ∀ s : Search ℝ γ π σ,
      (s.rescale L).performAll (problem.rescale L) (cs.map (Command.rescale L))
        = ((s.performAll problem cs).1.rescale L,
            (s.performAll problem cs).2.map (Report.rescale L)) := by
  induction cs with
  | nil => intro s; rfl
  | cons c cs ih =>
      intro s
      rw [List.map_cons, performAll_cons, performAll_cons, perform_rescale hL, ih,
        List.map_append, Option.toList_map]

theorem iterationsOf_rescale (s : Search ℝ γ π σ) (problem : Problem ℝ π σ μ)
    (c : Command ℝ π σ) :
    (s.rescale L).iterationsOf (problem.rescale L) (c.rescale L)
      = (s.iterationsOf problem c).map (Iteration.rescale L) := by
  cases c with
  | run start n => exact iterations_rescale hL s.annealer problem s.flags (start.getD s.state) n
  | runBatch start => exact iterations_rescale hL s.annealer problem s.flags (start.getD s.state) _
  | _ => rfl

theorem allIterations_rescale (problem : Problem ℝ π σ μ) (cs : List (Command ℝ π σ)) :
    ∀ s : Search ℝ γ π σ,
      (s.rescale L).allIterations (problem.rescale L) (cs.map (Command.rescale L))
        = (s.allIterations problem cs).map (Iteration.rescale L) := by
  induction cs with
  | nil => intro s; rfl
  | cons c cs ih =>
      intro s
      show (s.rescale L).iterationsOf (problem.rescale L) (c.rescale L)
          ++ ((s.rescale L).perform (problem.rescale L) (c.rescale L)).1.allIterations
              (problem.rescale L) (cs.map (Command.rescale L))
        = (s.iterationsOf problem c ++ (s.perform problem c).1.allIterations problem cs).map
            (Iteration.rescale L)
      rw [perform_rescale hL, ih, iterationsOf_rescale hL, List.map_append]

/-- **A search does not depend on the units of its costs.**  In exact arithmetic, multiply every
cost difference of a problem by `L > 0`, and divide by it every scale that is given, at the
start or by a command, unless it is not positive.  Then in every history of a new search

  * each run returns the same outcome, or fails for the same reason;
  * the search comes to the same candidate, memory, flags, counter and generator, with as many
    samples, and its estimated scale is divided by `L`;
  * the same is true of each iteration, and it takes the same decision with the same words. -/
theorem history_scaleInvariant (problem : Problem ℝ π σ μ) (memory : π) (tuning : Tuning ℝ)
    (generator : γ) (abort : AbortHandle) (flags : FlagBoard) (state : σ)
    (cs : List (Command ℝ π σ)) :
    let first : Search ℝ γ π σ := ⟨.create memory tuning generator abort, flags, state⟩
    let second : Search ℝ γ π σ :=
      ⟨.create memory (tuning.rescale L) generator abort, flags, state⟩
    let cs' := cs.map (Command.rescale L)
    let r := first.performAll problem cs
    let r' := second.performAll (problem.rescale L) cs'
    r'.2.map (·.result) = r.2.map (·.result)
    ∧ (r'.1.state = r.1.state ∧ r'.1.flags = r.1.flags
      ∧ r'.1.annealer.memory = r.1.annealer.memory
      ∧ r'.1.annealer.iteration = r.1.annealer.iteration
      ∧ r'.1.annealer.generator = r.1.annealer.generator
      ∧ r'.1.annealer.estimate.samples = r.1.annealer.estimate.samples
      ∧ r'.1.annealer.estimate.mean = r.1.annealer.estimate.mean / L)
    ∧ List.Forall₂ (fun it' it =>
        it'.number = it.number ∧ it'.taken = it.taken
        ∧ it'.asked.annealer.generator = it.asked.annealer.generator
        ∧ it'.after.annealer.generator = it.after.annealer.generator
        ∧ it'.after.state = it.after.state
        ∧ it'.after.annealer.estimate.samples = it.after.annealer.estimate.samples
        ∧ it'.after.annealer.estimate.mean = it.after.annealer.estimate.mean / L)
      (second.allIterations (problem.rescale L) cs') (first.allIterations problem cs) := by
  intro first second cs' r r'
  -- without samples there is nothing to rescale, so the second search is the first rescaled
  have hsecond : second = first.rescale L :=
    congrArg (fun e => Search.mk { first.annealer with tuning := tuning.rescale L, estimate := e }
      flags state) (empty_rescale L).symm
  have hr' : r' = (r.1.rescale L, r.2.map (Report.rescale L)) := by
    show second.performAll (problem.rescale L) cs' = _
    rw [hsecond]
    exact performAll_rescale hL problem cs first
  have hits : second.allIterations (problem.rescale L) cs'
      = (first.allIterations problem cs).map (Iteration.rescale L) := by
    rw [hsecond]
    exact allIterations_rescale hL problem cs first
  refine ⟨?_, ?_, ?_⟩
  · rw [hr', List.map_map]
    rfl
  · rw [hr']
    exact ⟨rfl, rfl, rfl, rfl, rfl, rfl, rfl⟩
  · rw [hits, List.forall₂_map_left_iff]
    exact List.forall₂_same.mpr fun it _ => ⟨rfl, rfl, rfl, rfl, rfl, rfl, rfl⟩

end Search

/-- A walk whose steps cost three each is the same walk at a cost of six. -/
theorem Search.history_scaleInvariant_walk :
    let walk : Problem ℝ Unit Int Int :=
      .ofFunctions (fun _ _ _ => ⟨(), [], .ok ⟨1, 3⟩⟩) (fun _ x step => ⟨(), [], .ok (x + step)⟩)
    let search (t : Tuning ℝ) : Search ℝ Cycle Unit Int :=
      ⟨.create () t (.ofWords #[1, 5]) ⟨0⟩, ⟨#[false]⟩, 0⟩
    let cs : List (Command ℝ Unit Int) := [.run none 30, .setScale 1, .run none 2, .reset]
    (0 : ℝ) < 2 ∧ ((search ((default : Tuning ℝ).rescale 2)).performAll (walk.rescale 2)
        (cs.map (Command.rescale 2))).2.map (·.result)
      = ((search default).performAll walk cs).2.map (·.result) := by
  intro walk search cs
  have hpos : (0 : ℝ) < 2 := by norm_num
  exact ⟨hpos, (Search.history_scaleInvariant hpos walk () default _ _ _ _ cs).1⟩

end

end Annealing
