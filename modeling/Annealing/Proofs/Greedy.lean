/-
  Annealing.Proofs.Greedy
  ───────────────────────
  **WITHOUT RISK A SEARCH IS GREEDY.**

  An iteration is a risk if it finds a worsening difference while the temperature
  is positive.  Without risk it is the iteration of a greedy search, which takes
  exactly the moves that do not worsen the cost: it decides without a word, learns
  nothing, and looks at no scale.  So two searches that take no risk go the same
  way, whatever their generators, scales and estimates; and no run of theirs
  returns a candidate that costs more than the one it was given.

    • `Riskless.iterate_eq` — without risk, an iteration is a greedy one,
    • `Twins.greedily`, `Twins.perform` — greedy searches on one problem go the
      same way,
    • `history_greedy` — the three laws for histories.
-/
import Mathlib
import Annealing.Generator.Cycle
import Annealing.Generator.SplitMix
import Annealing.Proofs.Judgement
import Annealing.Proofs.Lockstep
import Annealing.Proofs.Protocol

namespace Annealing

/-! ## §1. Risk -/

section
variable {α γ π σ μ : Type} [Scalar α] [Generator γ]

namespace Problem

/-- **No risk is taken in the iteration that begins here**: the difference that is proposed,
if one is, does not worsen the cost, or the temperature is zero, negative or NaN. -/
def Riskless (problem : Problem α π σ μ) (p : Progress α γ π σ) : Prop :=
  ∀ proposal, (problem.propose p).2 = .ok proposal →
    proposal.delta ≤ 0 ∨ ¬ 0 < p.annealer.temperature

instance (problem : Problem α π σ μ) (p : Progress α γ π σ) : Decidable (problem.Riskless p) :=
  match h : (problem.propose p).2 with
  | .error _ => isTrue fun _ heq => absurd (h.symm.trans heq) (by simp)
  | .ok proposal =>
      decidable_of_iff (proposal.delta ≤ 0 ∨ ¬ 0 < p.annealer.temperature)
        ⟨fun hsafe _ heq => Except.ok.inj (h.symm.trans heq) ▸ hsafe, fun hsafe => hsafe _ h⟩

/-- **An iteration of a greedy search**: a move is carried out exactly if it does not worsen
the cost. -/
def greedily (problem : Problem α π σ μ) (p : Progress α γ π σ) :
    Progress α γ π σ × Option String :=
  match problem.propose p with
  | (p, .error reason) => (p, some reason)
  | (p, .ok proposal) =>
    if proposal.delta ≤ 0 then
      match problem.carryOut p proposal.move with
      | (p, .error reason) => (p, some reason)
      | (p, .ok state) => ((p.accept state).count, none)
    else (p.count, none)

end Problem

/-- Without risk, weighing a difference does nothing but compare it with zero. -/
theorem Progress.weigh_of_riskless {p : Progress α γ π σ} {delta : α}
    (h : delta ≤ 0 ∨ ¬ 0 < p.annealer.temperature) : p.weigh delta = (p, decide (delta ≤ 0)) := by
  rw [weigh_eq]
  unfold Tuning.judge
  by_cases himproves : delta ≤ 0
  · rw [if_pos himproves, decide_eq_true himproves]
    rfl
  · have hcold : ¬ 0 < p.annealer.tuning.temperature p.annealer.iteration :=
      h.resolve_left himproves
    simp only [if_neg himproves, if_neg hcold, decide_eq_false himproves]
    rfl

namespace Problem

variable {problem : Problem α π σ μ} {p : Progress α γ π σ}

theorem Riskless.weigh (h : problem.Riskless p) {asked : Progress α γ π σ}
    {proposal : Proposal α μ} (asks : problem.propose p = (asked, .ok proposal)) :
    asked.weigh proposal.delta = (asked, decide (proposal.delta ≤ 0)) := by
  have hkeeps := Progress.Keeps.propose asks
  have htemperature : asked.annealer.temperature = p.annealer.temperature := by
    unfold Annealer.temperature
    rw [hkeeps.tuning, hkeeps.iteration]
  refine Progress.weigh_of_riskless ?_
  rw [htemperature]
  exact h proposal (by rw [asks])

/-- **Without risk, an iteration is a greedy one**, also if the problem fails in it. -/
theorem Riskless.iterate_eq (h : problem.Riskless p) :
    problem.iterate p = problem.greedily p := by
  unfold iterate greedily
  cases hasks : problem.propose p with
  | mk asked answer =>
      cases answer with
      | error reason => rfl
      | ok proposal =>
          simp only [h.weigh hasks]
          by_cases himproves : proposal.delta ≤ 0
          · rewrite [decide_eq_true himproves, if_pos himproves]
            rfl
          · rw [decide_eq_false himproves, if_neg himproves]

/-- A greedy iteration learns nothing. -/
theorem greedily_estimate (problem : Problem α π σ μ) (p : Progress α γ π σ) :
    (problem.greedily p).1.annealer.estimate = p.annealer.estimate := by
  have hasked : (problem.propose p).1.annealer.estimate = p.annealer.estimate := rfl
  have hcarries : ∀ (q : Progress α γ π σ) move,
      (problem.carryOut q move).1.annealer.estimate = q.annealer.estimate := fun _ _ => rfl
  unfold greedily
  cases hasks : problem.propose p with
  | mk asked answer =>
      rw [hasks] at hasked
      cases answer with
      | error reason => exact hasked
      | ok proposal =>
          by_cases himproves : proposal.delta ≤ 0
          · have hcarried := hcarries asked proposal.move
            simp only [if_pos himproves]
            cases hu : problem.carryOut asked proposal.move with
            | mk u answer =>
                rw [hu] at hcarried
                cases answer <;> exact hcarried.trans hasked
          · simp only [if_neg himproves]
            exact hasked

/-- **A completed iteration without risk** takes its move exactly if it does not worsen the
cost, draws no word once the proposal is made, and learns nothing. -/
theorem Completes.of_riskless {it : Iteration α γ π σ μ} (h : problem.Completes it)
    (hr : problem.Riskless it.before) :
    it.taken = decide (it.delta ≤ 0)
      ∧ it.after.annealer.generator = it.asked.annealer.generator
      ∧ it.after.annealer.estimate = it.before.annealer.estimate := by
  have hestimate : it.after.annealer.estimate = it.before.annealer.estimate := by
    have hlast := problem.greedily_estimate it.before
    rwa [← hr.iterate_eq, h.iterate_eq] at hlast
  obtain ⟨r, hr', -, hgenerator⟩ := h.weigh_eq
  obtain ⟨hasked, htaken⟩ := Prod.ext_iff.mp ((hr.weigh h.propose_eq).symm.trans hr')
  have hsame : it.asked = r := hasked
  exact ⟨htaken.symm, by rw [hgenerator, hsame], hestimate⟩

end Problem

namespace Search

/-- **Without risk, only a reset changes the estimate.** -/
theorem perform_estimate_of_riskless {s : Search α γ π σ} {problem : Problem α π σ μ}
    {c : Command α π σ} (h : ∀ p ∈ s.attemptsOf problem c, problem.Riskless p)
    (hc : c.isReset = false) :
    (s.perform problem c).1.annealer.estimate = s.annealer.estimate := by
  have hrun : ∀ (start : Option σ) (n : UInt64),
      (∀ p ∈ s.annealer.attempts problem s.flags (start.getD s.state) n, problem.Riskless p) →
      (s.run problem start n).1.annealer.estimate = s.annealer.estimate := by
    intro start n hriskless
    show (s.annealer.run problem s.flags _ n).annealer.estimate = _
    rw [s.annealer.run_annealer]
    refine Problem.advance_invariant
      (J := fun p => p.annealer.estimate = s.annealer.estimate) _ (fun p hp hJ => ?_) rfl
    rw [(hriskless p hp).iterate_eq, problem.greedily_estimate]
    exact hJ
  cases c with
  | run start n => exact hrun start n h
  | runBatch start => exact hrun start Annealer.batchSize h
  | reset => exact absurd hc (by simp [Command.isReset])
  | _ => rfl

end Search

end

/-! ## §2. Twins -/

/-- Two points of greedy searches on one problem, with generators of any kind: they differ in
generator, seed, scale and estimate, and in nothing that a greedy search looks at. -/
structure Progress.Twins {α γ γ' π σ : Type} [Scalar α] (p : Progress α γ π σ)
    (p' : Progress α γ' π σ) : Prop where
  memory : p'.annealer.memory = p.annealer.memory
  iteration : p'.annealer.iteration = p.annealer.iteration
  state : p'.state = p.state
  accepted : p'.accepted = p.accepted
  abort : p'.annealer.abort = p.annealer.abort
  flag : p.flags.Alike p.annealer.abort p'.flags p'.annealer.abort
  temperature : ∀ i, p'.annealer.tuning.temperature i = p.annealer.tuning.temperature i

/-- The problem uses no word of the generator that it is lent. -/
def Problem.DrawsNothing {α π σ μ : Type} (problem : Problem α π σ μ) : Prop :=
  ∀ memory state iteration, ∃ reply, problem.choose memory state iteration = .done reply

/-- A proposal made without a word leaves the generator. -/
theorem Problem.propose_of_done {α γ π σ μ : Type} [Generator γ] {problem : Problem α π σ μ}
    {p : Progress α γ π σ} {reply : Reply π (Proposal α μ)}
    (h : problem.choose p.annealer.memory p.state p.annealer.iteration = .done reply) :
    problem.propose p = (p.absorb reply, reply.result) := by
  unfold propose
  simp only [h]
  rfl

namespace Progress.Twins

variable {α γ γ' π σ μ : Type} [Scalar α] {problem : Problem α π σ μ}
  {p : Progress α γ π σ} {p' : Progress α γ' π σ}

theorem annealer_temperature (h : p.Twins p') :
    p'.annealer.temperature = p.annealer.temperature := by
  unfold Annealer.temperature
  rw [h.iteration, h.temperature]

theorem absorb {β : Type} (h : p.Twins p') (reply : Reply π β) :
    (p.absorb reply).Twins (p'.absorb reply) :=
  { h with
    memory := rfl
    flag := h.flag.abortAll (by rw [h.abort]) }

theorem count (h : p.Twins p') : p.count.Twins p'.count :=
  { h with iteration := congrArg (· + 1) h.iteration }

theorem accept (h : p.Twins p') (state : σ) : (p.accept state).Twins (p'.accept state) :=
  { h with
    state := rfl
    accepted := congrArg (· + 1) h.accepted }

theorem carryOut (h : p.Twins p') (problem : Problem α π σ μ) (move : μ) :
    (problem.carryOut p move).1.Twins (problem.carryOut p' move).1
      ∧ (problem.carryOut p' move).2 = (problem.carryOut p move).2 := by
  unfold Problem.carryOut
  rw [h.memory, h.state]
  exact ⟨h.absorb _, rfl⟩

variable [Generator γ] [Generator γ'] (draws : problem.DrawsNothing)
include draws

theorem propose (h : p.Twins p') :
    (problem.propose p).1.Twins (problem.propose p').1
      ∧ (problem.propose p').2 = (problem.propose p).2 := by
  obtain ⟨reply, hreply⟩ := draws p.annealer.memory p.state p.annealer.iteration
  have hreply' : problem.choose p'.annealer.memory p'.state p'.annealer.iteration
      = .done reply := by
    rw [h.memory, h.state, h.iteration]
    exact hreply
  rw [Problem.propose_of_done hreply, Problem.propose_of_done hreply']
  exact ⟨h.absorb reply, rfl⟩

/-- Twins run the same risk. -/
theorem riskless (h : p.Twins p') (hp : problem.Riskless p) : problem.Riskless p' := by
  intro proposal hproposal
  rw [(h.propose draws).2] at hproposal
  rw [h.annealer_temperature]
  exact hp proposal hproposal

/-- **Greedy iterations keep two points twins**, and the problem fails in both or in
neither. -/
theorem greedily (h : p.Twins p') :
    (problem.greedily p).1.Twins (problem.greedily p').1
      ∧ (problem.greedily p').2 = (problem.greedily p).2 := by
  obtain ⟨hasked, hanswer⟩ := h.propose draws
  unfold Problem.greedily
  cases hasks : problem.propose p with
  | mk asked answer =>
      cases hasks' : problem.propose p' with
      | mk asked' answer' =>
          rw [hasks, hasks'] at hasked hanswer
          have ha : answer' = answer := hanswer
          subst ha
          cases answer' with
          | error reason => exact ⟨hasked, rfl⟩
          | ok proposal =>
              by_cases himproves : proposal.delta ≤ 0
              · simp only [if_pos himproves]
                obtain ⟨hcarried, hstate⟩ := hasked.carryOut problem proposal.move
                cases hu : problem.carryOut asked proposal.move with
                | mk u answer =>
                    cases hu' : problem.carryOut asked' proposal.move with
                    | mk u' answer' =>
                        rw [hu, hu'] at hcarried hstate
                        have hs : answer' = answer := hstate
                        subst hs
                        cases answer' with
                        | error reason => exact ⟨hcarried, rfl⟩
                        | ok state => exact ⟨(hcarried.accept state).count, rfl⟩
              · simp only [if_neg himproves]
                exact ⟨hasked.count, trivial⟩

/-- Without risk, so do the iterations of any two searches. -/
theorem iterate (hp : problem.Riskless p) (h : p.Twins p') :
    (problem.iterate p).1.Twins (problem.iterate p').1
      ∧ (problem.iterate p').2 = (problem.iterate p).2 := by
  rw [hp.iterate_eq, (h.riskless draws hp).iterate_eq]
  exact h.greedily draws

end Progress.Twins

/-- Does the command leave budget and schedule alone? -/
def Command.keepsCooling {α π σ : Type} : Command α π σ → Bool
  | .setBudget _ | .setSchedule _ => false
  | _ => true

namespace Search

variable {α γ γ' π σ μ : Type} [Scalar α]

/-- Two searches on one problem that differ in nothing that a greedy search looks at. -/
def Twins (s : Search α γ π σ) (s' : Search α γ' π σ) : Prop :=
  (s.annealer.start s.flags s.state).Twins (s'.annealer.start s'.flags s'.state)

variable [Generator γ] [Generator γ'] {problem : Problem α π σ μ} {s : Search α γ π σ}
  {s' : Search α γ' π σ}

/-- **Runs without risk keep two searches twins**, and return the same. -/
theorem Twins.run (draws : problem.DrawsNothing) (h : s.Twins s') {start : Option σ}
    {n : UInt64}
    (hr : ∀ p ∈ s.annealer.attempts problem s.flags (start.getD s.state) n, problem.Riskless p) :
    (s.run problem start n).1.Twins (s'.run problem start n).1
      ∧ (s'.run problem start n).2.result = (s.run problem start n).2.result := by
  have hcounter : s'.annealer.iteration = s.annealer.iteration := h.iteration
  have hstate : start.getD s'.state = start.getD s.state := congrArg start.getD h.state
  have hstart : (s.annealer.start s.flags (start.getD s.state)).Twins
      (s'.annealer.start s'.flags (start.getD s'.state)) := { h with state := hstate }
  -- from twin points two runs report the same result, and twins of every candidate
  let Q (r : Report α γ π σ) (r' : Report α γ' π σ) : Prop :=
    r'.result = r.result
      ∧ ∀ state : σ, (r.annealer.start r.flags state).Twins (r'.annealer.start r'.flags state)
  have hQ : Q (s.annealer.run problem s.flags (start.getD s.state) n)
      (s'.annealer.run problem s'.flags (start.getD s'.state) n) := by
    refine Annealer.run_related (Q := Q) (fun h => h.flag.raised)
      (fun hp h => h.iterate draws hp) hcounter hr hstart ?_ ?_
    · intro p p' aborted hp
      refine ⟨?_, fun state => { hp with state := rfl, accepted := rfl }⟩
      rw [Annealer.conclude_result, Annealer.conclude_result]
      unfold Annealer.outcome
      rw [hp.state, hp.accepted, hp.iteration, hp.annealer_temperature, hcounter]
    · intro p p' reason hp _
      exact ⟨rfl, fun state => { hp with state := rfl, accepted := rfl }⟩
  obtain ⟨hresult, htwins⟩ := hQ
  -- and so the next run starts from the same candidate
  have hreport : (s'.run problem start n).2.result = (s.run problem start n).2.result := hresult
  have hnext : (s'.run problem start n).1.state = (s.run problem start n).1.state := by
    rw [run_state, run_state, hreport, hstate]
  exact ⟨{ htwins (start.getD s.state) with state := hnext }, hreport⟩

theorem Twins.perform (draws : problem.DrawsNothing) {c : Command α π σ}
    (hr : ∀ p ∈ s.attemptsOf problem c, problem.Riskless p) (h : s.Twins s')
    (hc : c.keepsCooling = true) :
    (s.perform problem c).1.Twins (s'.perform problem c).1
      ∧ List.Forall₂ (fun (r : Report α γ π σ) (r' : Report α γ' π σ) => r'.result = r.result)
          (s.perform problem c).2.toList (s'.perform problem c).2.toList := by
  cases c with
  | run start n =>
      obtain ⟨hthen, hresult⟩ := Twins.run draws h hr
      exact ⟨hthen, .cons hresult .nil⟩
  | runBatch start =>
      obtain ⟨hthen, hresult⟩ := Twins.run draws h hr
      exact ⟨hthen, .cons hresult .nil⟩
  | reset => exact ⟨{ h with iteration := rfl, flag := h.flag.clear }, .nil⟩
  | abort => exact ⟨{ h with flag := h.flag.abort (iff_of_true rfl rfl) }, .nil⟩
  | raise handle =>
      have hsame : handle = s'.annealer.abort ↔ handle = s.annealer.abort :=
        iff_of_eq (congrArg (handle = ·) h.abort)
      exact ⟨{ h with flag := h.flag.abort hsame }, .nil⟩
  | setScale scale => exact ⟨{ h with temperature := h.temperature }, .nil⟩
  | amend change => exact ⟨{ h with memory := congrArg change h.memory }, .nil⟩
  | setBudget _ => cases hc
  | setSchedule _ => cases hc

end Search

/-! ## §3. The cost -/

section
variable {α γ π σ μ : Type} [Scalar α] [Generator γ] {problem : Problem α π σ μ}

/-- What no iteration makes cost more, a row of iterations does not. -/
theorem Problem.Passes.cost_le {cost : σ → ℝ} {p q : Progress α γ π σ}
    {its : List (Iteration α γ π σ μ)} (h : problem.Passes p its q)
    (falls : ∀ it ∈ its, cost it.after.state ≤ cost it.before.state) :
    cost q.state ≤ cost p.state := by
  induction h with
  | done p => exact le_rfl
  | step first _ ih =>
      obtain ⟨hfirst, hrest⟩ := List.forall_mem_cons.mp falls
      exact (ih hrest).trans hfirst

/-- Nor does a run of a history. -/
theorem Search.sessions_cost_le {cost : σ → ℝ} {cs : List (Command α π σ)} :
    ∀ {s : Search α γ π σ},
      (∀ it ∈ s.allIterations problem cs, cost it.after.state ≤ cost it.before.state) →
      ∀ session ∈ s.sessions problem cs, ∀ o, session.report.result = .ok o →
        cost o.state ≤ cost session.input := by
  induction cs with
  | nil => intro s _ session h; exact absurd h List.not_mem_nil
  | cons c cs ih =>
      intro s falls session hsession o ho
      obtain ⟨hfirst, hrest⟩ := List.forall_mem_append.mp falls
      unfold sessions at hsession
      unfold iterationsOf at hfirst
      cases hreq : c.request with
      | none =>
          rw [hreq] at hsession
          exact ih hrest session hsession o ho
      | some request =>
          obtain ⟨start, n⟩ := request
          rw [hreq] at hsession hfirst
          rcases List.mem_cons.mp hsession with rfl | hsession
          · have hrun : (s.annealer.run problem s.flags (start.getD s.state) n).result = .ok o := ho
            obtain ⟨q, hq, -, -, hout⟩ := Annealer.run_eq_conclude hrun
            rw [hout]
            exact hq.cost_le hfirst
          · exact ih hrest session hsession o ho

end

/-! ## §4. Histories -/

namespace Search

variable {α γ π σ μ : Type} [Scalar α] [Generator γ]

/-- **Without risk a search is greedy.**  In a history that takes no risk at any point at which
it begins an iteration, runs in which the problem fails included,

  * each iteration is a greedy one; one that is completed takes its move exactly if it does not
    worsen the cost, draws no word after the problem's own, and learns nothing;
  * only a reset changes the estimate;
  * on a problem that draws nothing, with budget and schedule left alone, every search that has
    the same memory, counter, candidate, flag and temperatures returns the same from every run,
    whatever its generator, scale and estimate;
  * for every cost that changes with each move taken by the exact value of its difference, no
    run returns a candidate that costs more than the one it was given. -/
theorem history_greedy (s : Search α γ π σ) (problem : Problem α π σ μ)
    (cs : List (Command α π σ)) (hr : ∀ p ∈ s.attempts problem cs, problem.Riskless p) :
    let its := s.allIterations problem cs
    (∀ p ∈ s.attempts problem cs, problem.iterate p = problem.greedily p)
    ∧ (∀ it ∈ its, it.taken = decide (it.delta ≤ 0)
        ∧ it.after.annealer.generator = it.asked.annealer.generator
        ∧ it.after.annealer.estimate = it.before.annealer.estimate)
    ∧ (∀ earlier c later, cs = earlier ++ c :: later → c.isReset = false →
        let before := (s.performAll problem earlier).1
        (before.perform problem c).1.annealer.estimate = before.annealer.estimate)
    ∧ (∀ (γ' : Type) [Generator γ'] (s' : Search α γ' π σ), problem.DrawsNothing →
        (∀ c ∈ cs, c.keepsCooling = true) → s.Twins s' →
        (s.performAll problem cs).1.Twins (s'.performAll problem cs).1
          ∧ List.Forall₂ (fun (r : Report α γ π σ) (r' : Report α γ' π σ) => r'.result = r.result)
              (s.performAll problem cs).2 (s'.performAll problem cs).2)
    ∧ ∀ (value : α → ℝ) (cost : σ → ℝ), (∀ delta : α, delta ≤ 0 → value delta ≤ 0) →
        (∀ it ∈ its, it.taken = true →
          cost it.after.state = cost it.before.state + value it.delta) →
        ∀ session ∈ s.sessions problem cs, ∀ o, session.report.result = .ok o →
          cost o.state ≤ cost session.input := by
  intro its
  have hcompletes : ∀ it ∈ its, problem.Completes it ∧ problem.Riskless it.before :=
    fun it hit => ⟨completes_of_mem_allIterations hit, hr _ (before_mem_attempts hit)⟩
  refine ⟨fun p hp => (hr p hp).iterate_eq, fun it hit => ?_, ?_, ?_, ?_⟩
  · obtain ⟨hc, hriskless⟩ := hcompletes it hit
    exact hc.of_riskless hriskless
  · intro earlier c later hsplit hc before
    subst hsplit
    rw [attempts_append] at hr
    exact perform_estimate_of_riskless (fun p hp => hr p (List.mem_append_right _
      (List.mem_append_left _ hp))) hc
  · intro γ' _ s' draws hkeeps htwins
    have hsame : List.Forall₂ (fun c c' : Command α π σ => c' = c ∧ c.keepsCooling = true) cs cs :=
      List.forall₂_same.mpr fun c hc => ⟨rfl, hkeeps c hc⟩
    refine performAll_related (S := fun s s' => s.Twins s') (C := problem.Riskless) ?_
      (.of_forall₂ hsame s s') hr htwins
    rintro s s' c c' hriskless h ⟨rfl, hc⟩
    exact h.perform draws hriskless hc
  · intro value cost hvalue hcost
    refine sessions_cost_le fun it hit => ?_
    obtain ⟨hc, hriskless⟩ := hcompletes it hit
    cases htaken : it.taken with
    | false => exact le_of_eq (congrArg cost (hc.state_eq htaken))
    | true =>
        have himproves : it.delta ≤ 0 := by
          have hdecided := (hc.of_riskless hriskless).1
          rw [htaken] at hdecided
          exact of_decide_eq_true hdecided.symm
        rw [hcost it hit htaken]
        exact add_le_of_nonpos_right (hvalue _ himproves)

/-- A walk that is warm for its first step only, with a budget, a scale and an estimate that
are not finite. -/
def coolingWalk : Search Float Cycle Unit Int where
  annealer :=
    { Annealer.create () ⟨1 / 0, 0 / 0, .custom fun i _ => 1 - i, none⟩ (.ofWords #[7, 1]) ⟨0⟩ with
      estimate := ⟨0 / 0, 5⟩ }
  flags := ⟨#[false]⟩
  state := -3

/-- The same walk with another generator and a scale of its own. -/
def coolingTwin : Search Float SplitMix Unit Int where
  annealer := .create () ⟨20, 3, .custom fun i _ => 1 - i, some 4⟩ ⟨9⟩ ⟨0⟩
  flags := ⟨#[false]⟩
  state := -3

/-- Two runs, the second cut short by the flag. -/
def shortWalk : List (Command Float Unit Int) :=
  [.run none 5, .setScale 2, .abort, .run none 3]

/-- The walk goes down at its even steps and refuses the odd ones, and so does its twin. -/
theorem history_greedy_coolingWalk :
    (∀ p ∈ coolingWalk.attempts Walk.alternating shortWalk, Walk.alternating.Riskless p)
    ∧ (∀ it ∈ coolingWalk.allIterations Walk.alternating shortWalk,
        it.taken = decide (it.delta ≤ 0))
    ∧ coolingWalk.Twins coolingTwin
    ∧ List.Forall₂ (fun (r : Report Float Cycle Unit Int) (r' : Report Float SplitMix Unit Int) =>
          r'.result = r.result)
        (coolingWalk.performAll Walk.alternating shortWalk).2
        (coolingTwin.performAll Walk.alternating shortWalk).2
    ∧ ∀ session ∈ coolingWalk.sessions Walk.alternating shortWalk, ∀ o,
        session.report.result = .ok o → |(o.state : ℝ)| ≤ |(session.input : ℝ)| := by
  have hr : ∀ p ∈ coolingWalk.attempts Walk.alternating shortWalk,
      Walk.alternating.Riskless p := by decide +kernel
  have hsteps : ∀ it ∈ coolingWalk.allIterations Walk.alternating shortWalk,
      it.taken = true → |it.after.state| = |it.before.state| - 1 ∧ it.delta ≤ 0 := by
    decide +kernel
  have htwins : coolingWalk.Twins coolingTwin :=
    ⟨rfl, rfl, rfl, rfl, rfl, ⟨rfl, Iff.rfl⟩, fun _ => rfl⟩
  obtain ⟨-, hgreedy, -, htwin, hcost⟩ := history_greedy coolingWalk Walk.alternating shortWalk hr
  refine ⟨hr, fun it hit => (hgreedy it hit).1, htwins,
    (htwin SplitMix coolingTwin (fun _ _ _ => ⟨_, rfl⟩) (by decide) htwins).2, ?_⟩
  refine hcost (fun delta => if delta ≤ 0 then -1 else 1) (fun x => |(x : ℝ)|) ?_ ?_
  · intro delta hdelta
    rw [if_pos hdelta]
    norm_num
  · intro it hit htaken
    obtain ⟨hstep, hdelta⟩ := hsteps it hit htaken
    rw [if_pos hdelta, ← Int.cast_abs, ← Int.cast_abs, hstep]
    push_cast
    ring

end Search

end Annealing
