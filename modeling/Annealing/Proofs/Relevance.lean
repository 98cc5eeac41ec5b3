/-
  Annealing.Proofs.Relevance
  ──────────────────────────
  **WHAT A SEARCH DEPENDS ON.**

  Of a cost difference and a temperature a search takes in only what its judgement
  needs.  All improvements are alike, and so are all worsenings while it is not
  warm; only a worsening difference in warmth counts with its value, and there the
  temperature counts with its own.  So two searches may differ in their schedules,
  and their problems in the differences that they propose: as long as no iteration
  tells them apart in this sense, they go the same way.

    • `Tuning.judge_of_indifferent` — the same is decided and learned of two
      differences that are not told apart,
    • `Leeway` — what two searches may differ in, and when they go the same way,
    • `Problems.iterate`, `Problems.perform` — iterations and commands keep them so,
    • `history_relevance` — histories in which no iteration tells two searches
      apart; improvements of another size; schedules that agree where they are
      looked at.
-/
import Annealing.Generator.Cycle
import Annealing.Problem.Walk
import Annealing.Proofs.Counters
import Annealing.Proofs.Judgement
import Annealing.Proofs.Lockstep
import Annealing.Schedule.Rules

namespace Annealing

/-! ## §1. Differences that are not told apart -/

section
variable {α : Type} [Scalar α]

/-- **No judgement tells these apart**: the differences are both improvements, or both worsen
the cost while neither search is warm, or they are the same at the same temperature. -/
def Indifferent (delta temperature delta' temperature' : α) : Prop :=
  (delta ≤ 0 ∧ delta' ≤ 0)
    ∨ (¬ delta ≤ 0 ∧ ¬ delta' ≤ 0 ∧ ¬ 0 < temperature ∧ ¬ 0 < temperature')
    ∨ (delta' = delta ∧ temperature' = temperature)

instance [DecidableEq α] (delta temperature delta' temperature' : α) :
    Decidable (Indifferent delta temperature delta' temperature') :=
  inferInstanceAs (Decidable (_ ∨ _ ∨ _))

theorem Tuning.judge_of_improving {t : Tuning α} {delta : α} (improves : delta ≤ 0) (i : UInt64)
    (e : ScaleEstimate α) : t.judge i e delta = (.taken, e) := by
  unfold judge
  rw [if_pos improves]

theorem Tuning.judge_of_cold {t : Tuning α} {i : UInt64} {delta : α} (worsens : ¬ delta ≤ 0)
    (cold : ¬ 0 < t.temperature i) (e : ScaleEstimate α) : t.judge i e delta = (.refused, e) := by
  unfold judge
  simp only [if_neg worsens, if_neg cold]

/-- **The same is decided and learned** of differences that are not told apart, whatever the
schedules, if budgets and scales are equal. -/
theorem Tuning.judge_of_indifferent {t t' : Tuning α} {i : UInt64} {delta delta' : α}
    (budget : t'.budget = t.budget) (scale : t'.scale = t.scale)
    (same : Indifferent delta (t.temperature i) delta' (t'.temperature i))
    (e : ScaleEstimate α) : t'.judge i e delta' = t.judge i e delta := by
  rcases same with ⟨improves, improves'⟩ | ⟨worsens, worsens', cold, cold'⟩ | ⟨rfl, temperature⟩
  · rw [judge_of_improving improves, judge_of_improving improves']
  · rw [judge_of_cold worsens cold, judge_of_cold worsens' cold']
  · unfold judge scaleFor hasScale inLearningWindow
    rw [temperature, scale, budget]

end

/-- **The two iterations that begin here are not told apart** by what is proposed in them. -/
def Problem.IndifferentAt {α γ π π' σ μ : Type} [Scalar α] [Generator γ]
    (problem : Problem α π σ μ) (problem' : Problem α π' σ μ) (p : Progress α γ π σ)
    (p' : Progress α γ π' σ) : Prop :=
  ∀ proposal proposal', (problem.propose p).2 = .ok proposal →
    (problem'.propose p').2 = .ok proposal' →
    Indifferent proposal.delta p.annealer.temperature proposal'.delta p'.annealer.temperature

instance {α γ π π' σ μ : Type} [Scalar α] [DecidableEq α] [Generator γ] (problem : Problem α π σ μ)
    (problem' : Problem α π' σ μ) (p : Progress α γ π σ) (p' : Progress α γ π' σ) :
    Decidable (problem.IndifferentAt problem' p p') :=
  match h : (problem.propose p).2, h' : (problem'.propose p').2 with
  | .error _, _ => isTrue fun _ _ heq => absurd (h.symm.trans heq) (by simp)
  | .ok _, .error _ => isTrue fun _ _ _ heq => absurd (h'.symm.trans heq) (by simp)
  | .ok proposal, .ok proposal' =>
      decidable_of_iff
        (Indifferent proposal.delta p.annealer.temperature proposal'.delta p'.annealer.temperature)
        ⟨fun same _ _ heq heq' =>
          Except.ok.inj (h.symm.trans heq) ▸ Except.ok.inj (h'.symm.trans heq') ▸ same,
          fun same => same _ _ h h'⟩

/-! ## §2. What may differ -/

/-- The same event at another temperature. -/
def Event.withTemperature {α : Type} (temperature : α) : Event α → Event α
  | .finished iterations accepted _ scale stopped =>
      .finished iterations accepted temperature scale stopped
  | .aborted iteration => .aborted iteration
  | .frozen estimate => .frozen estimate

/-- **What two searches may differ in**: their problems' memories and the differences proposed,
their schedules, and the handles of their flags. -/
structure Leeway (α π π' : Type) where
  /-- The memory of one may go with that of the other. -/
  memories : π → π' → Prop
  /-- The one may propose this difference where the other proposes that. -/
  deltas : α → α → Prop
  /-- The one may cool by this schedule where the other cools by that. -/
  schedules : Schedule α → Schedule α → Prop
  /-- The handle of the flag that stops the one search. -/
  handle : AbortHandle
  /-- The handle of the flag that stops the other. -/
  handle' : AbortHandle

namespace Leeway

variable {α γ π π' σ μ : Type} (L : Leeway α π π')

/-- Two answers propose the same move, or fail for the same reason. -/
inductive Answers : Except String (Proposal α μ) → Except String (Proposal α μ) → Prop where
  | proposes (move : μ) {delta delta' : α} (differ : L.deltas delta delta') :
      Answers (.ok ⟨move, delta⟩) (.ok ⟨move, delta'⟩)
  | fails (reason : String) : Answers (.error reason) (.error reason)

/-- Two problems' replies leave memories that go together and raise the flag both or neither,
and their results are related. -/
structure Replies {β : Type} (results : Except String β → Except String β → Prop)
    (reply : Reply π β) (reply' : Reply π' β) : Prop where
  memory : L.memories reply.memory reply'.memory
  fired : L.handle' ∈ reply'.fired ↔ L.handle ∈ reply.fired
  result : results reply.result reply'.result

/-- **Two problems make the same moves**: with memories that go together they propose the same
moves, leave the generator equal, and apply moves alike. -/
structure Problems [Generator γ] (problem : Problem α π σ μ) (problem' : Problem α π' σ μ) :
    Prop where
  choose : ∀ {memory memory'} state iteration (g : γ), L.memories memory memory' →
    L.Replies L.Answers ((problem.choose memory state iteration).run g).1
        ((problem'.choose memory' state iteration).run g).1
      ∧ ((problem'.choose memory' state iteration).run g).2
        = ((problem.choose memory state iteration).run g).2
  apply : ∀ {memory memory'} state move, L.memories memory memory' →
    L.Replies (fun result result' => result' = result) (problem.apply memory state move)
      (problem'.apply memory' state move)

/-- **Two annealers differ only so far.**  Their seeds, which no run looks at, may differ as
well. -/
structure Annealers (a : Annealer α γ π) (a' : Annealer α γ π') : Prop where
  memory : L.memories a.memory a'.memory
  schedule : L.schedules a.tuning.schedule a'.tuning.schedule
  budget : a'.tuning.budget = a.tuning.budget
  scale : a'.tuning.scale = a.tuning.scale
  generator : a'.generator = a.generator
  iteration : a'.iteration = a.iteration
  estimate : a'.estimate = a.estimate
  handle : a.abort = L.handle
  handle' : a'.abort = L.handle'

/-- Two runs under way differ only so far. -/
structure Progresses (p : Progress α γ π σ) (p' : Progress α γ π' σ) : Prop where
  annealer : L.Annealers p.annealer p'.annealer
  flag : p.flags.Alike L.handle p'.flags L.handle'
  state : p'.state = p.state
  accepted : p'.accepted = p.accepted

/-- Two searches differ only so far. -/
structure Searches (s : Search α γ π σ) (s' : Search α γ π' σ) : Prop where
  annealer : L.Annealers s.annealer s'.annealer
  flag : s.flags.Alike L.handle s'.flags L.handle'
  state : s'.state = s.state

/-- Two reports are the same but for the temperature, also of runs in which the problem fails. -/
structure Reports [Scalar α] (r : Report α γ π σ) (r' : Report α γ π' σ) : Prop where
  annealer : L.Annealers r.annealer r'.annealer
  flag : r.flags.Alike L.handle r'.flags L.handle'
  result : r'.result
    = r.result.map fun o => { o with temperature := r'.annealer.temperature }
  events : r'.events = r.events.map (·.withTemperature r'.annealer.temperature)

/-- Two commands match. -/
inductive Commands : Command α π σ → Command α π' σ → Prop where
  | run (start : Option σ) (n : UInt64) : Commands (.run start n) (.run start n)
  | runBatch (start : Option σ) : Commands (.runBatch start) (.runBatch start)
  | reset : Commands .reset .reset
  | abort : Commands .abort .abort
  /-- Both raise the flag of the search, or neither. -/
  | raise {handle handle' : AbortHandle} (same : handle' = L.handle' ↔ handle = L.handle) :
      Commands (.raise handle) (.raise handle')
  | setBudget (budget : α) : Commands (.setBudget budget) (.setBudget budget)
  | setScale (scale : α) : Commands (.setScale scale) (.setScale scale)
  | setSchedule {schedule schedule' : Schedule α} (differ : L.schedules schedule schedule') :
      Commands (.setSchedule schedule) (.setSchedule schedule')
  | amend {change : π → π} {change' : π' → π'}
      (keeps : ∀ {memory memory'}, L.memories memory memory' →
        L.memories (change memory) (change' memory')) :
      Commands (.amend change) (.amend change')

variable {L}

/-! ## §3. One iteration -/

namespace Progresses

variable {p : Progress α γ π σ} {p' : Progress α γ π' σ}

theorem isAborted (h : L.Progresses p p') : p'.isAborted = p.isAborted := by
  unfold Progress.isAborted
  rw [h.annealer.handle, h.annealer.handle']
  exact h.flag.raised

/-- The problems have answered. -/
theorem absorb {β : Type} {results : Except String β → Except String β → Prop} {reply : Reply π β}
    {reply' : Reply π' β} (h : L.Progresses p p') (replies : L.Replies results reply reply') :
    L.Progresses (p.absorb reply) (p'.absorb reply') :=
  { h with
    annealer := { h.annealer with memory := replies.memory }
    flag := h.flag.abortAll replies.fired }

theorem count (h : L.Progresses p p') : L.Progresses p.count p'.count :=
  { h with annealer := { h.annealer with iteration := congrArg (· + 1) h.annealer.iteration } }

theorem accept (h : L.Progresses p p') (state : σ) :
    L.Progresses (p.accept state) (p'.accept state) :=
  { h with state := rfl, accepted := congrArg (· + 1) h.accepted }

/-- Differences that are not told apart are weighed alike. -/
theorem weigh [Scalar α] [Generator γ] (h : L.Progresses p p') {delta delta' : α}
    (same : Indifferent delta p.annealer.temperature delta' p'.annealer.temperature) :
    L.Progresses (p.weigh delta).1 (p'.weigh delta').1
      ∧ (p'.weigh delta').2 = (p.weigh delta).2 := by
  have hjudge : p'.annealer.tuning.judge p'.annealer.iteration p'.annealer.estimate delta'
      = p.annealer.tuning.judge p.annealer.iteration p.annealer.estimate delta := by
    unfold Annealer.temperature at same
    rw [h.annealer.iteration] at same
    rw [h.annealer.iteration, h.annealer.estimate]
    exact Tuning.judge_of_indifferent h.annealer.budget h.annealer.scale same _
  rw [p.weigh_eq, p'.weigh_eq, hjudge, h.annealer.generator]
  exact ⟨{ h with annealer := { h.annealer with generator := rfl, estimate := rfl } }, rfl⟩

end Progresses

namespace Problems

variable [Generator γ] {problem : Problem α π σ μ} {problem' : Problem α π' σ μ}
  (alike : L.Problems (γ := γ) problem problem') {p : Progress α γ π σ} {p' : Progress α γ π' σ}
include alike

theorem propose (h : L.Progresses p p') :
    L.Progresses (problem.propose p).1 (problem'.propose p').1
      ∧ L.Answers (problem.propose p).2 (problem'.propose p').2 := by
  let asks := problem.choose p.annealer.memory p.state p.annealer.iteration
  let asks' := problem'.choose p'.annealer.memory p'.state p'.annealer.iteration
  have hasks : L.Replies L.Answers (asks.run p.annealer.generator).1
        (asks'.run p'.annealer.generator).1
      ∧ (asks'.run p'.annealer.generator).2 = (asks.run p.annealer.generator).2 := by
    unfold asks'
    rw [h.annealer.iteration, h.annealer.generator, h.state]
    exact alike.choose _ _ _ h.annealer.memory
  obtain ⟨hreplies, hgenerator⟩ := hasks
  have hdrawn : L.Progresses
      { p with annealer.generator := (asks.run p.annealer.generator).2 }
      { p' with annealer.generator := (asks'.run p'.annealer.generator).2 } :=
    { h with annealer := { h.annealer with generator := hgenerator } }
  exact ⟨hdrawn.absorb hreplies, hreplies.result⟩

theorem carryOut (h : L.Progresses p p') (move : μ) :
    L.Progresses (problem.carryOut p move).1 (problem'.carryOut p' move).1
      ∧ (problem'.carryOut p' move).2 = (problem.carryOut p move).2 := by
  have hreplies : L.Replies (fun result result' => result' = result)
      (problem.apply p.annealer.memory p.state move)
      (problem'.apply p'.annealer.memory p'.state move) := by
    rw [h.state]
    exact alike.apply _ _ h.annealer.memory
  exact ⟨h.absorb hreplies, hreplies.result⟩

variable [Scalar α]

/-- **An iteration that does not tell two searches apart keeps them so**, also if the problem
fails in it. -/
theorem iterate (h : L.Progresses p p') (same : problem.IndifferentAt problem' p p') :
    L.Progresses (problem.iterate p).1 (problem'.iterate p').1
      ∧ (problem'.iterate p').2 = (problem.iterate p).2 := by
  obtain ⟨hasked, hanswers⟩ := alike.propose h
  -- proposing changes no temperature
  have htemperature : (problem.propose p).1.annealer.temperature = p.annealer.temperature := rfl
  have htemperature' : (problem'.propose p').1.annealer.temperature = p'.annealer.temperature :=
    rfl
  unfold Problem.IndifferentAt at same
  rw [← htemperature, ← htemperature'] at same
  unfold Problem.iterate
  generalize problem.propose p = asked at hasked hanswers same ⊢
  generalize problem'.propose p' = asked' at hasked hanswers same ⊢
  obtain ⟨q, answer⟩ := asked
  obtain ⟨q', answer'⟩ := asked'
  cases hanswers with
  | fails reason => exact ⟨hasked, rfl⟩
  | @proposes move delta delta' _ =>
      obtain ⟨hweighed, htaken⟩ := hasked.weigh (same _ _ rfl rfl)
      simp only
      generalize q.weigh delta = weighed at hweighed htaken ⊢
      generalize q'.weigh delta' = weighed' at hweighed htaken ⊢
      obtain ⟨r, taken⟩ := weighed
      obtain ⟨r', taken'⟩ := weighed'
      cases htaken
      -- the move is refused in both, or put to both problems
      cases taken with
      | false => exact ⟨hweighed.count, rfl⟩
      | true =>
          obtain ⟨hcarried, hresult⟩ := alike.carryOut hweighed move
          simp only
          generalize problem.carryOut r move = carried at hcarried hresult ⊢
          generalize problem'.carryOut r' move = carried' at hcarried hresult ⊢
          obtain ⟨u, result⟩ := carried
          obtain ⟨u', result'⟩ := carried'
          cases hresult
          cases result with
          | error reason => exact ⟨hcarried, rfl⟩
          | ok state => exact ⟨(hcarried.accept state).count, rfl⟩

/-- Two iterations at one temperature are not told apart by the size of improvements. -/
theorem indifferentAt (h : L.Progresses p p')
    (resized : ∀ delta delta', L.deltas delta delta' → delta ≤ 0 ∧ delta' ≤ 0 ∨ delta' = delta)
    (temperature : p'.annealer.temperature = p.annealer.temperature) :
    problem.IndifferentAt problem' p p' := by
  intro proposal proposal' hproposal hproposal'
  have hanswers := (alike.propose h).2
  rw [hproposal, hproposal'] at hanswers
  cases hanswers with
  | proposes move differ =>
      rcases resized _ _ differ with improve | same
      · exact .inl improve
      · exact .inr (.inr ⟨same, temperature⟩)

end Problems

/-! ## §4. Runs and commands -/

section
variable [Scalar α] {a : Annealer α γ π} {a' : Annealer α γ π'}

theorem Annealers.inLearningWindow (h : L.Annealers a a') :
    a'.inLearningWindow = a.inLearningWindow := by
  unfold Annealer.inLearningWindow Tuning.inLearningWindow
  rw [h.iteration, h.budget]

/-- The other search is as warm as this one would be by its schedule. -/
theorem Annealers.temperature_eq (h : L.Annealers a a') :
    a'.temperature = (a.setSchedule a'.tuning.schedule).temperature := by
  unfold Annealer.temperature Tuning.temperature
  rw [h.iteration, h.budget]
  rfl

/-- What two runs conclude is the same but for the temperature. -/
theorem Progresses.conclude {p : Progress α γ π σ} {p' : Progress α γ π' σ}
    (h : L.Progresses p p') (began : L.Annealers a a') (aborted : Bool) :
    L.Reports (a.conclude p aborted) (a'.conclude p' aborted) := by
  have hfrozen : p'.annealer.hasFrozen a' = p.annealer.hasFrozen a := by
    unfold Annealer.hasFrozen Tuning.hasScale
    rw [h.annealer.inLearningWindow, began.inLearningWindow, h.annealer.scale]
  refine ⟨h.annealer, h.flag, ?_, ?_⟩
  · unfold Annealer.conclude
    simp only [h.annealer.iteration, began.iteration, h.state, h.accepted, Except.map]
  · unfold Annealer.conclude
    simp only [hfrozen, h.annealer.iteration, began.iteration, h.accepted, h.annealer.estimate]
    cases aborted <;> cases p.annealer.hasFrozen a <;> rfl

end

namespace Problems

variable [Scalar α] [Generator γ] {problem : Problem α π σ μ} {problem' : Problem α π' σ μ}
  {C : Progress α γ π σ → Progress α γ π' σ → Prop} {s : Search α γ π σ} {s' : Search α γ π' σ}
  (alike : L.Problems (γ := γ) problem problem')
  (decides : ∀ {p p'}, C p p' → L.Progresses p p' → problem.IndifferentAt problem' p p')
include alike decides

/-- **Runs keep two searches the same but for what may differ**, if no pair of iterations tells
them apart, and begin as many iterations. -/
theorem run (h : L.Searches s s') {start : Option σ} {n : UInt64}
    (hC : ∀ x ∈ (s.annealer.attempts problem s.flags (start.getD s.state) n).zip
        (s'.annealer.attempts problem' s'.flags (start.getD s'.state) n), C x.1 x.2) :
    L.Searches (s.run problem start n).1 (s'.run problem' start n).1
      ∧ L.Reports (s.run problem start n).2 (s'.run problem' start n).2
      ∧ (s.annealer.attempts problem s.flags (start.getD s.state) n).length
        = (s'.annealer.attempts problem' s'.flags (start.getD s'.state) n).length := by
  have hstate : start.getD s'.state = start.getD s.state := by rw [h.state]
  have hstart : L.Progresses (s.annealer.start s.flags (start.getD s.state))
      (s'.annealer.start s'.flags (start.getD s'.state)) :=
    ⟨h.annealer, h.flag, hstate, rfl⟩
  have hstep : ∀ {p : Progress α γ π σ} {p' : Progress α γ π' σ}, C p p' → L.Progresses p p' →
      L.Progresses (problem.iterate p).1 (problem'.iterate p').1
        ∧ (problem'.iterate p').2 = (problem.iterate p).2 :=
    fun hp h => alike.iterate h (decides hp h)
  have hreports : L.Reports (s.annealer.run problem s.flags (start.getD s.state) n)
      (s'.annealer.run problem' s'.flags (start.getD s'.state) n) :=
    Annealer.run_paired (R := L.Progresses) Progresses.isAborted hstep h.annealer.iteration hC
      hstart (fun aborted hp => hp.conclude h.annealer aborted)
      (fun reason hp _ => ⟨hp.annealer, hp.flag, rfl, rfl⟩)
  refine ⟨⟨hreports.annealer, hreports.flag, ?_⟩, hreports, ?_⟩
  · have hresult : (s'.run problem' start n).2.result
        = (s.run problem start n).2.result.map _ := hreports.result
    rw [Search.run_state, Search.run_state, hresult]
    cases (s.run problem start n).2.result with
    | ok o => rfl
    | error reason => exact hstate
  · have hallowed : s'.annealer.allowed n = s.annealer.allowed n := by
      unfold Annealer.allowed
      rw [h.annealer.iteration]
    unfold Annealer.attempts at hC ⊢
    rw [hallowed] at hC ⊢
    exact (Problem.advance_paired Progresses.isAborted hstep _ hC hstart).1.length_eq

/-- Matching commands do the same. -/
theorem perform (h : L.Searches s s') {c : Command α π σ} {c' : Command α π' σ}
    (hC : ∀ x ∈ (s.attemptsOf problem c).zip (s'.attemptsOf problem' c'), C x.1 x.2)
    (hc : L.Commands c c') :
    L.Searches (s.perform problem c).1 (s'.perform problem' c').1
      ∧ List.Forall₂ L.Reports (s.perform problem c).2.toList (s'.perform problem' c').2.toList
      ∧ (s.attemptsOf problem c).length = (s'.attemptsOf problem' c').length := by
  cases hc with
  | run start n =>
      obtain ⟨hthen, hreport, hlength⟩ := alike.run decides h hC
      exact ⟨hthen, .cons hreport .nil, hlength⟩
  | runBatch start =>
      obtain ⟨hthen, hreport, hlength⟩ := alike.run decides h hC
      exact ⟨hthen, .cons hreport .nil, hlength⟩
  | reset =>
      refine ⟨⟨{ h.annealer with iteration := rfl, estimate := rfl }, ?_, h.state⟩, .nil, rfl⟩
      show (s.flags.clear s.annealer.abort).Alike L.handle (s'.flags.clear s'.annealer.abort)
        L.handle'
      rw [h.annealer.handle, h.annealer.handle']
      exact h.flag.clear
  | abort =>
      have hsame : s'.annealer.abort = L.handle' ↔ s.annealer.abort = L.handle :=
        iff_of_true h.annealer.handle' h.annealer.handle
      exact ⟨{ h with flag := h.flag.abort hsame }, .nil, rfl⟩
  | raise same => exact ⟨{ h with flag := h.flag.abort same }, .nil, rfl⟩
  | setBudget budget =>
      exact ⟨{ h with annealer := { h.annealer with budget := rfl } }, .nil, rfl⟩
  | setScale scale => exact ⟨{ h with annealer := { h.annealer with scale := rfl } }, .nil, rfl⟩
  | setSchedule differ =>
      exact ⟨{ h with annealer := { h.annealer with schedule := differ } }, .nil, rfl⟩
  | amend keeps =>
      exact ⟨{ h with annealer := { h.annealer with memory := keeps h.annealer.memory } }, .nil,
        rfl⟩

/-- **Histories keep two searches the same but for what may differ.** -/
theorem performAll (h : L.Searches s s') {cs : List (Command α π σ)} {cs' : List (Command α π' σ)}
    (hC : ∀ x ∈ (s.attempts problem cs).zip (s'.attempts problem' cs'), C x.1 x.2)
    (calls : List.Forall₂ L.Commands cs cs') :
    L.Searches (s.performAll problem cs).1 (s'.performAll problem' cs').1
      ∧ List.Forall₂ L.Reports (s.performAll problem cs).2 (s'.performAll problem' cs').2 :=
  Search.performAll_paired (S := L.Searches)
    (fun hC h hc => alike.perform (fun hp h => decides hp h) h hC hc) calls hC h

end Problems

/-! ## §5. Another schedule -/

/-- Two searches may differ in their schedules alone, of which the second is this one. -/
def ofSchedule (handle : AbortHandle) (schedule : Schedule α) : Leeway α π π where
  memories := Eq
  deltas := Eq
  schedules _ schedule' := schedule' = schedule
  handle := handle
  handle' := handle

theorem ofSchedule_answers (handle : AbortHandle) (schedule : Schedule α) :
    ∀ answer : Except String (Proposal α μ),
      (ofSchedule (π := π) handle schedule).Answers answer answer
  | .ok ⟨move, _⟩ => .proposes move rfl
  | .error reason => .fails reason

/-- Every problem makes the same moves as itself. -/
theorem ofSchedule_problems [Generator γ] (handle : AbortHandle) (schedule : Schedule α)
    (problem : Problem α π σ μ) :
    (ofSchedule handle schedule).Problems (γ := γ) problem problem where
  choose state iteration g h := by
    cases h
    exact ⟨⟨rfl, .rfl, ofSchedule_answers handle schedule _⟩, rfl⟩
  apply state move h := by
    cases h
    exact ⟨rfl, .rfl, rfl⟩

end Leeway

/-- Does the command leave the schedule alone? -/
def Command.keepsSchedule {α π σ : Type} : Command α π σ → Bool
  | .setSchedule _ => false
  | _ => true

/-- Such a command does. -/
theorem Search.perform_schedule {α γ π σ μ : Type} [Scalar α] [Generator γ] (s : Search α γ π σ)
    (problem : Problem α π σ μ) {c : Command α π σ} (hc : c.keepsSchedule = true) :
    (s.perform problem c).1.annealer.tuning.schedule = s.annealer.tuning.schedule := by
  cases c with
  | run start n =>
      exact congrArg (·.schedule) (s.annealer.run_tuning problem s.flags (start.getD s.state) n)
  | runBatch start =>
      exact congrArg (·.schedule)
        (s.annealer.run_tuning problem s.flags (start.getD s.state) Annealer.batchSize)
  | setSchedule _ => cases hc
  | _ => rfl

/-- The same search by another schedule. -/
def Search.cooledBy {α γ π σ : Type} (s : Search α γ π σ) (schedule : Schedule α) :
    Search α γ π σ :=
  { s with annealer := s.annealer.setSchedule schedule }

/-- A history that leaves the schedule alone begins all its iterations by the same one. -/
theorem Search.schedule_of_mem_attempts {α γ π σ μ : Type} [Scalar α] [Generator γ]
    {problem : Problem α π σ μ} {p : Progress α γ π σ} {cs : List (Command α π σ)} :
    ∀ {s : Search α γ π σ}, (∀ c ∈ cs, c.keepsSchedule = true) → p ∈ s.attempts problem cs →
      p.annealer.tuning.schedule = s.annealer.tuning.schedule := by
  induction cs with
  | nil => intro s _ hp; exact absurd hp List.not_mem_nil
  | cons c cs ih =>
      intro s hcs hp
      obtain ⟨hc, hrest⟩ := List.forall_mem_cons.mp hcs
      rcases List.mem_append.mp hp with hp | hp
      · unfold attemptsOf at hp
        cases hreq : c.request with
        | none =>
            rw [hreq] at hp
            exact absurd hp List.not_mem_nil
        | some request =>
            rw [hreq] at hp
            obtain ⟨its, hits, -⟩ := Problem.passes_of_mem_attempts _ hp
            exact congrArg (·.schedule) hits.tuning_eq
      · exact (ih hrest hp).trans (s.perform_schedule problem hc)

namespace Leeway

variable {α γ π σ : Type}

theorem ofSchedule_commands (handle : AbortHandle) (schedule : Schedule α)
    {cs : List (Command α π σ)} (hcs : ∀ c ∈ cs, c.keepsSchedule = true) :
    List.Forall₂ (ofSchedule handle schedule).Commands cs cs := by
  refine List.forall₂_same.mpr fun c hc => ?_
  have hkeeps := hcs c hc
  cases c with
  | run start n => exact .run start n
  | runBatch start => exact .runBatch start
  | reset => exact .reset
  | abort => exact .abort
  | raise _ => exact .raise .rfl
  | setBudget budget => exact .setBudget budget
  | setScale scale => exact .setScale scale
  | setSchedule _ => cases hkeeps
  | amend _ => exact .amend fun h => congrArg _ h

theorem ofSchedule_searches (s : Search α γ π σ) (schedule : Schedule α) :
    (ofSchedule s.annealer.abort schedule).Searches s (s.cooledBy schedule) where
  annealer := ⟨rfl, rfl, rfl, rfl, rfl, rfl, rfl, rfl, rfl⟩
  flag := .refl _ _
  state := rfl

end Leeway

/-! ## §6. Histories -/

namespace Leeway

variable {α γ π π' σ μ : Type} [Scalar α] [Generator γ] (L : Leeway α π π')

/-- Two histories go the same way: the searches end the same, but for what may differ, and so
are their reports, one by one, but for the temperature. -/
def GoAlike (s : Search α γ π σ) (problem : Problem α π σ μ) (cs : List (Command α π σ))
    (s' : Search α γ π' σ) (problem' : Problem α π' σ μ) (cs' : List (Command α π' σ)) : Prop :=
  L.Searches (s.performAll problem cs).1 (s'.performAll problem' cs').1
    ∧ List.Forall₂ L.Reports (s.performAll problem cs).2 (s'.performAll problem' cs').2

end Leeway

namespace Search

variable {α γ π σ μ : Type} [Scalar α] [Generator γ]

/-- **Only what a judgement needs matters.**  A search goes the same way, runs in which the
problem fails included,

  * as any other that has the same budget, scale, counter, estimate, flag, generator and
    candidate, on a problem that makes the same moves, if no two iterations that they begin side
    by side are told apart, whatever differences are proposed and whatever the schedules;
  * as any such search with the same schedule on a problem that proposes the same differences,
    but for the size of improvements;
  * by every other schedule that gives the same temperatures at the iterations that the search
    begins, with the budgets that it has there. -/
theorem history_relevance (s : Search α γ π σ) (problem : Problem α π σ μ)
    (cs : List (Command α π σ)) :
    (∀ (π' : Type) (L : Leeway α π π') (s' : Search α γ π' σ) (problem' : Problem α π' σ μ)
        (cs' : List (Command α π' σ)), L.Problems (γ := γ) problem problem' → L.Searches s s' →
        List.Forall₂ L.Commands cs cs' →
        ((∀ x ∈ (s.attempts problem cs).zip (s'.attempts problem' cs'),
            problem.IndifferentAt problem' x.1 x.2) →
          L.GoAlike s problem cs s' problem' cs')
        ∧ ((∀ delta delta', L.deltas delta delta' → delta ≤ 0 ∧ delta' ≤ 0 ∨ delta' = delta) →
          (∀ schedule schedule', L.schedules schedule schedule' → schedule' = schedule) →
          L.GoAlike s problem cs s' problem' cs'))
    ∧ ∀ schedule : Schedule α, (∀ c ∈ cs, c.keepsSchedule = true) →
        (∀ p ∈ s.attempts problem cs,
          let i := Scalar.ofCount p.annealer.iteration
          let budget := p.annealer.tuning.budget
          schedule.temperature i budget = s.annealer.tuning.schedule.temperature i budget) →
        (Leeway.ofSchedule s.annealer.abort schedule).GoAlike s problem cs
          (s.cooledBy schedule) problem cs := by
  refine ⟨fun π' L s' problem' cs' alike h calls => ⟨fun same => ?_, fun resized schedules => ?_⟩,
    fun schedule keeps agrees => ?_⟩
  · exact alike.performAll (C := fun p p' => problem.IndifferentAt problem' p p')
      (fun hp _ => hp) h same calls
  · refine alike.performAll (C := fun _ _ => True) ?_ h (fun _ _ => trivial) calls
    intro p p' _ hp
    have htemperature := hp.annealer.temperature_eq
    rw [schedules _ _ hp.annealer.schedule] at htemperature
    exact alike.indifferentAt hp resized htemperature
  · refine (Leeway.ofSchedule_problems s.annealer.abort schedule problem).performAll
      (C := fun p _ => (p.annealer.setSchedule schedule).temperature = p.annealer.temperature) ?_
      (Leeway.ofSchedule_searches s schedule) ?_ (Leeway.ofSchedule_commands _ schedule keeps)
    · intro p p' hagrees hp
      have htemperature := hp.annealer.temperature_eq
      rw [hp.annealer.schedule, hagrees] at htemperature
      exact (Leeway.ofSchedule_problems _ schedule problem).indifferentAt hp
        (fun _ _ same => .inr same.symm) htemperature
    · intro x hx
      have hp := (List.of_mem_zip hx).1
      have hagrees := agrees x.1 hp
      rw [← schedule_of_mem_attempts keeps hp] at hagrees
      exact hagrees

end Search

/-! ## §7. Walks that count differently -/

namespace Walk

/-- The walk up and down in turns, with differences of its own.  The memory counts the
proposals. -/
def revalued (value : Float → Float) : Problem Float Nat Int Int where
  choose calls x iteration :=
    let step := if iteration % 2 = 0 then 1 else -1
    .done ⟨calls + 1, [], .ok ⟨step, value (delta x step)⟩⟩
  apply calls x step := ⟨calls, [], .ok (x + step)⟩

/-- The walk may go with one that has other differences, and the search with one on another
board. -/
def revaluing (value : Float → Float) (schedules : Schedule Float → Schedule Float → Prop) :
    Leeway Float Unit Nat where
  memories _ _ := True
  deltas d d' := d' = value d
  schedules := schedules
  handle := ⟨0⟩
  handle' := ⟨1⟩

theorem revalued_problems (value : Float → Float)
    (schedules : Schedule Float → Schedule Float → Prop) :
    (revaluing value schedules).Problems (γ := Cycle) alternating (revalued value) where
  choose _ _ _ _ := ⟨⟨trivial, by simp [alternating, revalued, Draws.run], .proposes _ rfl⟩, rfl⟩
  apply _ _ _ := ⟨trivial, by simp [alternating, revalued], rfl⟩

/-- Every improvement and every worsening is larger. -/
def larger (d : Float) : Float :=
  if d ≤ 0 then d - 1 else d + 5

/-- All improvements are the same. -/
def levelled (d : Float) : Float :=
  if d ≤ 0 then -1 else d

theorem levelled_resizes (d d' : Float) (h : d' = levelled d) : d ≤ 0 ∧ d' ≤ 0 ∨ d' = d := by
  subst h
  unfold levelled
  by_cases hd : d ≤ 0
  · rw [if_pos hd]
    exact .inl ⟨hd, by decide +kernel⟩
  · rw [if_neg hd]
    exact .inr rfl

/-- A search on the walk, from three below zero. -/
def revaluedFrom {π : Type} (memory : π) (handle : AbortHandle) (schedule : Schedule Float) :
    Search Float Cycle π Int :=
  ⟨.create memory ⟨20, 0, schedule, none⟩ (.ofWords #[7, 1]) handle, ⟨#[false, false]⟩, -3⟩

theorem revaluing_searches {value : Float → Float}
    {schedules : Schedule Float → Schedule Float → Prop} {schedule schedule' : Schedule Float}
    (h : schedules schedule schedule') :
    (revaluing value schedules).Searches (revaluedFrom () ⟨0⟩ schedule)
      (revaluedFrom 0 ⟨1⟩ schedule') where
  annealer := ⟨trivial, h, rfl, rfl, rfl, rfl, rfl, rfl, rfl⟩
  flag := ⟨rfl, ⟨fun _ => Nat.zero_lt_two, fun _ => Nat.one_lt_two⟩⟩
  state := rfl

/-- Two runs, with a reset between them. -/
def twoRuns {π : Type} : List (Command Float π Int) :=
  [.run none 5, .reset, .runBatch (some 2)]

theorem revaluing_commands (value : Float → Float)
    (schedules : Schedule Float → Schedule Float → Prop) :
    List.Forall₂ (revaluing value schedules).Commands twoRuns twoRuns :=
  .cons (.run _ _) (.cons .reset (.cons (.runBatch _) .nil))

end Walk

/-- Two walks that are never warm go the same way with all differences larger, by schedules that
have nothing else in common; a walk in the warmth does so with all improvements the same, and by
a rule that is written out. -/
theorem Search.history_relevance_revalued :
    (Walk.revaluing Walk.larger fun _ _ => True).GoAlike
        (Walk.revaluedFrom () ⟨0⟩ (.constant 0)) Walk.alternating Walk.twoRuns
        (Walk.revaluedFrom 0 ⟨1⟩ (.custom fun i _ => -i)) (Walk.revalued Walk.larger) Walk.twoRuns
    ∧ (Walk.revaluing Walk.levelled Eq).GoAlike
        (Walk.revaluedFrom () ⟨0⟩ .linear) Walk.alternating Walk.twoRuns
        (Walk.revaluedFrom 0 ⟨1⟩ .linear) (Walk.revalued Walk.levelled) Walk.twoRuns
    ∧ (Leeway.ofSchedule ⟨0⟩ (.custom exponentialTemperature)).GoAlike
        (Walk.revaluedFrom () ⟨0⟩ .exponential) Walk.problem Walk.twoRuns
        ((Walk.revaluedFrom () ⟨0⟩ .exponential).cooledBy (.custom exponentialTemperature))
        Walk.problem Walk.twoRuns := by
  refine ⟨?_, ?_, ?_⟩
  · refine ((history_relevance _ _ _).1 _ _ _ _ _ (Walk.revalued_problems _ _)
      (Walk.revaluing_searches trivial) (Walk.revaluing_commands _ _)).1 ?_
    decide +kernel
  · exact ((history_relevance _ _ _).1 _ _ _ _ _ (Walk.revalued_problems _ _)
      (Walk.revaluing_searches rfl) (Walk.revaluing_commands _ _)).2 Walk.levelled_resizes
      fun _ _ same => same.symm
  · exact (history_relevance (Walk.revaluedFrom () ⟨0⟩ .exponential) Walk.problem
      Walk.twoRuns).2 (.custom exponentialTemperature) (by decide) fun _ _ => rfl

end Annealing
