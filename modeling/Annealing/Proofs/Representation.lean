/-
  Annealing.Proofs.Representation
  ───────────────────────────────
  **A SEARCH DOES NOT LOOK INTO CANDIDATES AND MOVES.**

  The same problem can be represented in many ways: by other candidates, by other
  moves, with another memory.  A `Correspondence` says which memories and
  candidates of one representation go with which of the other, and which moves do;
  two problems correspond if they answer corresponding questions in corresponding
  ways.  Searches on them are then in step: they propose the same differences,
  take the same words, decide alike and report the same, whatever commands they
  are given.

    • `Problems.propose`, `Problems.carryOut`, `Problems.iterate` — corresponding
      problems keep two runs in step,
    • `Problems.run`, `Problems.perform` — runs and commands keep two searches so,
    • `history_representation` — histories on corresponding problems, and on a
      problem made of functions and one that behaves as they do.
-/
import Annealing.Generator.SplitMix
import Annealing.Proofs.Judgement
import Annealing.Proofs.Lockstep

namespace Annealing

/-! ## §1. Correspondences -/

/-- How two representations of a problem correspond. -/
structure Correspondence (π σ μ π' σ' μ' : Type) where
  /-- The memory and candidate of one go with those of the other. -/
  points : π → σ → π' → σ' → Prop
  /-- The moves go together. -/
  moves : μ → μ' → Prop
  /-- The handle of the flag that stops the one search. -/
  handle : AbortHandle
  /-- The handle of the flag that stops the other. -/
  handle' : AbortHandle

namespace Correspondence

variable {α γ π σ μ π' σ' μ' : Type} (R : Correspondence π σ μ π' σ' μ')

/-- Two replies propose corresponding moves with the same difference, raise the flag both or
neither, and leave memories that go with the candidates. -/
structure Proposals (state : σ) (state' : σ') (reply : Reply π (Proposal α μ))
    (reply' : Reply π' (Proposal α μ')) : Prop where
  proposes : ∃ move move' delta, reply.result = .ok ⟨move, delta⟩
    ∧ reply'.result = .ok ⟨move', delta⟩ ∧ R.moves move move'
  fired : R.handle' ∈ reply'.fired ↔ R.handle ∈ reply.fired
  points : R.points reply.memory state reply'.memory state'

/-- Two replies apply a move, raise the flag both or neither, and leave memories and candidates
that go together. -/
structure Applications (reply : Reply π σ) (reply' : Reply π' σ') : Prop where
  applies : ∃ state state', reply.result = .ok state ∧ reply'.result = .ok state'
    ∧ R.points reply.memory state reply'.memory state'
  fired : R.handle' ∈ reply'.fired ↔ R.handle ∈ reply.fired

/-- **Two problems correspond**: from memories and candidates that go together, they answer in
corresponding ways and leave the generator equal. -/
structure Problems [Generator γ] (problem : Problem α π σ μ) (problem' : Problem α π' σ' μ') :
    Prop where
  choose : ∀ {memory state memory' state'} iteration (g : γ),
    R.points memory state memory' state' →
      R.Proposals state state' ((problem.choose memory state iteration).run g).1
          ((problem'.choose memory' state' iteration).run g).1
        ∧ ((problem'.choose memory' state' iteration).run g).2
          = ((problem.choose memory state iteration).run g).2
  apply : ∀ {memory state memory' state' move move'}, R.points memory state memory' state' →
    R.moves move move' →
      R.Applications (problem.apply memory state move) (problem'.apply memory' state' move')

/-- A problem that draws nothing behaves as two functions do. -/
structure Functions (choose : π → σ → UInt64 → Reply π (Proposal α μ))
    (apply : π → σ → μ → Reply π σ) (problem' : Problem α π' σ' μ') : Prop where
  choose : ∀ {memory state memory' state'} iteration, R.points memory state memory' state' →
    ∃ reply', problem'.choose memory' state' iteration = .done reply'
      ∧ R.Proposals state state' (choose memory state iteration) reply'
  apply : ∀ {memory state memory' state' move move'}, R.points memory state memory' state' →
    R.moves move move' →
      R.Applications (apply memory state move) (problem'.apply memory' state' move')

/-- It corresponds to the problem made of these functions, whatever the generator. -/
theorem Functions.problems [Generator γ] {choose : π → σ → UInt64 → Reply π (Proposal α μ)}
    {apply : π → σ → μ → Reply π σ} {problem' : Problem α π' σ' μ'}
    (h : R.Functions choose apply problem') :
    R.Problems (γ := γ) (.ofFunctions choose apply) problem' where
  choose iteration g hpoints := by
    obtain ⟨reply', hreply', hproposals⟩ := h.choose iteration hpoints
    rw [hreply']
    exact ⟨hproposals, rfl⟩
  apply := h.apply

/-! ## §2. Searches in step -/

/-- **Two runs under way are in step**: memories and candidates go together, the flags are
alike, and all else is equal. -/
structure Progresses (p : Progress α γ π σ) (p' : Progress α γ π' σ') : Prop where
  points : R.points p.annealer.memory p.state p'.annealer.memory p'.state
  tuning : p'.annealer.tuning = p.annealer.tuning
  generator : p'.annealer.generator = p.annealer.generator
  iteration : p'.annealer.iteration = p.annealer.iteration
  estimate : p'.annealer.estimate = p.annealer.estimate
  accepted : p'.accepted = p.accepted
  handle : p.annealer.abort = R.handle
  handle' : p'.annealer.abort = R.handle'
  flag : p.flags.Alike R.handle p'.flags R.handle'

/-- Two searches are in step. -/
def Searches (s : Search α γ π σ) (s' : Search α γ π' σ') : Prop :=
  R.Progresses (s.annealer.start s.flags s.state) (s'.annealer.start s'.flags s'.state)

/-- Candidates go together with the memories that two searches now have. -/
def Fits (s : Search α γ π σ) (s' : Search α γ π' σ') (state : σ) (state' : σ') : Prop :=
  R.points s.annealer.memory state s'.annealer.memory state'

/-- **Two commands match** where the searches stand.  A run may bring candidates, and an
amendment memories, if they go together provided that those the searches have do. -/
inductive Commands (s : Search α γ π σ) (s' : Search α γ π' σ') :
    Command α π σ → Command α π' σ' → Prop where
  | run {start : Option σ} {start' : Option σ'} (n : UInt64)
      (starts : R.Fits s s' s.state s'.state →
        R.Fits s s' (start.getD s.state) (start'.getD s'.state)) :
      Commands s s' (.run start n) (.run start' n)
  | runBatch {start : Option σ} {start' : Option σ'}
      (starts : R.Fits s s' s.state s'.state →
        R.Fits s s' (start.getD s.state) (start'.getD s'.state)) :
      Commands s s' (.runBatch start) (.runBatch start')
  | reset : Commands s s' .reset .reset
  | abort : Commands s s' .abort .abort
  /-- Both raise the flag of the search, or neither. -/
  | raise {handle handle' : AbortHandle} (same : handle' = R.handle' ↔ handle = R.handle) :
      Commands s s' (.raise handle) (.raise handle')
  | setBudget (budget : α) : Commands s s' (.setBudget budget) (.setBudget budget)
  | setScale (scale : α) : Commands s s' (.setScale scale) (.setScale scale)
  | setSchedule (schedule : Schedule α) :
      Commands s s' (.setSchedule schedule) (.setSchedule schedule)
  | amend {change : π → π} {change' : π' → π'}
      (changes : R.Fits s s' s.state s'.state →
        R.points (change s.annealer.memory) s.state (change' s'.annealer.memory) s'.state) :
      Commands s s' (.amend change) (.amend change')

/-- **Two reports agree**: both runs have returned, with candidates that go together, equal
counters and temperatures and the same log, and left the annealers in step. -/
structure Reports (r : Report α γ π σ) (r' : Report α γ π' σ') : Prop where
  returned : ∃ o o', r.result = .ok o ∧ r'.result = .ok o'
    ∧ R.Progresses (r.annealer.start r.flags o.state) (r'.annealer.start r'.flags o'.state)
    ∧ o'.accepted = o.accepted ∧ o'.iterations = o.iterations ∧ o'.aborted = o.aborted
    ∧ o'.temperature = o.temperature
  events : r'.events = r.events

variable {R}

/-! ## §3. One iteration -/

namespace Progresses

variable {p : Progress α γ π σ} {p' : Progress α γ π' σ'}

theorem count (h : R.Progresses p p') : R.Progresses p.count p'.count :=
  { h with iteration := congrArg (· + 1) h.iteration }

variable [Scalar α]

theorem annealer_temperature (h : R.Progresses p p') :
    p'.annealer.temperature = p.annealer.temperature := by
  unfold Annealer.temperature
  rw [h.tuning, h.iteration]

/-- The judgement looks at nothing but what is equal. -/
theorem weigh [Generator γ] (h : R.Progresses p p') (delta : α) :
    R.Progresses (p.weigh delta).1 (p'.weigh delta).1
      ∧ (p'.weigh delta).2 = (p.weigh delta).2 := by
  rw [p.weigh_eq, p'.weigh_eq, h.tuning, h.iteration, h.estimate, h.generator]
  exact ⟨{ h with estimate := rfl, generator := rfl }, rfl⟩

end Progresses

namespace Problems

variable [Generator γ] {problem : Problem α π σ μ} {problem' : Problem α π' σ' μ'}
  (alike : R.Problems (γ := γ) problem problem') {p : Progress α γ π σ} {p' : Progress α γ π' σ'}
include alike

theorem propose (h : R.Progresses p p') :
    R.Progresses (problem.propose p).1 (problem'.propose p').1
      ∧ ∃ move move' delta, (problem.propose p).2 = .ok ⟨move, delta⟩
          ∧ (problem'.propose p').2 = .ok ⟨move', delta⟩ ∧ R.moves move move' := by
  let asks := problem.choose p.annealer.memory p.state p.annealer.iteration
  let asks' := problem'.choose p'.annealer.memory p'.state p'.annealer.iteration
  have hasks : R.Proposals p.state p'.state (asks.run p.annealer.generator).1
        (asks'.run p'.annealer.generator).1
      ∧ (asks'.run p'.annealer.generator).2 = (asks.run p.annealer.generator).2 := by
    unfold asks'
    rw [h.iteration, h.generator]
    exact alike.choose _ _ h.points
  obtain ⟨hproposals, hgenerator⟩ := hasks
  exact ⟨{ h with
    points := hproposals.points
    generator := hgenerator
    flag := h.flag.abortAll hproposals.fired }, hproposals.proposes⟩

theorem carryOut (h : R.Progresses p p') {move : μ} {move' : μ'} (hmoves : R.moves move move') :
    ∃ state state', (problem.carryOut p move).2 = .ok state
      ∧ (problem'.carryOut p' move').2 = .ok state'
      ∧ R.Progresses ((problem.carryOut p move).1.accept state)
          ((problem'.carryOut p' move').1.accept state') := by
  have happlications := alike.apply h.points hmoves
  obtain ⟨state, state', hstate, hstate', hpoints⟩ := happlications.applies
  exact ⟨state, state', hstate, hstate', { h with
    points := hpoints
    accepted := congrArg (· + 1) h.accepted
    flag := h.flag.abortAll happlications.fired }⟩

variable [Scalar α]

/-- **An iteration keeps two runs in step**, and completes in both. -/
theorem iterate (h : R.Progresses p p') :
    R.Progresses (problem.iterate p).1 (problem'.iterate p').1
      ∧ (problem.iterate p).2 = none ∧ (problem'.iterate p').2 = none := by
  obtain ⟨hasked, move, move', delta, hanswer, hanswer', hmoves⟩ := alike.propose h
  have hasks : problem.propose p = ((problem.propose p).1, .ok ⟨move, delta⟩) :=
    Prod.ext rfl hanswer
  have hasks' : problem'.propose p' = ((problem'.propose p').1, .ok ⟨move', delta⟩) :=
    Prod.ext rfl hanswer'
  obtain ⟨hweighed, htaken⟩ := hasked.weigh delta
  -- the move is refused in both, or carried out in both
  cases ht : ((problem.propose p).1.weigh delta).2 with
  | false =>
      have hc := (Problem.Completes.refused hasks (Prod.ext rfl ht)).iterate_eq
      have hc' := (Problem.Completes.refused hasks' (Prod.ext rfl (htaken.trans ht))).iterate_eq
      rw [hc, hc']
      exact ⟨hweighed.count, rfl, rfl⟩
  | true =>
      obtain ⟨state, state', hstate, hstate', happlied⟩ := alike.carryOut hweighed hmoves
      have hc := (Problem.Completes.applied hasks (Prod.ext rfl ht)
        (Prod.ext rfl hstate)).iterate_eq
      have hc' := (Problem.Completes.applied hasks' (Prod.ext rfl (htaken.trans ht))
        (Prod.ext rfl hstate')).iterate_eq
      rw [hc, hc']
      exact ⟨happlied.count, rfl, rfl⟩

end Problems

/-! ## §4. Runs and commands -/

section
variable [Scalar α] {a : Annealer α γ π} {a' : Annealer α γ π'}

/-- What two runs in step conclude agrees. -/
theorem Progresses.conclude {p : Progress α γ π σ} {p' : Progress α γ π' σ'}
    (h : R.Progresses p p') (htuning : a'.tuning = a.tuning) (hcounter : a'.iteration = a.iteration)
    (aborted : Bool) : R.Reports (a.conclude p aborted) (a'.conclude p' aborted) := by
  have hiterations : p'.annealer.iteration - a'.iteration = p.annealer.iteration - a.iteration := by
    rw [h.iteration, hcounter]
  have hfrozen : p'.annealer.hasFrozen a' = p.annealer.hasFrozen a := by
    unfold Annealer.hasFrozen Annealer.inLearningWindow
    rw [h.tuning, h.iteration, htuning, hcounter]
  refine ⟨⟨a.outcome p aborted, a'.outcome p' aborted, rfl, rfl, { h with accepted := rfl },
    h.accepted, hiterations, rfl, h.annealer_temperature⟩, ?_⟩
  unfold Annealer.conclude
  simp only [hfrozen, hcounter, h.iteration, h.estimate, h.accepted, h.annealer_temperature]

end

namespace Problems

variable [Scalar α] [Generator γ] {problem : Problem α π σ μ} {problem' : Problem α π' σ' μ'}
  (alike : R.Problems (γ := γ) problem problem') {s : Search α γ π σ} {s' : Search α γ π' σ'}
include alike

/-- **Runs keep two searches in step**, return and report the same. -/
theorem run (h : R.Searches s s') {start : Option σ} {start' : Option σ'} {n : UInt64}
    (points : R.Fits s s' (start.getD s.state) (start'.getD s'.state)) :
    R.Searches (s.run problem start n).1 (s'.run problem' start' n).1
      ∧ R.Reports (s.run problem start n).2 (s'.run problem' start' n).2 := by
  have hstart : R.Progresses (s.annealer.start s.flags (start.getD s.state))
      (s'.annealer.start s'.flags (start'.getD s'.state)) := { h with points := points }
  have hreports : R.Reports (s.annealer.run problem s.flags (start.getD s.state) n)
      (s'.annealer.run problem' s'.flags (start'.getD s'.state) n) := by
    refine Annealer.run_related (R := R.Progresses) (C := fun _ => True) ?_ ?_ h.iteration
      (fun _ _ => trivial) hstart (fun aborted hp => hp.conclude h.tuning h.iteration aborted) ?_
    · intro p p' hp
      unfold Progress.isAborted
      rw [hp.handle, hp.handle']
      exact hp.flag.raised
    · intro p p' _ hp
      obtain ⟨hnext, hnone, hnone'⟩ := alike.iterate hp
      exact ⟨hnext, hnone'.trans hnone.symm⟩
    · -- no iteration fails from points in step
      rintro p p' reason - ⟨x, x', -, hx, hfails⟩
      rw [(alike.iterate hx).2.1] at hfails
      cases hfails
  refine ⟨?_, hreports⟩
  obtain ⟨o, o', ho, ho', hp, -⟩ := hreports.returned
  have hstate : (s.run problem start n).1.state = o.state := by
    unfold Search.run
    simp only [ho]
  have hstate' : (s'.run problem' start' n).1.state = o'.state := by
    unfold Search.run
    simp only [ho']
  unfold Searches
  rw [hstate, hstate']
  exact hp

/-- **Matching commands keep two searches in step**, and report the same. -/
theorem perform (h : R.Searches s s') {c : Command α π σ} {c' : Command α π' σ'}
    (hc : R.Commands s s' c c') :
    R.Searches (s.perform problem c).1 (s'.perform problem' c').1
      ∧ List.Forall₂ R.Reports (s.perform problem c).2.toList
          (s'.perform problem' c').2.toList := by
  cases hc with
  | run n starts =>
      obtain ⟨hthen, hreports⟩ := alike.run h (starts h.points)
      exact ⟨hthen, .cons hreports .nil⟩
  | runBatch starts =>
      obtain ⟨hthen, hreports⟩ := alike.run h (starts h.points)
      exact ⟨hthen, .cons hreports .nil⟩
  | reset =>
      have hhandle : s.annealer.abort = R.handle := h.handle
      have hhandle' : s'.annealer.abort = R.handle' := h.handle'
      refine ⟨{ h with iteration := rfl, estimate := rfl, flag := ?_ }, .nil⟩
      show (s.flags.clear s.annealer.abort).Alike R.handle (s'.flags.clear s'.annealer.abort)
        R.handle'
      rw [hhandle, hhandle']
      exact h.flag.clear
  | abort =>
      have hsame : s'.annealer.abort = R.handle' ↔ s.annealer.abort = R.handle :=
        iff_of_true h.handle' h.handle
      exact ⟨{ h with flag := h.flag.abort hsame }, .nil⟩
  | raise same => exact ⟨{ h with flag := h.flag.abort same }, .nil⟩
  | setBudget budget =>
      exact ⟨{ h with tuning := congrArg ({ · with budget := budget }) h.tuning }, .nil⟩
  | setScale scale =>
      exact ⟨{ h with tuning := congrArg ({ · with scale := scale }) h.tuning }, .nil⟩
  | setSchedule schedule =>
      exact ⟨{ h with tuning := congrArg ({ · with schedule := schedule }) h.tuning }, .nil⟩
  | amend changes => exact ⟨{ h with points := changes h.points }, .nil⟩

end Problems

end Correspondence

/-! ## §5. Histories -/

namespace Search

variable {α γ π σ μ π' σ' μ' : Type} [Scalar α] [Generator γ]

/-- Two histories go the same way: they end in step, and their reports agree one by one. -/
def GoAlike (R : Correspondence π σ μ π' σ' μ') (s : Search α γ π σ) (problem : Problem α π σ μ)
    (cs : List (Command α π σ)) (s' : Search α γ π' σ') (problem' : Problem α π' σ' μ')
    (cs' : List (Command α π' σ')) : Prop :=
  R.Searches (s.performAll problem cs).1 (s'.performAll problem' cs').1
    ∧ List.Forall₂ R.Reports (s.performAll problem cs).2 (s'.performAll problem' cs').2

/-- **The representation of a problem makes no difference.**  Two searches that are in step, and
are given commands that match,

  * go the same way on any two problems that correspond: all runs return, with candidates that
    go together, and equal counters, temperatures, estimates, generators and logs;
  * go the same way, in particular, if the one problem is made of two functions and the other
    behaves as they do and draws nothing. -/
theorem history_representation (R : Correspondence π σ μ π' σ' μ') (s : Search α γ π σ)
    (s' : Search α γ π' σ') (cs : List (Command α π σ)) (cs' : List (Command α π' σ'))
    (h : R.Searches s s') :
    (∀ (problem : Problem α π σ μ) (problem' : Problem α π' σ' μ'),
      R.Problems (γ := γ) problem problem' → Parallel problem problem' R.Commands s s' cs cs' →
      GoAlike R s problem cs s' problem' cs')
    ∧ ∀ choose apply (problem' : Problem α π' σ' μ'), R.Functions choose apply problem' →
      Parallel (.ofFunctions choose apply) problem' R.Commands s s' cs cs' →
      GoAlike R s (.ofFunctions choose apply) cs s' problem' cs' := by
  have hgo : ∀ (problem : Problem α π σ μ) (problem' : Problem α π' σ' μ'),
      R.Problems (γ := γ) problem problem' → Parallel problem problem' R.Commands s s' cs cs' →
      GoAlike R s problem cs s' problem' cs' :=
    fun problem problem' alike calls =>
      performAll_related (S := R.Searches) (C := fun _ => True) (Q := R.Reports)
        (fun _ hs hc => alike.perform hs hc) calls (fun _ _ => trivial) h
  exact ⟨hgo, fun choose apply problem' behaves calls => hgo _ problem' behaves.problems calls⟩

end Search

/-! ## §6. A walk on the even numbers -/

namespace Walk

/-- The walk on twice the candidate.  A move says whether the step goes up, and the memory
counts the proposals. -/
def doubled : Problem Float Nat Int Bool where
  choose calls y _ := .draw fun w =>
    let up := decide (w % 2 = 1)
    .done ⟨calls + 1, [], .ok ⟨up, delta (y / 2) (if up then 1 else -1)⟩⟩
  apply calls y up := ⟨calls, [], .ok (y + if up then 2 else -2)⟩

/-- The same of the walk that goes up and down in turns. -/
def doubledAlternating : Problem Float Nat Int Bool where
  choose calls y iteration :=
    let up := decide (iteration % 2 = 0)
    .done ⟨calls + 1, [], .ok ⟨up, delta (y / 2) (if up then 1 else -1)⟩⟩
  apply := doubled.apply

/-- Candidates go with their doubles, and steps with their directions. -/
def doubling : Correspondence Unit Int Int Nat Int Bool where
  points _ x _ y := y = 2 * x
  moves step up := step = if up then 1 else -1
  handle := ⟨0⟩
  handle' := ⟨1⟩

theorem doubling_applies (x step : Int) (calls : Nat) (up : Bool)
    (hmoves : doubling.moves step up) :
    doubling.Applications (problem.apply () x step) (doubled.apply calls (2 * x) up) where
  applies := by
    refine ⟨_, _, rfl, rfl, ?_⟩
    have hstep : step = if up then 1 else -1 := hmoves
    show 2 * x + (if up then 2 else -2) = 2 * (x + step)
    rw [hstep]
    cases up <;> simp <;> omega
  fired := by simp [problem, doubled]

theorem doubling_proposes (x step : Int) (calls : Nat) (up : Bool)
    (hmoves : doubling.moves step up) :
    doubling.Proposals x (2 * x) ⟨(), [], .ok ⟨step, delta x step⟩⟩
      ⟨calls, [], .ok ⟨up, delta (2 * x / 2) (if up then 1 else -1)⟩⟩ where
  proposes := by
    have hhalf : 2 * x / 2 = x := by omega
    have hstep : step = if up then 1 else -1 := hmoves
    rw [hhalf, ← hstep]
    exact ⟨step, up, delta x step, rfl, rfl, hmoves⟩
  fired := by simp
  points := rfl

theorem doubling_problems : doubling.Problems (γ := SplitMix) problem doubled where
  choose {_ x calls _} _ g h := by
    subst h
    have hmoves : doubling.moves (if (Generator.next g).1 % 2 = 1 then 1 else -1)
        (decide ((Generator.next g).1 % 2 = 1)) := by
      simp [doubling]
    exact ⟨doubling_proposes x _ (calls + 1) _ hmoves, rfl⟩
  apply h hmoves := by
    subst h
    exact doubling_applies _ _ _ _ hmoves

/-- What the walk that goes up and down in turns proposes. -/
def inTurns (_ : Unit) (x : Int) (iteration : UInt64) : Reply Unit (Proposal Float Int) :=
  let step := if iteration % 2 = 0 then 1 else -1
  ⟨(), [], .ok ⟨step, delta x step⟩⟩

theorem doubling_functions : doubling.Functions inTurns problem.apply doubledAlternating where
  choose {_ x calls _} iteration h := by
    subst h
    have hmoves : doubling.moves (if iteration % 2 = 0 then 1 else -1)
        (decide (iteration % 2 = 0)) := by
      simp [doubling]
    exact ⟨_, rfl, doubling_proposes x _ (calls + 1) _ hmoves⟩
  apply h hmoves := by
    subst h
    exact doubling_applies _ _ _ _ hmoves

/-- A walk from three. -/
def single : Search Float SplitMix Unit Int :=
  ⟨.create () default ⟨1⟩ ⟨0⟩, ⟨#[false]⟩, 3⟩

/-- Its double, with a flag on another board. -/
def double : Search Float SplitMix Nat Int :=
  ⟨.create 0 default ⟨1⟩ ⟨1⟩, ⟨#[true, false]⟩, 6⟩

theorem doubling_searches : doubling.Searches single double where
  points := rfl
  tuning := rfl
  generator := rfl
  iteration := rfl
  estimate := rfl
  accepted := rfl
  handle := rfl
  handle' := rfl
  flag := ⟨rfl, by decide⟩

/-- A run, a reset, another scale, and a run from five. -/
def singleRuns : List (Command Float Unit Int) :=
  [.run none 7, .reset, .setScale 2, .run (some 5) 3]

/-- The same from ten, the double of five. -/
def doubleRuns : List (Command Float Nat Int) :=
  [.run none 7, .reset, .setScale 2, .run (some 10) 3]

theorem doubling_parallel (problem : Problem Float Unit Int Int)
    (problem' : Problem Float Nat Int Bool) :
    Search.Parallel problem problem' doubling.Commands single double singleRuns doubleRuns :=
  .cons (.run 7 id) <| .cons .reset <| .cons (.setScale 2) <|
    .cons (.run 3 fun _ => rfl) <| .nil _ _

end Walk

/-- A walk and its double go the same way, whether they draw their steps or take them in
turns. -/
theorem Search.history_representation_doubled :
    Walk.doubling.Searches Walk.single Walk.double
    ∧ GoAlike Walk.doubling Walk.single Walk.problem Walk.singleRuns
        Walk.double Walk.doubled Walk.doubleRuns
    ∧ GoAlike Walk.doubling Walk.single (.ofFunctions Walk.inTurns Walk.problem.apply)
        Walk.singleRuns Walk.double Walk.doubledAlternating Walk.doubleRuns := by
  obtain ⟨hproblems, hfunctions⟩ := history_representation Walk.doubling Walk.single Walk.double
    Walk.singleRuns Walk.doubleRuns Walk.doubling_searches
  exact ⟨Walk.doubling_searches,
    hproblems _ _ Walk.doubling_problems (Walk.doubling_parallel _ _),
    hfunctions _ _ _ Walk.doubling_functions (Walk.doubling_parallel _ _)⟩

end Annealing
