/-
  Annealing.Proofs.History
  ────────────────────────
  **HISTORIES OF A SEARCH.**

  A history is a list of commands.  What every command of it preserves, the whole
  history preserves.  Of all commands only a reset lowers a flag, and only those
  that ask for a run call the problem; `Command.request` tells these apart.
-/
import Annealing.Search
import Annealing.Proofs.Trace

namespace Annealing

namespace Command

variable {α π σ : Type}

/-- Does the command start over? -/
def isReset : Command α π σ → Bool
  | .reset => true
  | _ => false

/-- The run that the command asks for: a candidate to start from, if it brings one, and a
number of iterations. -/
def request : Command α π σ → Option (Option σ × UInt64)
  | .run start iterations => some (start, iterations)
  | .runBatch start => some (start, Annealer.batchSize)
  | _ => none

/-- Does the command leave the problem's memory alone, and start a run, if it asks for one,
from the candidate that the last run returned? -/
def handsOver : Command α π σ → Bool
  | .run start _ => start.isNone
  | .runBatch start => start.isNone
  | .amend _ => false
  | _ => true

end Command

namespace Search

variable {α γ π σ μ : Type} [Scalar α] [Generator γ]

/-! ## §1. One command -/

/-- The candidate after a run is the one it returns, or the one it was given. -/
theorem run_state (s : Search α γ π σ) (problem : Problem α π σ μ) (start : Option σ)
    (n : UInt64) :
    (s.run problem start n).1.state
      = match (s.run problem start n).2.result with
        | .ok outcome => outcome.state
        | .error _ => start.getD s.state := rfl

theorem perform_of_request (s : Search α γ π σ) (problem : Problem α π σ μ)
    {c : Command α π σ} {start : Option σ} {n : UInt64} (h : c.request = some (start, n)) :
    s.perform problem c = ((s.run problem start n).1, some (s.run problem start n).2) := by
  cases c <;> simp only [Command.request, Option.some.injEq, Prod.mk.injEq, reduceCtorEq] at h
  all_goals
    obtain ⟨rfl, rfl⟩ := h
    rfl

theorem perform_of_no_request (s : Search α γ π σ) (problem : Problem α π σ μ)
    {c : Command α π σ} (h : c.request = none) : (s.perform problem c).2 = none := by
  cases c <;> simp only [Command.request, reduceCtorEq] at h <;> rfl

/-- Between runs only a reset moves the counter. -/
theorem perform_iteration_of_no_request (s : Search α γ π σ) (problem : Problem α π σ μ)
    {c : Command α π σ} (h : c.request = none) (hc : c.isReset = false) :
    (s.perform problem c).1.annealer.iteration = s.annealer.iteration := by
  cases c <;> simp only [Command.request, Command.isReset, reduceCtorEq] at h hc <;> rfl

/-! ## §2. Many commands -/

theorem performAll_cons (s : Search α γ π σ) (problem : Problem α π σ μ) (c : Command α π σ)
    (cs : List (Command α π σ)) :
    s.performAll problem (c :: cs)
      = (((s.perform problem c).1.performAll problem cs).1,
          (s.perform problem c).2.toList ++ ((s.perform problem c).1.performAll problem cs).2) :=
  rfl

theorem performAll_append (s : Search α γ π σ) (problem : Problem α π σ μ)
    (earlier later : List (Command α π σ)) :
    s.performAll problem (earlier ++ later)
      = (((s.performAll problem earlier).1.performAll problem later).1,
          (s.performAll problem earlier).2
            ++ ((s.performAll problem earlier).1.performAll problem later).2) := by
  induction earlier generalizing s with
  | nil => rfl
  | cons c earlier ih =>
      rw [List.cons_append, performAll_cons, performAll_cons, ih, List.append_assoc]

/-- The first command of a history in which every run returns has returned if it is a run,
and so have the others. -/
theorem returns_of_performAll_cons {s : Search α γ π σ} {problem : Problem α π σ μ}
    {c : Command α π σ} {cs : List (Command α π σ)}
    (h : ∀ r ∈ (s.performAll problem (c :: cs)).2, ∃ o, r.result = .ok o) :
    (∀ start n, c.request = some (start, n) → ∃ o, (s.run problem start n).2.result = .ok o)
      ∧ ∀ r ∈ ((s.perform problem c).1.performAll problem cs).2, ∃ o, r.result = .ok o := by
  rw [performAll_cons] at h
  refine ⟨fun start n hc => ?_, fun r hr => h r (List.mem_append_right _ hr)⟩
  rw [perform_of_request s problem hc] at h
  exact h _ (List.mem_append_left _ List.mem_cons_self)

/-- On a problem that never fails every run of a history returns. -/
theorem performAll_returns {problem : Problem α π σ μ} (never : problem.NeverFails γ)
    (cs : List (Command α π σ)) :
    ∀ s : Search α γ π σ, ∀ r ∈ (s.performAll problem cs).2, ∃ o, r.result = .ok o := by
  induction cs with
  | nil => intro s r hr; exact absurd hr List.not_mem_nil
  | cons c cs ih =>
      intro s r hr
      rw [performAll_cons] at hr
      rcases List.mem_append.mp hr with hr | hr
      · cases hreq : c.request with
        | none =>
            rw [perform_of_no_request s problem hreq] at hr
            exact absurd hr List.not_mem_nil
        | some request =>
            obtain ⟨start, n⟩ := request
            rw [perform_of_request s problem hreq] at hr
            rw [List.mem_singleton.mp hr]
            exact s.annealer.run_returns never s.flags _ n
      · exact ih _ r hr

/-- **What every command of a history preserves, the history preserves.** -/
theorem performAll_invariant {problem : Problem α π σ μ} {J : Search α γ π σ → Prop} :
    ∀ {cs : List (Command α π σ)},
      (∀ s, ∀ c ∈ cs, J s → J (s.perform problem c).1) →
      ∀ {s : Search α γ π σ}, J s → J (s.performAll problem cs).1 := by
  intro cs
  induction cs with
  | nil => intro _ s hs; exact hs
  | cons c cs ih =>
      intro preserves s hs
      rw [performAll_cons]
      exact ih (fun s c hc => preserves s c (List.mem_cons_of_mem _ hc))
        (preserves s c List.mem_cons_self hs)

/-! ## §3. The flag -/

/-- A command that is no reset leaves a raised flag raised, and the search its handle. -/
theorem perform_raised (s : Search α γ π σ) (problem : Problem α π σ μ) {c : Command α π σ}
    (hc : c.isReset = false) (hs : s.flags.isAborted s.annealer.abort = true) :
    (s.perform problem c).1.flags.isAborted (s.perform problem c).1.annealer.abort = true := by
  -- a run keeps its handle, and lowers no flag
  have hrun : ∀ (start : Option σ) (n : UInt64),
      (s.run problem start n).1.flags.isAborted (s.run problem start n).1.annealer.abort
        = true := by
    intro start n
    show (s.annealer.run problem s.flags _ n).flags.isAborted
      (s.annealer.run problem s.flags _ n).annealer.abort = true
    rw [s.annealer.run_abort]
    exact s.annealer.run_raised problem s.flags _ n hs
  cases c with
  | run start n => exact hrun start n
  | runBatch start => exact hrun start Annealer.batchSize
  | reset => exact absurd hc (by simp [Command.isReset])
  | abort => exact FlagBoard.isAborted_abort_of_isAborted hs _
  | raise handle => exact FlagBoard.isAborted_abort_of_isAborted hs _
  | setBudget _ => exact hs
  | setScale _ => exact hs
  | setSchedule _ => exact hs
  | amend _ => exact hs

/-- **A raised flag stays raised until a reset.** -/
theorem performAll_raised (s : Search α γ π σ) (problem : Problem α π σ μ)
    {cs : List (Command α π σ)} (hcs : ∀ c ∈ cs, c.isReset = false)
    (hs : s.flags.isAborted s.annealer.abort = true) :
    (s.performAll problem cs).1.flags.isAborted (s.performAll problem cs).1.annealer.abort
      = true :=
  performAll_invariant (J := fun s => s.flags.isAborted s.annealer.abort = true)
    (fun s c hc hs => s.perform_raised problem (hcs c hc) hs) hs

end Search

end Annealing
