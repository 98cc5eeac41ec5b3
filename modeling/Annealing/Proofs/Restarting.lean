/-
  Annealing.Proofs.Restarting
  ───────────────────────────
  **A RESET SEARCH IS A NEW ONE.**

  A reset forgets the iterations done and the scale learned, and lowers the flag;
  memory, tuning and generator stay as they are.  What is left is the annealer that
  one gets by starting anew with these and obeying the same flag.  The new search
  has a flag of its own besides, which nobody obeys, so the two stand on different
  boards; but a search looks at no flag but the one it obeys.

    • `restart_eq_create` — the two annealers are equal,
    • `renew_alike` — every handle of before reads alike on the two boards,
    • `history_reset` — whatever is done with them, they go on alike.
-/
import Annealing.Proofs.Boards
import Annealing.Proofs.Stopping

namespace Annealing

/-! ## §1. A new search with what the old one has -/

namespace Search

/-- A new search with the memory, the tuning and the generator that `s` now has.  It comes with
a flag of its own, but is given that of `s`, which is lowered. -/
def renew {α γ π σ : Type} [Scalar α] (s : Search α γ π σ) : Search α γ π σ :=
  let old := s.annealer.abort
  let (own, flags) := (s.flags.clear old).create
  let annealer := Annealer.create s.annealer.memory s.annealer.tuning s.annealer.generator own
  ⟨annealer.withAbortHandle old, flags, s.state⟩

end Search

/-- **To start over is to start anew** with the same handle. -/
theorem Annealer.restart_eq_create {α γ π : Type} [Scalar α] (a : Annealer α γ π)
    (own : AbortHandle) :
    (create a.memory a.tuning a.generator own).withAbortHandle a.abort = a.restart := rfl

/-- A new flag leaves the flags there are alike. -/
theorem FlagBoard.Alike.create (board : FlagBoard) {k : AbortHandle}
    (placed : k.index < board.raised.size) : board.Alike k board.create.2 k where
  raised := isAborted_create board k
  placed := by
    rw [size_create]
    exact ⟨fun _ => placed, fun h => Nat.lt_succ_of_lt h⟩

namespace Search

variable {α γ π σ μ : Type} [Scalar α] [Generator γ]

/-- The new search is the reset one on a board with one more flag. -/
theorem renew_eq_onBoard (s : Search α γ π σ) (problem : Problem α π σ μ) :
    s.renew
      = (s.perform problem .reset).1.onBoard (s.flags.clear s.annealer.abort).create.2 :=
  congrArg (Search.mk · _ s.state) (s.annealer.restart_eq_create _)

/-- Every handle of before reads alike on the two boards. -/
theorem renew_alike (s : Search α γ π σ) (problem : Problem α π σ μ) {k : AbortHandle}
    (placed : k.index < s.flags.raised.size) :
    (s.perform problem .reset).1.flags.Alike k s.renew.flags k :=
  .create _ (by
    show k.index < (s.flags.clear s.annealer.abort).raised.size
    rw [FlagBoard.size_clear]
    exact placed)

/-- The new search goes on as the reset one does, on its own board. -/
theorem renew_performAll (s : Search α γ π σ) (problem : Problem α π σ μ)
    (placed : s.annealer.abort.index < s.flags.raised.size) (later : List (Command α π σ)) :
    let reset := (s.perform problem .reset).1
    (s.renew.performAll problem later).1
        = (reset.performAll problem later).1.onBoard
            (s.renew.flags.heedAll (reset.signals problem later))
      ∧ (s.renew.performAll problem later).2.map (·.onBoard .empty)
        = (reset.performAll problem later).2.map (·.onBoard .empty) := by
  rw [s.renew_eq_onBoard problem]
  exact performAll_onBoard problem (s.renew_alike problem placed)

/-! ## §2. Histories keep the handle and the number of flags -/

theorem performAll_abort (s : Search α γ π σ) (problem : Problem α π σ μ)
    (cs : List (Command α π σ)) :
    (s.performAll problem cs).1.annealer.abort = s.annealer.abort :=
  performAll_invariant (J := fun s' => s'.annealer.abort = s.annealer.abort)
    (fun s' c _ h => (s'.perform_abort problem c).trans h) rfl

theorem performAll_size (s : Search α γ π σ) (problem : Problem α π σ μ)
    (cs : List (Command α π σ)) :
    (s.performAll problem cs).1.flags.raised.size = s.flags.raised.size := by
  rw [performAll_flags, FlagBoard.size_heedAll]

/-- A search whose flag has just been raised makes one iteration in its next run, if one is
allowed. -/
theorem run_of_raise {s : Search α γ π σ} {problem : Problem α π σ μ}
    (placed : s.annealer.abort.index < s.flags.raised.size) (start : Option σ) (n : UInt64) :
    let raised := (s.perform problem (.raise s.annealer.abort)).1
    raised.flags.isAborted raised.annealer.abort = true
    ∧ ∀ o, (raised.run problem start n).2.result = .ok o →
        o.iterations.toNat = min 1 (raised.annealer.allowed n)
          ∧ o.aborted = decide (0 < raised.annealer.allowed n) := by
  intro raised
  have hraised : raised.flags.isAborted raised.annealer.abort = true :=
    FlagBoard.isAborted_abort_self placed
  exact ⟨hraised, fun o ho => Annealer.run_of_raised hraised ho⟩

/-! ## §3. The same from then on -/

/-- **Reset is as good as new.**  Take a search after any history, whose handle has its place
on the board, and reset it, or else make a new one of its memory, its tuning, its generator and
its flag, lowered.  Whatever is then done with either,

  * the annealers are equal, with all counters and all that is learned, and so are the
    candidates;
  * every handle that there was reads the same;
  * the reports differ in their flags alone.

And every handle of the search that was taken at any time before the reset still stops it: once
it is raised, the next run makes one iteration at most. -/
theorem history_reset (first : Search α γ π σ) (problem : Problem α π σ μ)
    (placed : first.annealer.abort.index < first.flags.raised.size)
    (earlier later : List (Command α π σ)) :
    let s := (first.performAll problem earlier).1
    let reset := (s.perform problem .reset).1.performAll problem later
    let new := s.renew.performAll problem later
    new.1.annealer = reset.1.annealer
    ∧ new.1.state = reset.1.state
    ∧ (∀ k : AbortHandle, k.index < s.flags.raised.size →
        new.1.flags.isAborted k = reset.1.flags.isAborted k)
    ∧ new.2.map (·.onBoard .empty) = reset.2.map (·.onBoard .empty)
    ∧ ∀ before, before <+: earlier → ∀ start n,
        let taken := (first.performAll problem before).1.annealer.abort
        let raised := (reset.1.perform problem (.raise taken)).1
        raised.flags.isAborted raised.annealer.abort = true
        ∧ ∀ o, (raised.run problem start n).2.result = .ok o →
            o.iterations.toNat = min 1 (raised.annealer.allowed n)
              ∧ o.aborted = decide (0 < raised.annealer.allowed n) := by
  intro s reset new
  have hsize : s.flags.raised.size = first.flags.raised.size :=
    first.performAll_size problem earlier
  have hhandle : s.annealer.abort = first.annealer.abort := first.performAll_abort problem earlier
  have hplaced : s.annealer.abort.index < s.flags.raised.size := by
    rw [hsize, hhandle]
    exact placed
  obtain ⟨hafter, hreports⟩ := s.renew_performAll problem hplaced later
  have hflags := (s.perform problem .reset).1.performAll_flags problem later
  refine ⟨congrArg (·.annealer) hafter, congrArg (·.state) hafter, ?_, hreports, ?_⟩
  · intro k hk
    have hboard : (s.renew.performAll problem later).1.flags
        = s.renew.flags.heedAll ((s.perform problem .reset).1.signals problem later) :=
      congrArg (·.flags) hafter
    rw [hboard, hflags]
    exact ((s.renew_alike problem hk).heedAll _).raised
  · intro before _ start n
    -- no command has changed the handle
    have htaken : (first.performAll problem before).1.annealer.abort
        = ((s.perform problem .reset).1.performAll problem later).1.annealer.abort := by
      rw [performAll_abort, performAll_abort]
      exact hhandle.symm
    rw [htaken]
    refine run_of_raise ?_ start n
    rw [performAll_abort, performAll_size, perform_flags, FlagBoard.size_heedAll]
    exact hplaced

/-- A cold walk that has not begun. -/
def idleWalk : Search Float Cycle Unit Int where
  annealer := .create () ⟨10, 0, .custom fun _ _ => 0, none⟩ (.ofWords #[]) ⟨0⟩
  flags := ⟨#[false]⟩
  state := 2

/-- A run, and a request to stop. -/
def interrupted : List (Command Float Unit Int) :=
  [.run none 4, .abort]

/-- Two runs on another plan. -/
def begunAnew : List (Command Float Unit Int) :=
  [.setBudget 20, .run none 2, .run (some 7) 3]

/-- A handle from before the reset stops the walk after two runs more. -/
theorem history_reset_idleWalk :
    let s := (idleWalk.performAll Walk.alternating interrupted).1
    let after := ((s.perform Walk.alternating .reset).1.performAll Walk.alternating begunAnew).1
    let stopped := (after.perform Walk.alternating (.raise idleWalk.annealer.abort)).1
    idleWalk.annealer.abort.index < idleWalk.flags.raised.size
    ∧ (s.renew.performAll Walk.alternating begunAnew).1.annealer = after.annealer
    ∧ (s.annealer.iteration, s.flags.isAborted ⟨0⟩) = (4, true)
    ∧ (after.annealer.iteration, after.flags.isAborted ⟨0⟩) = (5, false)
    ∧ ∃ o, (stopped.run Walk.alternating none 5).2.result = .ok o
        ∧ o.iterations.toNat = 1 ∧ o.aborted = true := by
  have hplaced : idleWalk.annealer.abort.index < idleWalk.flags.raised.size := by decide
  have hreturns : ∀ s : Search Float Cycle Unit Int,
      ∃ o, (s.run Walk.alternating none 5).2.result = .ok o :=
    fun s => s.annealer.run_returns (Walk.alternating_neverFails Cycle) s.flags _ 5
  have h := history_reset idleWalk Walk.alternating hplaced interrupted begunAnew
  dsimp only at h ⊢
  obtain ⟨hannealer, -, -, -, hstops⟩ := h
  obtain ⟨-, hrun⟩ := hstops [] List.nil_prefix none 5
  have hhandle : (idleWalk.performAll Walk.alternating []).1.annealer.abort
      = idleWalk.annealer.abort := rfl
  rw [hhandle] at hrun
  obtain ⟨o, ho⟩ := hreturns _
  obtain ⟨hiterations, haborted⟩ := hrun o ho
  refine ⟨hplaced, hannealer, by decide +kernel, by decide +kernel, o, ho, ?_, ?_⟩
  · exact hiterations.trans (by decide +kernel)
  · exact haborted.trans (by decide +kernel)

end Search

end Annealing
