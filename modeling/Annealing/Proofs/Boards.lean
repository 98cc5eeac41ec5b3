/-
  Annealing.Proofs.Boards
  ───────────────────────
  **A SEARCH ON ANOTHER BOARD.**

  A search acts on the flags by signals: it raises those that its problem fires or
  that a command names, and a reset lowers its own.  It looks at one flag only, its
  own.  So on another board, on which that flag reads alike, it does all the same
  and sends the same signals.

    • `iterate_onBoard` — an iteration looks at no flag,
    • `advance_onBoard`, `run_onBoard` — a run looks at its own,
    • `perform_onBoard`, `performAll_onBoard` — so do commands and histories,
    • `handle_ne_of_neverFires` — which flags a command leaves alone.
-/
import Annealing.Proofs.Lockstep

namespace Annealing

/-! ## §1. Signals -/

/-- A flag is raised or lowered. -/
inductive Signal where
  /-- The flag of the handle is raised. -/
  | raise (handle : AbortHandle)
  /-- The flag of the handle is lowered. -/
  | lower (handle : AbortHandle)
  deriving Repr, DecidableEq

namespace Signal

/-- The handle whose flag is meant. -/
def handle : Signal → AbortHandle
  | .raise h => h
  | .lower h => h

/-- Is the flag raised? -/
def raises : Signal → Bool
  | .raise _ => true
  | .lower _ => false

end Signal

namespace FlagBoard

/-- The board after a signal. -/
def heed (board : FlagBoard) : Signal → FlagBoard
  | .raise h => board.abort h
  | .lower h => board.clear h

/-- The board after some signals. -/
def heedAll (board : FlagBoard) (signals : List Signal) : FlagBoard :=
  signals.foldl heed board

theorem heedAll_append (board : FlagBoard) (earlier later : List Signal) :
    board.heedAll (earlier ++ later) = (board.heedAll earlier).heedAll later :=
  List.foldl_append

theorem abortAll_append (board : FlagBoard) (hs ks : List AbortHandle) :
    board.abortAll (hs ++ ks) = (board.abortAll hs).abortAll ks :=
  List.foldl_append

/-- To raise flags is to heed a signal for each. -/
theorem heedAll_map_raise (board : FlagBoard) (hs : List AbortHandle) :
    board.heedAll (hs.map .raise) = board.abortAll hs :=
  List.foldl_map

/-- What a handle reads after a signal. -/
theorem isAborted_heed (board : FlagBoard) (signal : Signal) (k : AbortHandle) :
    (board.heed signal).isAborted k
      = if k = signal.handle ∧ k.index < board.raised.size then signal.raises
        else board.isAborted k := by
  cases signal with
  | raise h =>
      show (board.abort h).isAborted k = if k = h ∧ _ then true else _
      rw [isAborted_abort]
      by_cases hk : k = h
      · subst hk
        by_cases hplace : k.index < board.raised.size <;> simp [hplace]
      · simp [hk]
  | lower h =>
      show (board.clear h).isAborted k = if k = h ∧ _ then false else _
      rw [isAborted_clear]
      by_cases hk : k = h
      · subst hk
        by_cases hplace : k.index < board.raised.size
        · simp [hplace]
        · simp [isAborted_of_size_le (Nat.le_of_not_lt hplace)]
      · simp [hk]

theorem size_heed (board : FlagBoard) (signal : Signal) :
    (board.heed signal).raised.size = board.raised.size := by
  cases signal with
  | raise h => exact size_abort board h
  | lower h => exact size_clear board h

theorem size_heedAll (signals : List Signal) :
    ∀ board : FlagBoard, (board.heedAll signals).raised.size = board.raised.size := by
  induction signals with
  | nil => intro board; rfl
  | cons signal signals ih =>
      intro board
      show ((board.heed signal).heedAll signals).raised.size = _
      rw [ih, size_heed]

namespace Alike

variable {board board' : FlagBoard} {h : AbortHandle}

theorem heed (a : board.Alike h board' h) (signal : Signal) :
    (board.heed signal).Alike h (board'.heed signal) h where
  raised := by
    rw [isAborted_heed, isAborted_heed, a.raised]
    simp only [a.placed]
  placed := by
    rw [size_heed, size_heed]
    exact a.placed

/-- **The same signals keep a handle alike on two boards.** -/
theorem heedAll (signals : List Signal) :
    ∀ {board board' : FlagBoard}, board.Alike h board' h →
      (board.heedAll signals).Alike h (board'.heedAll signals) h := by
  induction signals with
  | nil => intro board board' a; exact a
  | cons signal signals ih => intro board board' a; exact ih (a.heed signal)

theorem abortAll_same (a : board.Alike h board' h) (hs : List AbortHandle) :
    (board.abortAll hs).Alike h (board'.abortAll hs) h :=
  a.abortAll .rfl

end Alike

end FlagBoard

/-! ## §2. One iteration -/

section
variable {α γ π σ μ : Type}

/-- The same point of a run on another board. -/
def Progress.onBoard (p : Progress α γ π σ) (board : FlagBoard) : Progress α γ π σ :=
  { p with flags := board }

variable [Scalar α] [Generator γ]

namespace Problem

/-- What the problem leaves behind when it is asked for a proposal at `p`. -/
def choice (problem : Problem α π σ μ) (p : Progress α γ π σ) : Reply π (Proposal α μ) :=
  ((problem.choose p.annealer.memory p.state p.annealer.iteration).run p.annealer.generator).1

/-- **The handles that the problem fires** in the iteration that begins at `p`: when it
proposes, and then when it applies a move that is taken. -/
def firedAt (problem : Problem α π σ μ) (p : Progress α γ π σ) : List AbortHandle :=
  (problem.choice p).fired ++
    match problem.propose p with
    | (_, .error _) => []
    | (q, .ok proposal) =>
      match q.weigh proposal.delta with
      | (_, false) => []
      | (r, true) => (problem.apply r.annealer.memory r.state proposal.move).fired

/-- **An iteration looks at no flag**, and raises those that the problem fires. -/
theorem iterate_onBoard (problem : Problem α π σ μ) (p : Progress α γ π σ)
    (board : FlagBoard) :
    problem.iterate (p.onBoard board)
      = ((problem.iterate p).1.onBoard (board.abortAll (problem.firedAt p)),
          (problem.iterate p).2) := by
  unfold iterate firedAt
  -- the board changes where the problem is asked, and nowhere else
  have hp : problem.propose (p.onBoard board)
      = ((problem.propose p).1.onBoard (board.abortAll (problem.choice p).fired),
          (problem.propose p).2) := rfl
  rw [hp]
  cases problem.propose p with
  | mk q answer =>
      cases answer with
      | error reason => simp only [List.append_nil]
      | ok proposal =>
          have hw : ∀ b : FlagBoard, (q.onBoard b).weigh proposal.delta
              = ((q.weigh proposal.delta).1.onBoard b, (q.weigh proposal.delta).2) :=
            fun _ => rfl
          simp only [hw]
          cases q.weigh proposal.delta with
          | mk r taken =>
              cases taken with
              | false => simp only [List.append_nil]; rfl
              | true =>
                  have hc : ∀ b : FlagBoard, problem.carryOut (r.onBoard b) proposal.move
                      = ((problem.carryOut r proposal.move).1.onBoard (b.abortAll
                            (problem.apply r.annealer.memory r.state proposal.move).fired),
                          (problem.carryOut r proposal.move).2) :=
                    fun _ => rfl
                  simp only [hc, ← FlagBoard.abortAll_append]
                  cases problem.carryOut r proposal.move with
                  | mk u answer => cases answer <;> rfl

theorem iterate_flags (problem : Problem α π σ μ) (p : Progress α γ π σ) :
    (problem.iterate p).1.flags = p.flags.abortAll (problem.firedAt p) := by
  have h := problem.iterate_onBoard p p.flags
  exact congrArg (·.1.flags) h

theorem iterate_abort (problem : Problem α π σ μ) (p : Progress α γ π σ) :
    (problem.iterate p).1.annealer.abort = p.annealer.abort := by
  cases hi : problem.iterate p with
  | mk q failure =>
      cases failure with
      | some reason => exact (Progress.Keeps.of_iterate_failed hi).abort
      | none =>
          obtain ⟨it, hc, rfl, rfl⟩ := completes_of_iterate hi
          exact hc.abort_eq

/-! ## §3. Runs -/

/-- The handles that the problem fires in a loop of up to `n` iterations. -/
def fired (problem : Problem α π σ μ) (n : Nat) (p : Progress α γ π σ) : List AbortHandle :=
  (problem.attempts n p).flatMap problem.firedAt

/-- **A loop looks at its own flag only.** -/
theorem advance_onBoard (problem : Problem α π σ μ) (n : Nat) :
    ∀ {p : Progress α γ π σ} {board : FlagBoard},
      p.flags.Alike p.annealer.abort board p.annealer.abort →
      problem.advance n (p.onBoard board)
        = ((problem.advance n p).1.onBoard (board.abortAll (problem.fired n p)),
            (problem.advance n p).2) := by
  induction n with
  | zero => intro p board _; rfl
  | succ n ih =>
      intro p board alike
      have hflags := problem.iterate_flags p
      have habort := problem.iterate_abort p
      rw [advance_succ, advance_succ, iterate_onBoard]
      unfold fired attempts
      cases hi : problem.iterate p with
      | mk q failure =>
          rw [hi] at hflags habort
          cases failure with
          | some reason =>
              simp only [List.flatMap_cons, List.flatMap_nil, List.append_nil]
          | none =>
              -- both see the same flag after the iteration
              have hnext : q.flags.Alike q.annealer.abort
                  (board.abortAll (problem.firedAt p)) q.annealer.abort := by
                rw [hflags, habort]
                exact alike.abortAll_same _
              have hflag : (q.onBoard (board.abortAll (problem.firedAt p))).isAborted
                  = q.isAborted := hnext.raised
              cases hab : q.isAborted with
              | true =>
                  simp only [hflag, hab, if_true, List.flatMap_cons, List.flatMap_nil,
                    List.append_nil]
              | false =>
                  simp only [hflag, hab, Bool.false_eq_true, if_false, List.flatMap_cons,
                    FlagBoard.abortAll_append]
                  exact ih hnext

end Problem

/-- The same report with other flags. -/
def Report.onBoard {α γ π σ : Type} (r : Report α γ π σ) (board : FlagBoard) :
    Report α γ π σ :=
  { r with flags := board }

namespace Annealer

/-- **The handles that the problem fires in a run**, in order. -/
def fired (a : Annealer α γ π) (problem : Problem α π σ μ) (flags : FlagBoard) (state : σ)
    (n : UInt64) : List AbortHandle :=
  problem.fired (a.allowed n) (a.start flags state)

/-- **A run looks at its own flag only.** -/
theorem run_onBoard {a : Annealer α γ π} {flags board : FlagBoard}
    (alike : flags.Alike a.abort board a.abort) (problem : Problem α π σ μ) (state : σ)
    (n : UInt64) :
    a.run problem board state n
      = (a.run problem flags state n).onBoard
          (board.abortAll (a.fired problem flags state n)) := by
  have hadv := problem.advance_onBoard (p := a.start flags state) (a.allowed n) alike
  have hstart : (a.start flags state).onBoard board = (⟨a, board, state, 0⟩ : Progress α γ π σ) :=
    rfl
  have hplain : a.start flags state = ⟨a, flags, state, 0⟩ := rfl
  rw [hstart, hplain] at hadv
  unfold run
  rw [hadv]
  cases problem.advance (a.allowed n) (⟨a, flags, state, 0⟩ : Progress α γ π σ) with
  | mk q stop => cases stop <;> rfl

/-- **A run raises the flags that its problem fires**, and touches no other. -/
theorem run_flags (a : Annealer α γ π) (problem : Problem α π σ μ) (flags : FlagBoard)
    (state : σ) (n : UInt64) :
    (a.run problem flags state n).flags = flags.abortAll (a.fired problem flags state n) :=
  congrArg (·.flags) (run_onBoard (.refl flags a.abort) problem state n)

end Annealer

/-! ## §4. Histories -/

namespace Search

/-- The same search on another board. -/
def onBoard {α γ π σ : Type} (s : Search α γ π σ) (board : FlagBoard) : Search α γ π σ :=
  { s with flags := board }

/-- **The signals of a command**: a run raises what its problem fires, and a reset lowers the
flag of the search. -/
def signalsOf (s : Search α γ π σ) (problem : Problem α π σ μ) : Command α π σ → List Signal
  | .run start n =>
    (s.annealer.fired problem s.flags (start.getD s.state) n).map .raise
  | .runBatch start =>
    (s.annealer.fired problem s.flags (start.getD s.state) Annealer.batchSize).map .raise
  | .reset => [.lower s.annealer.abort]
  | .abort => [.raise s.annealer.abort]
  | .raise handle => [.raise handle]
  | .setBudget _ => []
  | .setScale _ => []
  | .setSchedule _ => []
  | .amend _ => []

/-- The signals of a history, in order. -/
def signals (s : Search α γ π σ) (problem : Problem α π σ μ) : List (Command α π σ) → List Signal
  | [] => []
  | c :: cs => s.signalsOf problem c ++ (s.perform problem c).1.signals problem cs

/-- No command changes the handle. -/
theorem perform_abort (s : Search α γ π σ) (problem : Problem α π σ μ) (c : Command α π σ) :
    (s.perform problem c).1.annealer.abort = s.annealer.abort := by
  cases c with
  | run start n => exact s.annealer.run_abort problem s.flags _ n
  | runBatch start => exact s.annealer.run_abort problem s.flags _ Annealer.batchSize
  | _ => rfl

variable {s : Search α γ π σ} {board : FlagBoard}

theorem run_onBoard (alike : s.flags.Alike s.annealer.abort board s.annealer.abort)
    (problem : Problem α π σ μ) (start : Option σ) (n : UInt64) :
    let after := board.abortAll (s.annealer.fired problem s.flags (start.getD s.state) n)
    (s.onBoard board).run problem start n
      = ((s.run problem start n).1.onBoard after, (s.run problem start n).2.onBoard after) := by
  intro after
  have hrun : s.annealer.run problem board (start.getD s.state) n
      = (s.annealer.run problem s.flags (start.getD s.state) n).onBoard after :=
    Annealer.run_onBoard alike problem _ n
  unfold run onBoard
  simp only [hrun]
  rfl

/-- **A command looks at the flag of the search only**, and sends its signals. -/
theorem perform_onBoard (alike : s.flags.Alike s.annealer.abort board s.annealer.abort)
    (problem : Problem α π σ μ) (c : Command α π σ) :
    let after := board.heedAll (s.signalsOf problem c)
    (s.onBoard board).perform problem c
      = ((s.perform problem c).1.onBoard after,
          (s.perform problem c).2.map (·.onBoard after)) := by
  have hrun : ∀ (start : Option σ) (n : UInt64),
      let signals := (s.annealer.fired problem s.flags (start.getD s.state) n).map Signal.raise
      (s.onBoard board).run problem start n
        = ((s.run problem start n).1.onBoard (board.heedAll signals),
            (s.run problem start n).2.onBoard (board.heedAll signals)) := by
    intro start n signals
    rw [FlagBoard.heedAll_map_raise]
    exact run_onBoard alike problem start n
  cases c with
  | run start n => simp only [perform, hrun, signalsOf, Option.map_some]
  | runBatch start => simp only [perform, hrun, signalsOf, Option.map_some]
  | _ => rfl

theorem perform_flags (s : Search α γ π σ) (problem : Problem α π σ μ) (c : Command α π σ) :
    (s.perform problem c).1.flags = s.flags.heedAll (s.signalsOf problem c) :=
  congrArg (·.1.flags) (perform_onBoard (.refl s.flags _) problem c)

/-- After a command the flag of the search reads alike if it did before. -/
theorem perform_alike (alike : s.flags.Alike s.annealer.abort board s.annealer.abort)
    (problem : Problem α π σ μ) (c : Command α π σ) :
    (s.perform problem c).1.flags.Alike (s.perform problem c).1.annealer.abort
      (board.heedAll (s.signalsOf problem c)) (s.perform problem c).1.annealer.abort := by
  rw [perform_flags, perform_abort]
  exact alike.heedAll _

/-- **A history looks at the flag of its search only.**  On another board on which that flag
reads alike, the annealer and the candidate come out the same, the same signals are sent, and
the reports differ in their flags alone. -/
theorem performAll_onBoard (problem : Problem α π σ μ) {cs : List (Command α π σ)} :
    ∀ {s : Search α γ π σ} {board : FlagBoard},
      s.flags.Alike s.annealer.abort board s.annealer.abort →
      ((s.onBoard board).performAll problem cs).1
          = (s.performAll problem cs).1.onBoard (board.heedAll (s.signals problem cs))
        ∧ ((s.onBoard board).performAll problem cs).2.map (·.onBoard .empty)
          = (s.performAll problem cs).2.map (·.onBoard .empty) := by
  induction cs with
  | nil => intro s board _; exact ⟨rfl, rfl⟩
  | cons c cs ih =>
      intro s board alike
      obtain ⟨hthen, hreports⟩ := ih (perform_alike alike problem c)
      rw [performAll_cons, performAll_cons, perform_onBoard alike problem]
      unfold signals
      rw [FlagBoard.heedAll_append]
      refine ⟨hthen, ?_⟩
      rw [List.map_append, List.map_append, hreports]
      cases (s.perform problem c).2 <;> rfl

theorem performAll_flags (s : Search α γ π σ) (problem : Problem α π σ μ)
    (cs : List (Command α π σ)) :
    (s.performAll problem cs).1.flags = s.flags.heedAll (s.signals problem cs) :=
  congrArg (·.flags) (performAll_onBoard problem (.refl s.flags _)).1

end Search

end

/-! ## §5. Flags that a problem does not fire -/

/-- The problem never fires the flag of `k`. -/
structure Problem.NeverFires {α π σ μ : Type} (problem : Problem α π σ μ) (γ : Type)
    [Generator γ] (k : AbortHandle) : Prop where
  choose : ∀ memory state iteration (g : γ),
    k ∉ ((problem.choose memory state iteration).run g).1.fired
  apply : ∀ memory state move, k ∉ (problem.apply memory state move).fired

section
variable {α γ π σ μ : Type} [Scalar α] [Generator γ] {problem : Problem α π σ μ} {k : AbortHandle}

theorem Problem.NeverFires.not_mem_firedAt (never : problem.NeverFires γ k)
    (p : Progress α γ π σ) : k ∉ problem.firedAt p := by
  unfold firedAt
  intro hk
  rcases List.mem_append.mp hk with hk | hk
  · exact never.choose _ _ _ _ hk
  · cases hp : problem.propose p with
    | mk q answer =>
        rw [hp] at hk
        cases answer with
        | error reason => exact absurd hk List.not_mem_nil
        | ok proposal =>
            cases hw : q.weigh proposal.delta with
            | mk r taken =>
                simp only [hw] at hk
                cases taken with
                | false => exact absurd hk List.not_mem_nil
                | true => exact never.apply _ _ _ hk

/-- A search under another flag sends no signal to that of `k`, unless it is told to. -/
theorem Search.handle_ne_of_neverFires (never : problem.NeverFires γ k) {s : Search α γ π σ}
    (apart : s.annealer.abort ≠ k) {c : Command α π σ} (hc : c ≠ .raise k) :
    ∀ signal ∈ s.signalsOf problem c, signal.handle ≠ k := by
  have hfired : ∀ (state : σ) (n : UInt64), ∀ signal ∈
      (s.annealer.fired problem s.flags state n).map Signal.raise, signal.handle ≠ k := by
    intro state n signal hsignal
    obtain ⟨h, hh, rfl⟩ := List.mem_map.mp hsignal
    obtain ⟨p, -, hp⟩ := List.mem_flatMap.mp hh
    rintro rfl
    exact never.not_mem_firedAt p hp
  cases c with
  | run start n => exact hfired _ n
  | runBatch start => exact hfired _ Annealer.batchSize
  | reset => exact List.forall_mem_singleton.mpr apart
  | abort => exact List.forall_mem_singleton.mpr apart
  | raise handle => exact List.forall_mem_singleton.mpr fun heq => hc (congrArg _ heq)
  | _ => exact fun _ h => absurd h List.not_mem_nil

end

end Annealing
