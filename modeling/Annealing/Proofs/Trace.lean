/-
  Annealing.Proofs.Trace
  ──────────────────────
  **RUNS AS LISTS OF ITERATIONS.**

  A run is the list of the iterations it completes.  Two relations describe such
  lists.  `Passes` lets completed iterations follow each other and looks at no
  flag; `Ends` is the loop of a run with its three ways out.  The functions
  `trace` and `Annealer.iterations` compute the list of a given run.

    • `advance_ends` — the loop is described by `Ends`,
    • `Passes.invariant` — what each iteration preserves, a run preserves,
    • `Passes.iteration_toNat`, `Passes.accepted_toNat` — the counters count,
    • `run_eq_conclude` — a run that returns is the conclusion of its iterations.
-/
import Annealing.Proofs.Iteration

namespace Annealing

namespace Problem

variable {α γ π σ μ : Type} [Scalar α] [Generator γ]

/-! ## §1. Iterations in a row -/

/-- The iterations complete one after another from the first point and lead to the
second.  Flags play no part. -/
inductive Passes (problem : Problem α π σ μ) :
    Progress α γ π σ → List (Iteration α γ π σ μ) → Progress α γ π σ → Prop where
  /-- No iteration. -/
  | done (p : Progress α γ π σ) : Passes problem p [] p
  /-- One iteration, then the others. -/
  | step {it : Iteration α γ π σ μ} {its : List (Iteration α γ π σ μ)} {q : Progress α γ π σ}
      (first : problem.Completes it) (rest : Passes problem it.after its q) :
      Passes problem it.before (it :: its) q

namespace Passes

variable {problem : Problem α π σ μ} {p q r : Progress α γ π σ}
  {its : List (Iteration α γ π σ μ)}

theorem append {more : List (Iteration α γ π σ μ)} (h : problem.Passes p its q)
    (k : problem.Passes q more r) : problem.Passes p (its ++ more) r := by
  induction h with
  | done p => exact k
  | step first _ ih => exact .step first (ih k)

theorem split {earlier later : List (Iteration α γ π σ μ)}
    (h : problem.Passes p (earlier ++ later) q) :
    ∃ r, problem.Passes p earlier r ∧ problem.Passes r later q := by
  induction earlier generalizing p with
  | nil => exact ⟨p, .done p, h⟩
  | cons it earlier ih =>
      cases h with
      | step first rest =>
          obtain ⟨r, hr, hq⟩ := ih rest
          exact ⟨r, .step first hr, hq⟩

theorem eq_of_nil (h : problem.Passes p [] q) : q = p := by
  cases h with
  | done => rfl

/-- The iterations around one of them. -/
theorem around {earlier later : List (Iteration α γ π σ μ)} {it : Iteration α γ π σ μ}
    (h : problem.Passes p (earlier ++ it :: later) q) :
    problem.Passes p earlier it.before ∧ problem.Completes it
      ∧ problem.Passes it.after later q := by
  obtain ⟨r, hr, hq⟩ := h.split
  cases hq with
  | step first rest => exact ⟨hr, first, rest⟩

/-- Each of the iterations is a complete one. -/
theorem completes (h : problem.Passes p its q) {it : Iteration α γ π σ μ} (hit : it ∈ its) :
    problem.Completes it := by
  induction h with
  | done p => exact absurd hit List.not_mem_nil
  | step first _ ih =>
      rcases List.mem_cons.mp hit with rfl | hit
      · exact first
      · exact ih hit

/-- **What each iteration preserves, a row of iterations preserves.** -/
theorem invariant {J : Progress α γ π σ → Prop}
    (preserves : ∀ it, problem.Completes it → J it.before → J it.after)
    (h : problem.Passes p its q) (hp : J p) : J q := by
  induction h with
  | done p => exact hp
  | step first _ ih => exact ih (preserves _ first hp)

theorem tuning_eq (h : problem.Passes p its q) : q.annealer.tuning = p.annealer.tuning :=
  h.invariant (J := fun r => r.annealer.tuning = p.annealer.tuning)
    (fun _ first hp => first.tuning_eq.trans hp) rfl

theorem abort_eq (h : problem.Passes p its q) : q.annealer.abort = p.annealer.abort :=
  h.invariant (J := fun r => r.annealer.abort = p.annealer.abort)
    (fun _ first hp => first.abort_eq.trans hp) rfl

theorem raised (h : problem.Passes p its q) {k : AbortHandle}
    (hk : p.flags.isAborted k = true) : q.flags.isAborted k = true :=
  h.invariant (J := fun r => r.flags.isAborted k = true) (fun _ first hp => first.raised hp) hk

/-- From a raised flag, every iteration leaves it raised. -/
theorem eq_nil_of_lowered (h : problem.Passes p its q) (hp : p.isAborted = true)
    (lowered : ∀ it ∈ its, it.after.isAborted = false) : its = [] := by
  cases h with
  | done => rfl
  | step first _ =>
      have hfirst := lowered _ List.mem_cons_self
      rw [first.isAborted hp] at hfirst
      exact absurd hfirst (by simp)

/-- The iteration counter counts, as long as it does not pass the largest count. -/
theorem iteration_toNat (h : problem.Passes p its q)
    (hle : p.annealer.iteration.toNat + its.length < UInt64.size) :
    q.annealer.iteration.toNat = p.annealer.iteration.toNat + its.length := by
  induction h with
  | done p => rfl
  | @step it its q first rest ih =>
      rw [List.length_cons] at hle ⊢
      have hone := first.iteration_toNat (by omega)
      rw [ih (by omega), hone]
      omega

/-- The counter of accepted moves counts the moves that are taken. -/
theorem accepted_toNat (h : problem.Passes p its q)
    (hle : p.accepted.toNat + its.length < UInt64.size) :
    q.accepted.toNat = p.accepted.toNat + its.countP (·.taken) := by
  induction h with
  | done p => rfl
  | @step it its q first rest ih =>
      rw [List.length_cons] at hle
      have hone := first.accepted_toNat (by omega)
      -- there is room for the others whether or not this one is taken
      have hbound : it.after.accepted.toNat + its.length < UInt64.size := by
        rw [hone]
        split <;> omega
      rw [ih hbound, hone, List.countP_cons]
      omega

end Passes

/-- From every point, as many iterations as are asked for follow each other, unless the
problem fails in one. -/
theorem exists_passes (problem : Problem α π σ μ) (n : Nat) :
    ∀ p : Progress α γ π σ, ∃ its q, problem.Passes p its q
      ∧ (its.length = n
        ∨ its.length < n ∧ ∃ r reason, problem.iterate q = (r, some reason)) := by
  induction n with
  | zero => intro p; exact ⟨[], p, .done p, .inl rfl⟩
  | succ n ih =>
      intro p
      cases ho : problem.observe p with
      | none => exact ⟨[], p, .done p, .inr ⟨Nat.succ_pos n, observe_eq_none_iff.mp ho⟩⟩
      | some it =>
          obtain ⟨hc, rfl⟩ := observe_eq_some_iff.mp ho
          obtain ⟨its, q, hq, hlen | ⟨hlt, hfails⟩⟩ := ih it.after
          · exact ⟨it :: its, q, .step hc hq, .inl (congrArg (· + 1) hlen)⟩
          · exact ⟨it :: its, q, .step hc hq, .inr ⟨Nat.succ_lt_succ hlt, hfails⟩⟩

/-! ## §2. The loop of a run -/

/-- The iterations that `advance` completes, in order. -/
def trace (problem : Problem α π σ μ) :
    Nat → Progress α γ π σ → List (Iteration α γ π σ μ)
  | 0, _ => []
  | n + 1, p =>
    match problem.observe p with
    | none => []
    | some it => it :: if it.after.isAborted then [] else trace problem n it.after

theorem advance_succ (problem : Problem α π σ μ) (n : Nat) (p : Progress α γ π σ) :
    problem.advance (n + 1) p =
      match problem.iterate p with
      | (q, some reason) => (q, .failed reason)
      | (q, none) => if q.isAborted then (q, .aborted) else problem.advance n q := rfl

/-- **The loop of a run** of at most so many iterations: where it starts, the
iterations it completes, where it ends and why. -/
inductive Ends (problem : Problem α π σ μ) : Nat → Progress α γ π σ →
    List (Iteration α γ π σ μ) → Progress α γ π σ → Stop → Prop where
  /-- No iteration is left. -/
  | reached (p : Progress α γ π σ) : Ends problem 0 p [] p .reached
  /-- The problem fails. -/
  | failed {n : Nat} {p q : Progress α γ π σ} {reason : String}
      (fails : problem.iterate p = (q, some reason)) :
      Ends problem (n + 1) p [] q (.failed reason)
  /-- The flag is raised after an iteration. -/
  | aborted {n : Nat} {it : Iteration α γ π σ μ} (last : problem.Completes it)
      (raised : it.after.isAborted = true) :
      Ends problem (n + 1) it.before [it] it.after .aborted
  /-- The flag is not raised after an iteration, and the loop goes on. -/
  | step {n : Nat} {it : Iteration α γ π σ μ} {its : List (Iteration α γ π σ μ)}
      {q : Progress α γ π σ} {stop : Stop} (first : problem.Completes it)
      (lowered : it.after.isAborted = false) (rest : Ends problem n it.after its q stop) :
      Ends problem (n + 1) it.before (it :: its) q stop

/-- **`advance` is the loop, and `trace` lists its iterations.** -/
theorem advance_ends (problem : Problem α π σ μ) (n : Nat) :
    ∀ p : Progress α γ π σ,
      problem.Ends n p (problem.trace n p) (problem.advance n p).1 (problem.advance n p).2 := by
  induction n with
  | zero => exact .reached
  | succ n ih =>
      intro p
      rw [advance_succ]
      unfold trace
      -- the loop goes by `iterate`, the list by `observe`; they agree on what completes
      cases ho : problem.observe p with
      | none =>
          obtain ⟨q, reason, hq⟩ := observe_eq_none_iff.mp ho
          rw [hq]
          exact .failed hq
      | some it =>
          obtain ⟨hc, rfl⟩ := observe_eq_some_iff.mp ho
          rw [hc.iterate_eq]
          cases hab : it.after.isAborted with
          | true => simpa [hab] using Ends.aborted hc hab
          | false => simpa [hab] using Ends.step hc hab (ih it.after)

namespace Ends

variable {problem : Problem α π σ μ} {n : Nat} {p q : Progress α γ π σ}
  {its : List (Iteration α γ π σ μ)} {stop : Stop}

/-- The loop has one way to go. -/
theorem advance_eq (h : problem.Ends n p its q stop) : problem.advance n p = (q, stop) := by
  induction h with
  | reached p => rfl
  | failed fails => rw [advance_succ, fails]
  | aborted last raised => simp only [advance_succ, last.iterate_eq, raised, if_true]
  | step first lowered _ ih =>
      simp only [advance_succ, first.iterate_eq, lowered, Bool.false_eq_true, if_false]
      exact ih

theorem trace_eq (h : problem.Ends n p its q stop) : problem.trace n p = its := by
  induction h with
  | reached p => rfl
  | failed fails => rw [trace, observe_eq_none_iff.mpr ⟨_, _, fails⟩]
  | aborted last raised => simp only [trace, last.observe_eq, raised, if_true]
  | step first lowered _ ih =>
      simp only [trace, first.observe_eq, lowered, Bool.false_eq_true, if_false, ih]

theorem length_le (h : problem.Ends n p its q stop) : its.length ≤ n := by
  induction h with
  | reached p => exact Nat.le_refl 0
  | failed _ => exact Nat.zero_le _
  | aborted _ _ => exact Nat.succ_le_succ (Nat.zero_le _)
  | step _ _ _ ih => exact Nat.succ_le_succ ih

/-- The iterations of a loop follow each other; a failed one comes after them. -/
theorem passes (h : problem.Ends n p its q stop) :
    ∃ r, problem.Passes p its r
      ∧ (r = q ∨ ∃ reason, stop = .failed reason ∧ problem.iterate r = (q, some reason)) := by
  induction h with
  | reached p => exact ⟨p, .done p, .inl rfl⟩
  | @failed n p q reason fails => exact ⟨p, .done p, .inr ⟨reason, rfl, fails⟩⟩
  | @aborted n it last _ => exact ⟨it.after, .step last (.done _), .inl rfl⟩
  | step first _ _ ih =>
      obtain ⟨r, hr, hq⟩ := ih
      exact ⟨r, .step first hr, hq⟩

/-- The iterations of a loop without a failure lead to where it ends. -/
theorem passes_of_ne_failed (h : problem.Ends n p its q stop)
    (hs : ∀ reason, stop ≠ .failed reason) : problem.Passes p its q := by
  obtain ⟨r, hr, rfl | ⟨reason, hreason, -⟩⟩ := h.passes
  · exact hr
  · exact absurd hreason (hs reason)

/-- A loop that reaches its end makes all iterations and never sees its flag raised. -/
theorem of_reached (h : problem.Ends n p its q .reached) :
    its.length = n ∧ ∀ it ∈ its, it.after.isAborted = false := by
  -- the induction is on the loop, so its stop must be a variable
  generalize hs : Stop.reached = stop at h
  induction h with
  | reached p => exact ⟨rfl, fun _ h => absurd h (List.not_mem_nil)⟩
  | failed _ => exact absurd hs (by simp)
  | aborted _ _ => exact absurd hs (by simp)
  | step first lowered _ ih =>
      obtain ⟨hlen, hall⟩ := ih hs
      exact ⟨congrArg (· + 1) hlen, List.forall_mem_cons.mpr ⟨lowered, hall⟩⟩

/-- A loop that is aborted sees its flag raised after its last iteration, and not before. -/
theorem of_aborted (h : problem.Ends n p its q .aborted) :
    ∃ earlier last, its = earlier ++ [last] ∧ last.after = q ∧ q.isAborted = true
      ∧ ∀ it ∈ earlier, it.after.isAborted = false := by
  generalize hs : Stop.aborted = stop at h
  induction h with
  | reached p => exact absurd hs (by simp)
  | failed _ => exact absurd hs (by simp)
  | @aborted n it last raised =>
      exact ⟨[], it, rfl, rfl, raised, fun _ h => absurd h (List.not_mem_nil)⟩
  | @step n it its q stop first lowered _ ih =>
      obtain ⟨earlier, last, rfl, hq, hab, hall⟩ := ih hs
      exact ⟨it :: earlier, last, rfl, hq, hab, List.forall_mem_cons.mpr ⟨lowered, hall⟩⟩

/-- Without failures the loop has two ways out. -/
theorem ne_failed (h : problem.Ends n p its q stop) (never : problem.NeverFails γ)
    (reason : String) : stop ≠ .failed reason := by
  induction h with
  | reached p => simp
  | @failed n p q reason' fails =>
      have hnone := never.iterate_eq p
      rw [fails] at hnone
      exact absurd hnone (by simp)
  | aborted _ _ => simp
  | step _ _ _ ih => exact ih

end Ends

/-- **Iterations with the flag lowered are a first part of any longer loop.** -/
theorem Passes.ends {problem : Problem α π σ μ} {m : Nat} {p q r : Progress α γ π σ}
    {its more : List (Iteration α γ π σ μ)} {stop : Stop} (h : problem.Passes p its q)
    (lowered : ∀ it ∈ its, it.after.isAborted = false) (k : problem.Ends m q more r stop) :
    problem.Ends (its.length + m) p (its ++ more) r stop := by
  induction h with
  | done p =>
      rw [List.length_nil, Nat.zero_add]
      exact k
  | @step it its q first _ ih =>
      obtain ⟨hit, hits⟩ := List.forall_mem_cons.mp lowered
      rw [List.length_cons, Nat.add_right_comm]
      exact .step first hit (ih hits k)

end Problem

/-! ## §3. Runs -/

namespace Annealer

/-- What a run from `a` returns if it comes to `q`. -/
def outcome {α γ π σ : Type} [Scalar α] (a : Annealer α γ π) (q : Progress α γ π σ)
    (aborted : Bool) : Outcome α σ where
  state := q.state
  accepted := q.accepted
  iterations := q.annealer.iteration - a.iteration
  aborted := aborted
  temperature := q.annealer.temperature

theorem conclude_result {α γ π σ : Type} [Scalar α] (a : Annealer α γ π)
    (q : Progress α γ π σ) (aborted : Bool) :
    (a.conclude q aborted).result = .ok (a.outcome q aborted) := rfl

/-- The allowed iterations leave the counter below the number of words. -/
theorem iteration_add_allowed_lt {α γ π : Type} (a : Annealer α γ π) (n : UInt64) :
    a.iteration.toNat + a.allowed n < UInt64.size := by
  have h : a.iteration.toNat < UInt64.size := a.iteration.toNat_lt_size
  unfold allowed
  omega

variable {α γ π σ μ : Type} [Scalar α] [Generator γ]

/-- A run at its start. -/
def start (a : Annealer α γ π) (flags : FlagBoard) (state : σ) : Progress α γ π σ :=
  ⟨a, flags, state, 0⟩

/-- The iterations that a run completes, in order. -/
def iterations (a : Annealer α γ π) (problem : Problem α π σ μ) (flags : FlagBoard) (state : σ)
    (n : UInt64) : List (Iteration α γ π σ μ) :=
  problem.trace (a.allowed n) (a.start flags state)

variable {a : Annealer α γ π} {problem : Problem α π σ μ} {flags : FlagBoard} {state : σ}
  {n : UInt64} {q : Progress α γ π σ} {its : List (Iteration α γ π σ μ)}

/-- A run is described by its loop. -/
theorem iterations_ends (a : Annealer α γ π) (problem : Problem α π σ μ) (flags : FlagBoard)
    (state : σ) (n : UInt64) :
    ∃ q stop, problem.Ends (a.allowed n) (a.start flags state)
      (a.iterations problem flags state n) q stop :=
  ⟨_, _, problem.advance_ends (a.allowed n) (a.start flags state)⟩

theorem run_of_reached
    (h : problem.advance (a.allowed n) (a.start flags state) = (q, .reached)) :
    a.run problem flags state n = a.conclude q false := by
  unfold start at h
  rw [run, h]

theorem run_of_aborted
    (h : problem.advance (a.allowed n) (a.start flags state) = (q, .aborted)) :
    a.run problem flags state n = a.conclude q true := by
  unfold start at h
  rw [run, h]

theorem run_of_failed {reason : String}
    (h : problem.advance (a.allowed n) (a.start flags state) = (q, .failed reason)) :
    a.run problem flags state n
      = { annealer := q.annealer, flags := q.flags, events := [], result := .error reason } := by
  unfold start at h
  rw [run, h]

/-- **A run that returns is the conclusion of its iterations**, and its loop was aborted
if its outcome says so. -/
theorem run_eq_conclude {o : Outcome α σ} (h : (a.run problem flags state n).result = .ok o) :
    ∃ q, problem.Passes (a.start flags state) (a.iterations problem flags state n) q
      ∧ problem.Ends (a.allowed n) (a.start flags state) (a.iterations problem flags state n) q
          (if o.aborted then .aborted else .reached)
      ∧ a.run problem flags state n = a.conclude q o.aborted
      ∧ o = a.outcome q o.aborted := by
  obtain ⟨q, stop, hq⟩ := a.iterations_ends problem flags state n
  -- the two ways out that return, each with the flag the outcome shows
  cases stop with
  | reached =>
      have hrun := run_of_reached hq.advance_eq
      rw [hrun, conclude_result] at h
      injection h with h
      subst h
      exact ⟨q, hq.passes_of_ne_failed (by simp), hq, hrun, rfl⟩
  | aborted =>
      have hrun := run_of_aborted hq.advance_eq
      rw [hrun, conclude_result] at h
      injection h with h
      subst h
      exact ⟨q, hq.passes_of_ne_failed (by simp), hq, hrun, rfl⟩
  | failed reason =>
      rw [run_of_failed hq.advance_eq] at h
      exact absurd h (by simp)

/-- **A run on a problem that never fails returns.** -/
theorem run_returns (a : Annealer α γ π) {problem : Problem α π σ μ}
    (never : problem.NeverFails γ) (flags : FlagBoard) (state : σ) (n : UInt64) :
    ∃ o, (a.run problem flags state n).result = .ok o := by
  obtain ⟨q, stop, hq⟩ := a.iterations_ends problem flags state n
  cases stop with
  | reached => exact ⟨_, by rw [run_of_reached hq.advance_eq, conclude_result]⟩
  | aborted => exact ⟨_, by rw [run_of_aborted hq.advance_eq, conclude_result]⟩
  | failed reason => exact absurd rfl (hq.ne_failed never reason)

/-- The counter after a run is the counter before it plus the iterations made. -/
theorem iteration_toNat_of_passes (h : problem.Passes (a.start flags state) its q)
    (hle : its.length ≤ a.allowed n) :
    q.annealer.iteration.toNat = a.iteration.toNat + its.length := by
  have hlt := a.iteration_add_allowed_lt n
  exact h.iteration_toNat (by change a.iteration.toNat + _ < _; omega)

/-- The iterations of an outcome are the iterations made. -/
theorem outcome_iterations_toNat (h : problem.Passes (a.start flags state) its q)
    (hle : its.length ≤ a.allowed n) (aborted : Bool) :
    (a.outcome q aborted).iterations.toNat = its.length := by
  have hq := iteration_toNat_of_passes h hle
  show (q.annealer.iteration - a.iteration).toNat = its.length
  rw [UInt64.toNat_sub_of_le _ _ (UInt64.le_iff_toNat_le.mpr (by omega)), hq]
  omega

/-- The accepted moves of an outcome are the moves that were taken. -/
theorem outcome_accepted_toNat (h : problem.Passes (a.start flags state) its q)
    (hle : its.length ≤ a.allowed n) (aborted : Bool) :
    (a.outcome q aborted).accepted.toNat = its.countP (·.taken) := by
  show q.accepted.toNat = _
  have hlt := a.iteration_add_allowed_lt n
  have hq := h.accepted_toNat (by change (0 : UInt64).toNat + _ < _; simp; omega)
  rw [hq]
  show (0 : UInt64).toNat + _ = _
  simp

/-! ## §4. What every run keeps -/

/-- A run, whether it returns or fails, makes its iterations and then keeps what it has. -/
theorem run_passes (a : Annealer α γ π) (problem : Problem α π σ μ) (flags : FlagBoard)
    (state : σ) (n : UInt64) :
    ∃ r q, problem.Passes (a.start flags state) (a.iterations problem flags state n) r
      ∧ r.Keeps q ∧ (a.run problem flags state n).annealer = q.annealer
      ∧ (a.run problem flags state n).flags = q.flags := by
  obtain ⟨q, stop, hq⟩ := a.iterations_ends problem flags state n
  cases stop with
  | reached =>
      rw [run_of_reached hq.advance_eq]
      exact ⟨q, q, hq.passes_of_ne_failed (by simp), .refl q, rfl, rfl⟩
  | aborted =>
      rw [run_of_aborted hq.advance_eq]
      exact ⟨q, q, hq.passes_of_ne_failed (by simp), .refl q, rfl, rfl⟩
  | failed reason =>
      rw [run_of_failed hq.advance_eq]
      -- what the failed iteration did comes on top of the completed ones
      obtain ⟨r, hr, rfl | ⟨_, -, hfails⟩⟩ := hq.passes
      · exact ⟨r, r, hr, .refl r, rfl, rfl⟩
      · exact ⟨r, q, hr, .of_iterate_failed hfails, rfl, rfl⟩

theorem run_tuning (a : Annealer α γ π) (problem : Problem α π σ μ) (flags : FlagBoard)
    (state : σ) (n : UInt64) : (a.run problem flags state n).annealer.tuning = a.tuning := by
  obtain ⟨r, q, hr, hq, ha, -⟩ := a.run_passes problem flags state n
  rw [ha, hq.tuning, hr.tuning_eq]
  rfl

theorem run_abort (a : Annealer α γ π) (problem : Problem α π σ μ) (flags : FlagBoard)
    (state : σ) (n : UInt64) : (a.run problem flags state n).annealer.abort = a.abort := by
  obtain ⟨r, q, hr, hq, ha, -⟩ := a.run_passes problem flags state n
  rw [ha, hq.abort, hr.abort_eq]
  rfl

/-- **No run lowers a flag**, not even one in which the problem fails. -/
theorem run_raised (a : Annealer α γ π) (problem : Problem α π σ μ) (flags : FlagBoard)
    (state : σ) (n : UInt64) {k : AbortHandle} (hk : flags.isAborted k = true) :
    (a.run problem flags state n).flags.isAborted k = true := by
  obtain ⟨r, q, hr, hq, -, hf⟩ := a.run_passes problem flags state n
  rw [hf]
  exact hq.raised k (hr.raised hk)

end Annealer

end Annealing
