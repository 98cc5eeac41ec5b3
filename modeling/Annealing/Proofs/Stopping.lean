/-
  Annealing.Proofs.Stopping
  ─────────────────────────
  **WHEN A RUN STOPS.**

  A run looks at its flag after each iteration and at no other time.  So it ends
  with the first iteration after which the flag is raised, whoever raised it and
  when, and otherwise with the last one that is allowed.  The iterations are
  those of `Problem.Passes`, which go on whatever the flag says; the theorem says
  how many of them a run makes.
-/
import Annealing.Generator.Cycle
import Annealing.Problem.Monitored
import Annealing.Proofs.History

namespace Annealing

variable {α γ π σ μ : Type} [Scalar α] [Generator γ]

/-! ## §1. A run that returns -/

/-- The report of a run from `a` that made `count` iterations, came to `q`, and
returned. -/
structure Report.ReturnsAt (r : Report α γ π σ) (a : Annealer α γ π) (count : Nat)
    (q : Progress α γ π σ) (aborted : Bool) : Prop where
  annealer : r.annealer = q.annealer
  flags : r.flags = q.flags
  counter : q.annealer.iteration.toNat = a.iteration.toNat + count
  result : ∃ o, r.result = .ok o ∧ o.state = q.state ∧ o.accepted = q.accepted
    ∧ o.iterations.toNat = count ∧ o.aborted = aborted
    ∧ o.temperature = q.annealer.temperature

namespace Annealer

variable {a : Annealer α γ π} {problem : Problem α π σ μ} {flags : FlagBoard} {state : σ}
  {n : UInt64} {q : Progress α γ π σ} {its : List (Iteration α γ π σ μ)}

theorem conclude_returnsAt (h : problem.Passes (a.start flags state) its q)
    (hle : its.length ≤ a.allowed n) (aborted : Bool) :
    (a.conclude q aborted).ReturnsAt a its.length q aborted where
  annealer := rfl
  flags := rfl
  counter := iteration_toNat_of_passes h hle
  result := ⟨_, a.conclude_result q aborted, rfl, rfl, outcome_iterations_toNat h hle aborted,
    rfl, rfl⟩

/-! ## §2. The iteration that raises the flag is the last -/

/-- The first iteration after which the flag is raised ends the loop. -/
theorem run_of_first_raised {earlier : List (Iteration α γ π σ μ)} {last : Iteration α γ π σ μ}
    (h : problem.Passes (a.start flags state) (earlier ++ [last]) q)
    (hlt : earlier.length < a.allowed n) (lowered : ∀ it ∈ earlier, it.after.isAborted = false)
    (raised : last.after.isAborted = true) :
    (a.run problem flags state n).ReturnsAt a (earlier.length + 1) q true := by
  -- the loop is the earlier iterations, the last one, and `m` that are not made
  obtain ⟨m, hm⟩ : ∃ m, a.allowed n = earlier.length + (m + 1) :=
    ⟨a.allowed n - earlier.length - 1, by omega⟩
  obtain ⟨hbefore, hlast, hafter⟩ := h.around
  have hq : q = last.after := hafter.eq_of_nil
  subst hq
  have hends := hbefore.ends lowered (Problem.Ends.aborted (n := m) hlast raised)
  rw [← hm] at hends
  rw [run_of_aborted hends.advance_eq]
  have hlen : earlier.length + 1 = (earlier ++ [last]).length := by simp
  rw [hlen]
  exact conclude_returnsAt h (n := n) (by omega) true

/-- If the flag is raised after none of the allowed iterations, all are made. -/
theorem run_of_never_raised (h : problem.Passes (a.start flags state) its q)
    (hlen : its.length = a.allowed n) (lowered : ∀ it ∈ its, it.after.isAborted = false) :
    (a.run problem flags state n).ReturnsAt a its.length q false := by
  have hends := h.ends lowered (.reached q)
  rw [Nat.add_zero, List.append_nil, hlen] at hends
  rw [run_of_reached hends.advance_eq]
  exact conclude_returnsAt h (Nat.le_of_eq hlen) false

/-- A failure comes through if the flag has not ended the run before it. -/
theorem run_of_fails {r : Progress α γ π σ} {reason : String}
    (h : problem.Passes (a.start flags state) its q) (hlt : its.length < a.allowed n)
    (lowered : ∀ it ∈ its, it.after.isAborted = false)
    (fails : problem.iterate q = (r, some reason)) :
    (a.run problem flags state n).result = .error reason := by
  obtain ⟨m, hm⟩ : ∃ m, a.allowed n = its.length + (m + 1) :=
    ⟨a.allowed n - its.length - 1, by omega⟩
  have hends := h.ends lowered (Problem.Ends.failed (n := m) fails)
  rw [← hm] at hends
  rw [run_of_failed hends.advance_eq]

/-! ## §3. A flag that is raised already -/

/-- **A run with its flag raised makes one iteration**, if one is allowed. -/
theorem run_of_raised (hraised : flags.isAborted a.abort = true) {o : Outcome α σ}
    (h : (a.run problem flags state n).result = .ok o) :
    o.iterations.toNat = min 1 (a.allowed n) ∧ o.aborted = decide (0 < a.allowed n) := by
  obtain ⟨q, hpasses, hends, -, ho⟩ := run_eq_conclude h
  have hiter : o.iterations.toNat = (a.iterations problem flags state n).length := by
    rw [ho]
    exact outcome_iterations_toNat hpasses hends.length_le _
  rw [hiter]
  cases hab : o.aborted with
  | false =>
      rw [hab] at hends
      -- no iteration can leave the flag lowered, so none was allowed
      obtain ⟨hlen, hlow⟩ := hends.of_reached
      have hnil := hpasses.eq_nil_of_lowered hraised hlow
      rw [hnil, List.length_nil] at hlen
      rw [hnil, ← hlen]
      exact ⟨rfl, rfl⟩
  | true =>
      rw [hab] at hends
      obtain ⟨earlier, last, hits, -, -, hlow⟩ := hends.of_aborted
      have hle := hends.length_le
      rw [hits] at hpasses hle ⊢
      -- for the same reason there is none before the last
      have hnil := hpasses.around.1.eq_nil_of_lowered hraised hlow
      subst hnil
      have hone : 1 ≤ a.allowed n := hle
      exact ⟨(Nat.min_eq_left hone).symm, (decide_eq_true hone).symm⟩

/-! ## §4. The law -/

/-- **When a run stops.**  Of `min n (2⁶⁴ - 1 - c)` allowed iterations, `c` the counter:

  * all can be made one after another, unless the problem fails in one;
  * if the flag is raised after one of them and after none before it, then that one is
    the last, it is a complete iteration, and the run returns as aborted;
  * if the flag is raised after none of them, all are made and the run is not aborted;
  * if the problem fails before either, the run does;
  * no run lowers a flag;
  * after any history without a reset that starts with the flag raised, every run that
    returns has made one iteration, or none if none was allowed. -/
theorem run_stops (a : Annealer α γ π) (problem : Problem α π σ μ) (flags : FlagBoard)
    (state : σ) (n : UInt64) :
    let run := a.run problem flags state n
    let allowed := min n.toNat (UInt64.size - 1 - a.iteration.toNat)
    (∃ its q, problem.Passes (a.start flags state) its q ∧ (its.length = allowed
        ∨ its.length < allowed ∧ ∃ r reason, problem.iterate q = (r, some reason)))
    ∧ (∀ earlier last q, problem.Passes (a.start flags state) (earlier ++ [last]) q →
        earlier.length < allowed → (∀ it ∈ earlier, it.after.isAborted = false) →
        last.after.isAborted = true → run.ReturnsAt a (earlier.length + 1) q true)
    ∧ (∀ its q, problem.Passes (a.start flags state) its q → its.length = allowed →
        (∀ it ∈ its, it.after.isAborted = false) → run.ReturnsAt a allowed q false)
    ∧ (∀ its q r reason, problem.Passes (a.start flags state) its q → its.length < allowed →
        (∀ it ∈ its, it.after.isAborted = false) → problem.iterate q = (r, some reason) →
        run.result = .error reason)
    ∧ (∀ h, flags.isAborted h = true → run.flags.isAborted h = true)
    ∧ ∀ cs : List (Command α π σ), (∀ c ∈ cs, c.isReset = false) →
        flags.isAborted a.abort = true →
        let s := (Search.performAll ⟨a, flags, state⟩ problem cs).1
        ∀ start m o, (s.run problem start m).2.result = .ok o →
          o.iterations.toNat = min 1 (s.annealer.allowed m)
            ∧ o.aborted = decide (0 < s.annealer.allowed m) := by
  refine ⟨problem.exists_passes _ _, ?_, ?_, ?_, ?_, ?_⟩
  · intro earlier last q h hlt lowered raised
    exact run_of_first_raised h hlt lowered raised
  · intro its q h hlen lowered
    have hrun := run_of_never_raised h hlen lowered
    rw [hlen] at hrun
    exact hrun
  · intro its q r reason h hlt lowered fails
    exact run_of_fails h hlt lowered fails
  · intro h hh
    exact a.run_raised problem flags state n hh
  · intro cs hcs hraised s start m o ho
    exact run_of_raised (Search.performAll_raised ⟨a, flags, state⟩ problem hcs hraised) ho

/-- A flag raised in the last of three iterations asked for. -/
example :
    let memory : Monitored Unit :=
      { inner := (), handle := ⟨0⟩, plan := { raiseOnChoose := fun i => i == 2 } }
    let a : Annealer Float Cycle (Monitored Unit) :=
      .create memory ⟨10, 0, .custom fun _ _ => 0, none⟩ (.ofWords #[]) ⟨0⟩
    let run := a.run (Monitored.problem fun _ => Walk.alternating) ⟨#[false]⟩ 2 3
    run.result.toOption.map (fun o => (o.iterations, o.aborted)) = some (3, true) := by
  decide +kernel

end Annealer

end Annealing
