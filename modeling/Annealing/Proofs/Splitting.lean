/-
  Annealing.Proofs.Splitting
  ──────────────────────────
  **ONE RUN OR TWO.**

  Asking for `n + m` iterations at once, or for `n` and then for `m`, is the same
  search.  The loop splits because it keeps nothing outside the point it has
  reached; the only thing that a second run starts afresh is the counter of
  accepted moves, and no iteration looks at it (`iterate_credit`).
-/
import Annealing.Proofs.Trace
import Annealing.Generator.Cycle

namespace Annealing

variable {α γ π σ μ : Type} [Scalar α] [Generator γ]

/-! ## §1. The loop splits -/

/-- **The loop splits anywhere.**  A loop that ends before its first part is over
does not begin with the second. -/
theorem Problem.advance_add (problem : Problem α π σ μ) (n m : Nat) (p : Progress α γ π σ) :
    problem.advance (n + m) p =
      match problem.advance n p with
      | (q, .reached) => problem.advance m q
      | ended => ended := by
  induction n generalizing p with
  | zero =>
      rw [Nat.zero_add]
      rfl
  | succ n ih =>
      rw [Nat.add_right_comm, advance_succ, advance_succ]
      cases problem.iterate p with
      | mk q failure =>
          cases failure with
          | some reason => rfl
          | none =>
              cases hq : q.isAborted with
              | true => simp only [hq, if_true]
              | false =>
                  simp only [hq, Bool.false_eq_true, if_false]
                  exact ih q

/-! ## §2. The counter of accepted moves plays no part -/

/-- The same point with more moves on the counter. -/
def Progress.credit (p : Progress α γ π σ) (k : UInt64) : Progress α γ π σ :=
  { p with accepted := p.accepted + k }

theorem Problem.iterate_credit (problem : Problem α π σ μ) (p : Progress α γ π σ) (k : UInt64) :
    problem.iterate (p.credit k)
      = ((problem.iterate p).1.credit k, (problem.iterate p).2) := by
  -- asking, weighing and applying all leave the counter to `accept`
  have hp : problem.propose (p.credit k)
      = ((problem.propose p).1.credit k, (problem.propose p).2) := rfl
  unfold iterate
  rw [hp]
  cases problem.propose p with
  | mk q answer =>
      cases answer with
      | error reason => rfl
      | ok proposal =>
          have hw : (q.credit k).weigh proposal.delta
              = ((q.weigh proposal.delta).1.credit k, (q.weigh proposal.delta).2) := rfl
          simp only [hw]
          cases q.weigh proposal.delta with
          | mk r taken =>
              cases taken with
              | false => rfl
              | true =>
                  have hc : problem.carryOut (r.credit k) proposal.move
                      = ((problem.carryOut r proposal.move).1.credit k,
                          (problem.carryOut r proposal.move).2) := rfl
                  simp only [hc]
                  cases problem.carryOut r proposal.move with
                  | mk u answer =>
                      cases answer with
                      | error reason => rfl
                      | ok state =>
                          -- the counter is raised after the credit, or before it
                          simp only [Progress.accept, Progress.count, Progress.credit,
                            UInt64.add_assoc, UInt64.add_comm k 1]

theorem Problem.advance_credit (problem : Problem α π σ μ) (k : UInt64) (n : Nat) :
    ∀ p : Progress α γ π σ, problem.advance n (p.credit k)
      = ((problem.advance n p).1.credit k, (problem.advance n p).2) := by
  induction n with
  | zero => intro p; rfl
  | succ n ih =>
      intro p
      rw [advance_succ, advance_succ, iterate_credit]
      cases problem.iterate p with
      | mk q failure =>
          cases failure with
          | some reason => rfl
          | none =>
              have hq : (q.credit k).isAborted = q.isAborted := rfl
              cases hab : q.isAborted with
              | true => simp only [hq, hab, if_true]
              | false =>
                  simp only [hq, hab, Bool.false_eq_true, if_false]
                  exact ih q

/-! ## §3. Two runs -/

/-- `whole` is the outcome of two runs taken together: counts add up, everything else
is the second's. -/
structure Outcome.IsSum (whole first second : Outcome α σ) : Prop where
  state : whole.state = second.state
  accepted : whole.accepted.toNat = first.accepted.toNat + second.accepted.toNat
  iterations : whole.iterations.toNat = first.iterations.toNat + second.iterations.toNat
  aborted : whole.aborted = second.aborted
  temperature : whole.temperature = second.temperature

namespace Annealer

/-- **A run of `n + m` iterations is a run of `n`, followed by a run of `m` unless the
first was aborted or failed.**  What they leave behind is the same: the annealer with
its memory, tuning, generator, counter and estimate, and the flags.  So is what they
return, or the failure. -/
def SplitsAt (a : Annealer α γ π) (problem : Problem α π σ μ) (flags : FlagBoard) (state : σ)
    (n m : UInt64) : Prop :=
  let whole := a.run problem flags state (n + m)
  let first := a.run problem flags state n
  match first.result with
  | .error _ => whole = first
  | .ok outcome =>
    if outcome.aborted then whole = first
    else
      let second := first.annealer.run problem first.flags outcome.state m
      whole.annealer = second.annealer ∧ whole.flags = second.flags ∧
        match second.result with
        | .error reason => whole.result = .error reason
        | .ok outcome' => ∃ total, whole.result = .ok total ∧ total.IsSum outcome outcome'

/-- What is allowed of `n + m` iterations is what is allowed of `n`, and what is then
left for `m`. -/
theorem allowed_add {α γ π : Type} (a : Annealer α γ π) {n m : UInt64}
    (h : n.toNat + m.toNat < UInt64.size) :
    a.allowed (n + m)
      = a.allowed n + min m.toNat (UInt64.size - 1 - (a.iteration.toNat + a.allowed n)) := by
  have hnm : (n + m).toNat = n.toNat + m.toNat := by
    rw [UInt64.toNat_add]
    exact Nat.mod_eq_of_lt h
  unfold allowed
  rw [hnm]
  omega

/-- A first loop that ends early is all of the whole loop. -/
theorem run_add_of_ended {a : Annealer α γ π} {problem : Problem α π σ μ} {flags : FlagBoard}
    {state : σ} {n m : UInt64} (h : n.toNat + m.toNat < UInt64.size) {q : Progress α γ π σ}
    {stop : Stop} (hq : problem.advance (a.allowed n) (a.start flags state) = (q, stop))
    (hs : stop ≠ .reached) :
    a.run problem flags state (n + m) = a.run problem flags state n := by
  have hwhole : problem.advance (a.allowed (n + m)) (a.start flags state) = (q, stop) := by
    rw [allowed_add a h, problem.advance_add, hq]
    cases stop with
    | reached => exact absurd rfl hs
    | aborted => rfl
    | failed reason => rfl
  unfold start at hwhole hq
  unfold run
  rw [hwhole, hq]

/-- Once the first loop has gone on to its end, the whole loop goes on with the second. -/
theorem advance_allowed_add {a : Annealer α γ π} {problem : Problem α π σ μ}
    {flags : FlagBoard} {state : σ} {n m : UInt64} (h : n.toNat + m.toNat < UInt64.size)
    {q : Progress α γ π σ}
    (hq : problem.advance (a.allowed n) (a.start flags state) = (q, .reached))
    (hc : q.annealer.iteration.toNat = a.iteration.toNat + a.allowed n) :
    problem.advance (a.allowed (n + m)) (a.start flags state)
      = ((problem.advance (q.annealer.allowed m) (q.annealer.start q.flags q.state)).1.credit
            q.accepted,
          (problem.advance (q.annealer.allowed m) (q.annealer.start q.flags q.state)).2) := by
  -- what is left below the largest count is left to the second run
  have hall : a.allowed (n + m) = a.allowed n + q.annealer.allowed m := by
    rw [allowed_add a h, ← hc]
    rfl
  have hcredit : (q.annealer.start q.flags q.state).credit q.accepted = q := by
    obtain ⟨annealer, flags, state, accepted⟩ := q
    simp only [start, Progress.credit, UInt64.zero_add]
  rw [hall, problem.advance_add, hq]
  show problem.advance (q.annealer.allowed m) q = _
  rw [← problem.advance_credit, hcredit]

/-- The counts of two runs add up without passing the largest count. -/
theorem outcome_isSum {a : Annealer α γ π} {problem : Problem α π σ μ} {flags : FlagBoard}
    {state : σ} {n m : UInt64} {q r : Progress α γ π σ}
    {its more : List (Iteration α γ π σ μ)}
    (hq : problem.Passes (a.start flags state) its q) (hn : its.length ≤ a.allowed n)
    (hr : problem.Passes (q.annealer.start q.flags q.state) more r)
    (hm : more.length ≤ q.annealer.allowed m) (aborted : Bool) :
    (a.outcome (r.credit q.accepted) aborted).IsSum (a.outcome q false)
      (q.annealer.outcome r aborted) := by
  have hqc := iteration_toNat_of_passes hq hn
  have hrc := iteration_toNat_of_passes hr hm
  have hqlt := a.iteration_add_allowed_lt n
  have hrlt := q.annealer.iteration_add_allowed_lt m
  refine ⟨rfl, ?_, ?_, rfl, rfl⟩
  -- both sums are of parts of the iterations made, and those are within what is allowed
  · show (r.accepted + q.accepted).toNat = q.accepted.toNat + r.accepted.toNat
    have hqa : q.accepted.toNat ≤ its.length :=
      outcome_accepted_toNat hq hn false ▸ List.countP_le_length
    have hra : r.accepted.toNat ≤ more.length :=
      outcome_accepted_toNat hr hm aborted ▸ List.countP_le_length
    rw [UInt64.toNat_add, Nat.add_comm]
    exact Nat.mod_eq_of_lt (by change _ < UInt64.size; omega)
  · rw [outcome_iterations_toNat hq hn, outcome_iterations_toNat hr hm]
    show (r.annealer.iteration - a.iteration).toNat = its.length + more.length
    rw [UInt64.toNat_sub_of_le _ _ (UInt64.le_iff_toNat_le.mpr (by omega))]
    omega

/-- **Splitting a run changes nothing.** -/
theorem run_splitsAt (a : Annealer α γ π) (problem : Problem α π σ μ) (flags : FlagBoard)
    (state : σ) (n m : UInt64) (h : n.toNat + m.toNat < UInt64.size) :
    a.SplitsAt problem flags state n m := by
  obtain ⟨q, stop, hq⟩ := a.iterations_ends problem flags state n
  unfold SplitsAt
  cases stop with
  -- a first run that fails or is aborted is the whole run
  | failed reason =>
      rw [run_of_failed hq.advance_eq]
      show a.run problem flags state (n + m) = _
      rw [run_add_of_ended h hq.advance_eq (by simp), run_of_failed hq.advance_eq]
  | aborted =>
      rw [run_of_aborted hq.advance_eq]
      show a.run problem flags state (n + m) = _
      rw [run_add_of_ended h hq.advance_eq (by simp), run_of_aborted hq.advance_eq]
  | reached =>
      rw [run_of_reached hq.advance_eq]
      have hpasses := hq.passes_of_ne_failed (by simp)
      have hlen := hq.of_reached.1
      have hle := Nat.le_of_eq hlen
      have hcount := iteration_toNat_of_passes hpasses hle
      rw [hlen] at hcount
      -- the second run starts where the first has ended
      obtain ⟨r, stop, hr⟩ := q.annealer.iterations_ends problem q.flags q.state m
      have hwhole := advance_allowed_add h hq.advance_eq hcount
      rw [hr.advance_eq] at hwhole
      simp only [conclude, Bool.false_eq_true, if_false]
      cases stop with
      | failed reason =>
          rw [run_of_failed hwhole, run_of_failed hr.advance_eq]
          exact ⟨rfl, rfl, rfl⟩
      | aborted =>
          rw [run_of_aborted hwhole, run_of_aborted hr.advance_eq]
          have hmore := hr.passes_of_ne_failed (by simp)
          exact ⟨rfl, rfl, _, rfl, outcome_isSum hpasses hle hmore hr.length_le true⟩
      | reached =>
          rw [run_of_reached hwhole, run_of_reached hr.advance_eq]
          have hmore := hr.passes_of_ne_failed (by simp)
          exact ⟨rfl, rfl, _, rfl, outcome_isSum hpasses hle hmore hr.length_le false⟩

/-- A cold walk, five iterations below the largest count. -/
def lateWalk : Annealer Float Cycle Unit :=
  { create () ⟨10, 0, .custom fun _ _ => 0, none⟩ (.ofWords #[]) ⟨0⟩ with
    iteration := 18446744073709551610 }

/-- The second of two runs asks for more iterations than are left. -/
theorem run_splitsAt_lateWalk :
    (3 : UInt64).toNat + (4 : UInt64).toNat < UInt64.size
      ∧ lateWalk.SplitsAt Walk.alternating ⟨#[false]⟩ 2 3 4
      ∧ (lateWalk.run Walk.alternating ⟨#[false]⟩ 2 (3 + 4)).annealer.iteration
          = 18446744073709551615 :=
  ⟨by decide, run_splitsAt _ _ _ _ _ _ (by decide), by decide +kernel⟩

end Annealer

end Annealing
