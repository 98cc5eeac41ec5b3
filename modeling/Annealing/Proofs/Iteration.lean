/-
  Annealing.Proofs.Iteration
  ──────────────────────────
  **WHAT ONE ITERATION DOES.**

  An iteration that completes is described by five things: the run before it, the
  run once the problem has made its proposal, the proposal, whether its move was
  taken, and the run after it.  `Completes` says how they hang together, one
  constructor for each way through an iteration; everything that is proved about
  iterations is read off these two constructors.

    • `observe` finds the iteration that completes from a given point,
    • an iteration keeps the tuning and the handle and counts itself once,
    • its estimate and its decision are those of `Tuning.judge` and `Verdict.settle`,
    • no iteration, completed or not, lowers a flag.
-/
import Annealing.Annealer.Run
import Annealing.Problem.Walk
import Annealing.Proofs.Flags

namespace Annealing

/-! ## §1. Completed iterations -/

/-- A counter that is not full counts on without wrapping. -/
theorem toNat_add_one_of_lt {k : UInt64} (h : k.toNat + 1 < UInt64.size) :
    (k + 1).toNat = k.toNat + 1 := by
  rw [UInt64.toNat_add, UInt64.toNat_one]
  exact Nat.mod_eq_of_lt h

/-- A completed iteration. -/
structure Iteration (α γ π σ μ : Type) where
  /-- The run before it. -/
  before : Progress α γ π σ
  /-- The run once the proposal is made; the decision draws from its generator. -/
  asked : Progress α γ π σ
  /-- The proposal. -/
  proposal : Proposal α μ
  /-- Was its move taken? -/
  taken : Bool
  /-- The run after it. -/
  after : Progress α γ π σ

namespace Iteration

variable {α γ π σ μ : Type} [Scalar α]

/-- The iteration's number. -/
def number (it : Iteration α γ π σ μ) : UInt64 :=
  it.before.annealer.iteration

/-- The tuning in force. -/
def tuning (it : Iteration α γ π σ μ) : Tuning α :=
  it.before.annealer.tuning

/-- The proposed cost difference. -/
def delta (it : Iteration α γ π σ μ) : α :=
  it.proposal.delta

/-- The temperature at the iteration. -/
def temperature (it : Iteration α γ π σ μ) : α :=
  it.tuning.temperature it.number

end Iteration

namespace Problem

variable {α γ π σ μ : Type} [Scalar α] [Generator γ]

/-- The iteration that completes from `p`, unless the problem fails in it. -/
def observe (problem : Problem α π σ μ) (p : Progress α γ π σ) :
    Option (Iteration α γ π σ μ) :=
  match problem.propose p, problem.iterate p with
  | (asked, .ok proposal), (after, none) =>
      some { before := p, asked, proposal, taken := (asked.weigh proposal.delta).2, after }
  | _, _ => none

/-- **What happens in an iteration that completes**: a proposal is made and weighed,
and its move is carried out exactly if it is taken. -/
inductive Completes (problem : Problem α π σ μ) : Iteration α γ π σ μ → Prop where
  /-- The move is refused. -/
  | refused {p q r : Progress α γ π σ} {proposal : Proposal α μ}
      (asks : problem.propose p = (q, .ok proposal))
      (weighs : q.weigh proposal.delta = (r, false)) :
      Completes problem ⟨p, q, proposal, false, r.count⟩
  /-- The move is taken and carried out. -/
  | applied {p q r u : Progress α γ π σ} {proposal : Proposal α μ} {state : σ}
      (asks : problem.propose p = (q, .ok proposal))
      (weighs : q.weigh proposal.delta = (r, true))
      (carries : problem.carryOut r proposal.move = (u, .ok state)) :
      Completes problem ⟨p, q, proposal, true, (u.accept state).count⟩

/-! ## §2. Finding the iteration -/

/-- An iteration that ends without a failure is a completed one. -/
theorem completes_of_iterate {problem : Problem α π σ μ} {p after : Progress α γ π σ}
    (h : problem.iterate p = (after, none)) :
    ∃ it, problem.Completes it ∧ it.before = p ∧ it.after = after := by
  unfold iterate at h
  split at h
  -- the problem has made no proposal
  next => exact absurd h (by simp)
  next q proposal hq =>
    split at h
    next r hr =>
      injection h with h
      exact ⟨_, .refused hq hr, rfl, h⟩
    next r hr =>
      split at h
      -- it has failed to apply the move
      next => exact absurd h (by simp)
      next u state hu =>
        injection h with h
        exact ⟨_, .applied hq hr hu, rfl, h⟩

/-- **The ways an iteration can fail**: at the proposal, or at a move that is taken. -/
theorem iterate_failed_iff {problem : Problem α π σ μ} {p q : Progress α γ π σ}
    {reason : String} :
    problem.iterate p = (q, some reason) ↔
      problem.propose p = (q, .error reason)
      ∨ ∃ asked weighed proposal, problem.propose p = (asked, .ok proposal)
          ∧ asked.weigh proposal.delta = (weighed, true)
          ∧ problem.carryOut weighed proposal.move = (q, .error reason) := by
  unfold iterate
  constructor
  · intro h
    split at h
    next hq =>
      injection h with h hreason
      injection hreason with hreason
      exact .inl (by rw [hq, h, hreason])
    next asked proposal hq =>
      split at h
      next => exact absurd h (by simp)
      next weighed hr =>
        split at h
        next hu =>
          injection h with h hreason
          injection hreason with hreason
          exact .inr ⟨asked, weighed, proposal, hq, hr, by rw [hu, h, hreason]⟩
        next => exact absurd h (by simp)
  · rintro (hq | ⟨asked, weighed, proposal, hq, hr, hu⟩)
    · rw [hq]
    · simp only [hq, hr, hu]

theorem Completes.iterate_eq {problem : Problem α π σ μ} {it : Iteration α γ π σ μ}
    (h : problem.Completes it) : problem.iterate it.before = (it.after, none) := by
  unfold iterate
  cases h with
  | refused asks weighs => simp only [asks, weighs]
  | applied asks weighs carries => simp only [asks, weighs, carries]

theorem Completes.observe_eq {problem : Problem α π σ μ} {it : Iteration α γ π σ μ}
    (h : problem.Completes it) : problem.observe it.before = some it := by
  have hi := h.iterate_eq
  unfold observe
  cases h with
  | refused asks weighs => simp only [asks, hi, weighs]
  | applied asks weighs carries => simp only [asks, hi, weighs]

/-- **`observe` finds the completed iteration and nothing else.** -/
theorem observe_eq_some_iff {problem : Problem α π σ μ} {p : Progress α γ π σ}
    {it : Iteration α γ π σ μ} :
    problem.observe p = some it ↔ problem.Completes it ∧ it.before = p := by
  constructor
  · intro h
    cases hi : problem.iterate p with
    | mk after failure =>
        cases failure with
        | some reason =>
            unfold observe at h
            rw [hi] at h
            split at h
            next heq => exact absurd heq (by simp)
            next => exact absurd h (by simp)
        | none =>
            -- some iteration completes from `p`, and observation finds just that one
            obtain ⟨it', hc, hb, -⟩ := completes_of_iterate hi
            have hit := hc.observe_eq
            rw [hb, h] at hit
            injection hit with hit
            exact hit ▸ ⟨hc, hb⟩
  · rintro ⟨hc, rfl⟩
    exact hc.observe_eq

theorem observe_eq_none_iff {problem : Problem α π σ μ} {p : Progress α γ π σ} :
    problem.observe p = none ↔ ∃ q reason, problem.iterate p = (q, some reason) := by
  cases hi : problem.iterate p with
  | mk q failure =>
      cases failure with
      | some reason =>
          refine ⟨fun _ => ⟨q, reason, rfl⟩, fun _ => ?_⟩
          cases ho : problem.observe p with
          | none => rfl
          | some it =>
              obtain ⟨hc, rfl⟩ := observe_eq_some_iff.mp ho
              have := hc.iterate_eq
              rw [hi] at this
              simp at this
      | none =>
          obtain ⟨it, hc, rfl, -⟩ := completes_of_iterate hi
          simp [hc.observe_eq]

end Problem

/-! ## §3. What a part of an iteration keeps -/

/-- `q` has the tuning, the handle, the counters and the candidate of `p`, and every
flag that is raised at `p` is raised at `q`. -/
structure Progress.Keeps {α γ π σ : Type} (p q : Progress α γ π σ) : Prop where
  tuning : q.annealer.tuning = p.annealer.tuning
  abort : q.annealer.abort = p.annealer.abort
  iteration : q.annealer.iteration = p.annealer.iteration
  state : q.state = p.state
  accepted : q.accepted = p.accepted
  raised : ∀ h, p.flags.isAborted h = true → q.flags.isAborted h = true

namespace Progress.Keeps

variable {α γ π σ μ : Type} {p q r : Progress α γ π σ}

theorem refl (p : Progress α γ π σ) : p.Keeps p :=
  ⟨rfl, rfl, rfl, rfl, rfl, fun _ => id⟩

theorem trans (hpq : p.Keeps q) (hqr : q.Keeps r) : p.Keeps r where
  tuning := hqr.tuning.trans hpq.tuning
  abort := hqr.abort.trans hpq.abort
  iteration := hqr.iteration.trans hpq.iteration
  state := hqr.state.trans hpq.state
  accepted := hqr.accepted.trans hpq.accepted
  raised h hp := hqr.raised h (hpq.raised h hp)

theorem propose [Generator γ] {problem : Problem α π σ μ}
    {answer : Except String (Proposal α μ)} (h : problem.propose p = (q, answer)) : p.Keeps q := by
  have hq : q = (problem.propose p).1 := by rw [h]
  subst hq
  exact ⟨rfl, rfl, rfl, rfl, rfl, fun _ => FlagBoard.isAborted_abortAll_of_isAborted _⟩

theorem weigh [Scalar α] [Generator γ] {delta : α} {taken : Bool}
    (h : p.weigh delta = (q, taken)) : p.Keeps q := by
  have hq : q = (p.weigh delta).1 := by rw [h]
  subst hq
  exact ⟨rfl, rfl, rfl, rfl, rfl, fun _ => id⟩

theorem carryOut {problem : Problem α π σ μ} {move : μ} {answer : Except String σ}
    (h : problem.carryOut p move = (q, answer)) : p.Keeps q := by
  have hq : q = (problem.carryOut p move).1 := by rw [h]
  subst hq
  exact ⟨rfl, rfl, rfl, rfl, rfl, fun _ => FlagBoard.isAborted_abortAll_of_isAborted _⟩

/-- **An iteration in which the problem fails keeps all of this**, its counter too. -/
theorem of_iterate_failed [Scalar α] [Generator γ] {problem : Problem α π σ μ} {reason : String}
    (h : problem.iterate p = (q, some reason)) : p.Keeps q := by
  unfold Problem.iterate at h
  split at h
  next hq =>
    injection h with h
    exact h ▸ .propose hq
  next hq =>
    split at h
    next => exact absurd h (by simp)
    next hr =>
      split at h
      next hu =>
        injection h with h
        exact h ▸ ((Keeps.propose hq).trans (.weigh hr)).trans (.carryOut hu)
      next => exact absurd h (by simp)

end Progress.Keeps

/-! ## §4. What a completed iteration changes -/

namespace Problem.Completes

variable {α γ π σ μ : Type} [Scalar α] [Generator γ]
  {problem : Problem α π σ μ} {it : Iteration α γ π σ μ}

/-- The iteration is counted, and nothing else is done to what its parts have kept. -/
theorem exists_keeps (h : problem.Completes it) :
    ∃ r, it.before.Keeps r ∧
      (it.taken = false ∧ it.after = r.count
        ∨ it.taken = true ∧ ∃ state, it.after = (r.accept state).count) := by
  cases h with
  | refused asks weighs =>
      exact ⟨_, (Progress.Keeps.propose asks).trans (.weigh weighs), .inl ⟨rfl, rfl⟩⟩
  | applied asks weighs carries =>
      exact ⟨_, ((Progress.Keeps.propose asks).trans (.weigh weighs)).trans (.carryOut carries),
        .inr ⟨rfl, _, rfl⟩⟩

theorem tuning_eq (h : problem.Completes it) :
    it.after.annealer.tuning = it.before.annealer.tuning := by
  obtain ⟨r, hr, ⟨-, e⟩ | ⟨-, state, e⟩⟩ := h.exists_keeps <;> rw [e] <;> exact hr.tuning

theorem abort_eq (h : problem.Completes it) :
    it.after.annealer.abort = it.before.annealer.abort := by
  obtain ⟨r, hr, ⟨-, e⟩ | ⟨-, state, e⟩⟩ := h.exists_keeps <;> rw [e] <;> exact hr.abort

/-- **An iteration counts itself once.** -/
theorem iteration_eq (h : problem.Completes it) :
    it.after.annealer.iteration = it.before.annealer.iteration + 1 := by
  obtain ⟨r, hr, ⟨-, e⟩ | ⟨-, state, e⟩⟩ := h.exists_keeps <;> rw [e, ← hr.iteration] <;> rfl

theorem iteration_toNat (h : problem.Completes it)
    (hlt : it.before.annealer.iteration.toNat + 1 < UInt64.size) :
    it.after.annealer.iteration.toNat = it.before.annealer.iteration.toNat + 1 := by
  rw [h.iteration_eq]
  exact toNat_add_one_of_lt hlt

/-- A move that is taken is counted once. -/
theorem accepted_eq (h : problem.Completes it) :
    it.after.accepted = it.before.accepted + if it.taken then 1 else 0 := by
  obtain ⟨r, hr, ⟨ht, e⟩ | ⟨ht, state, e⟩⟩ := h.exists_keeps <;> rw [e, ht, ← hr.accepted]
  · exact (UInt64.add_zero _).symm
  · rfl

/-- A move that is refused leaves the candidate. -/
theorem state_eq (h : problem.Completes it) (ht : it.taken = false) :
    it.after.state = it.before.state := by
  obtain ⟨r, hr, ⟨-, e⟩ | ⟨htaken, -⟩⟩ := h.exists_keeps
  · rw [e]
    exact hr.state
  · rw [ht] at htaken
    exact absurd htaken Bool.false_ne_true

theorem accepted_toNat (h : problem.Completes it)
    (hlt : it.before.accepted.toNat + 1 < UInt64.size) :
    it.after.accepted.toNat = it.before.accepted.toNat + if it.taken then 1 else 0 := by
  rw [h.accepted_eq]
  by_cases ht : it.taken = true
  · rw [if_pos ht, if_pos ht]
    exact toNat_add_one_of_lt hlt
  · rw [if_neg ht, if_neg ht, UInt64.add_zero, Nat.add_zero]

theorem raised (h : problem.Completes it) {k : AbortHandle}
    (hk : it.before.flags.isAborted k = true) : it.after.flags.isAborted k = true := by
  obtain ⟨r, hr, ⟨-, e⟩ | ⟨-, state, e⟩⟩ := h.exists_keeps <;> rw [e] <;> exact hr.raised k hk

/-- A raised flag of the run's own is raised after the iteration. -/
theorem isAborted (h : problem.Completes it) (hb : it.before.isAborted = true) :
    it.after.isAborted = true := by
  unfold Progress.isAborted at hb ⊢
  rw [h.abort_eq]
  exact h.raised hb

/-- The proposal is the problem's answer. -/
theorem propose_eq (h : problem.Completes it) :
    problem.propose it.before = (it.asked, .ok it.proposal) := by
  cases h with
  | refused asks _ => exact asks
  | applied asks _ _ => exact asks

theorem asked_eq (h : problem.Completes it) : it.asked = (problem.propose it.before).1 := by
  rw [h.propose_eq]

/-- Weighing the difference decides, and leaves estimate and generator as they are after the
iteration. -/
theorem weigh_eq (h : problem.Completes it) :
    ∃ r, it.asked.weigh it.delta = (r, it.taken)
      ∧ it.after.annealer.estimate = r.annealer.estimate
      ∧ it.after.annealer.generator = r.annealer.generator := by
  cases h with
  | refused _ weighs => exact ⟨_, weighs, rfl, rfl⟩
  | @applied p q r u proposal state _ weighs carries =>
      -- applying the move changes no more than memory and flags
      have hu : u = (problem.carryOut r proposal.move).1 := by rw [carries]
      subst hu
      exact ⟨r, weighs, rfl, rfl⟩

/-- **The decision is the judgement's**, settled with the generator as the problem left it. -/
theorem taken_eq (h : problem.Completes it) :
    it.taken = ((it.tuning.judge it.number it.before.annealer.estimate it.delta).1.settle
      it.asked.annealer.generator).1 := by
  obtain ⟨r, hr, -, -⟩ := h.weigh_eq
  have hw : it.taken = (it.asked.weigh it.delta).2 := by rw [hr]
  -- proposing leaves the estimate and the counter alone, so the judgement is the same before it
  rw [hw, h.asked_eq]
  rfl

/-- **The estimate is the judgement's**, whatever the decision. -/
theorem estimate_eq (h : problem.Completes it) :
    it.after.annealer.estimate
      = (it.tuning.judge it.number it.before.annealer.estimate it.delta).2 := by
  obtain ⟨r, hr, hestimate, -⟩ := h.weigh_eq
  have hw : r = (it.asked.weigh it.delta).1 := by rw [hr]
  rw [hestimate, hw, h.asked_eq]
  rfl

end Problem.Completes

/-! ## §5. Problems that never fail -/

/-- The problem answers every question, whatever its memory and the words it draws. -/
structure Problem.NeverFails {α π σ μ : Type} (problem : Problem α π σ μ) (γ : Type)
    [Generator γ] : Prop where
  choose : ∀ memory state iteration (g : γ),
    ∃ proposal, ((problem.choose memory state iteration).run g).1.result = .ok proposal
  apply : ∀ memory state move, ∃ state', (problem.apply memory state move).result = .ok state'

/-- No iteration fails then. -/
theorem Problem.NeverFails.iterate_eq {α γ π σ μ : Type} [Scalar α] [Generator γ]
    {problem : Problem α π σ μ} (h : problem.NeverFails γ) (p : Progress α γ π σ) :
    (problem.iterate p).2 = none := by
  obtain ⟨proposal, hanswer⟩ := h.choose p.annealer.memory p.state p.annealer.iteration
    p.annealer.generator
  have hproposal : (problem.propose p).2 = .ok proposal := hanswer
  unfold iterate
  -- the two questions are the only places where an iteration can fail
  cases hq : problem.propose p with
  | mk q answer =>
      rw [hq] at hproposal
      subst hproposal
      cases hr : q.weigh proposal.delta with
      | mk r taken =>
          cases taken with
          | false => simp only [hr]
          | true =>
              obtain ⟨state, happlied⟩ := h.apply r.annealer.memory r.state proposal.move
              have hstate : (problem.carryOut r proposal.move).2 = .ok state := happlied
              cases hu : problem.carryOut r proposal.move with
              | mk u answer =>
                  rw [hu] at hstate
                  subst hstate
                  simp only [hr, hu]

theorem Walk.problem_neverFails (γ : Type) [Generator γ] : Walk.problem.NeverFails γ where
  choose _ _ _ _ := ⟨_, rfl⟩
  apply _ _ _ := ⟨_, rfl⟩

theorem Walk.alternating_neverFails (γ : Type) [Generator γ] :
    Walk.alternating.NeverFails γ where
  choose _ _ _ _ := ⟨_, rfl⟩
  apply _ _ _ := ⟨_, rfl⟩

end Annealing
