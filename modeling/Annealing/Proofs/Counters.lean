/-
  Annealing.Proofs.Counters
  ─────────────────────────
  **NO COUNTER WRAPS.**

  A search counts its iterations and its samples, and a run counts the moves it
  accepts.  All are 64-bit numbers, and each is kept from wrapping by the one
  before it: a run asks for no iteration above the largest count, an iteration
  accepts one move at most and teaches one sample at most.  The samples are bound
  over whole histories, as a run starts with those of the runs before it.

    • `passes_of_mem_attempts` — a run comes to each of its iterations by passing
      those before it,
    • `inBounds_of_passes` — the bounds at every point that a run comes to,
    • `history_counters` — the bounds and what follows from them, in every history.
-/
import Annealing.Proofs.Course
import Annealing.Proofs.Lockstep

namespace Annealing

/-! ## §1. The bounds -/

/-- The largest count. -/
def largestCount : Nat := UInt64.size - 1

namespace Annealer

variable {α γ π : Type}

/-- **Where a run of `n` iterations goes to**: `n` further, but not above the largest count. -/
def target (a : Annealer α γ π) (n : UInt64) : Nat :=
  min (a.iteration.toNat + n.toNat) largestCount

/-- A run is allowed to go to its target. -/
theorem iteration_add_allowed (a : Annealer α γ π) (n : UInt64) :
    a.iteration.toNat + a.allowed n = a.target n := by
  have h : a.iteration.toNat < UInt64.size := a.iteration.toNat_lt_size
  unfold target allowed largestCount
  omega

/-- At the largest count no iteration is allowed. -/
theorem allowed_of_largest {a : Annealer α γ π} (h : a.iteration.toNat = largestCount)
    (n : UInt64) : a.allowed n = 0 := by
  unfold largestCount at h
  unfold allowed
  omega

/-- **The bounds** on the counters of `now`, to which a run of `n` iterations from `a` has come
with this many accepted moves. -/
structure InBounds (a : Annealer α γ π) (n : UInt64) (now : Annealer α γ π) (accepted : UInt64) :
    Prop where
  start_le : a.iteration ≤ now.iteration
  le_target : now.iteration.toNat ≤ a.target n
  target_le : a.target n ≤ largestCount
  difference : (now.iteration - a.iteration).toNat = now.iteration.toNat - a.iteration.toNat
  accepted_le : accepted ≤ now.iteration - a.iteration
  samples_le : now.estimate.samples ≤ now.iteration

end Annealer

/-- **There is room for one more** of everything that an iteration counts, and the weight of
one more sample is not a division by zero. -/
structure Progress.HasRoom {α γ π σ : Type} [Scalar α] (p : Progress α γ π σ) : Prop where
  iteration : p.count.annealer.iteration.toNat = p.annealer.iteration.toNat + 1
  accepted : ∀ state, (p.accept state).accepted.toNat = p.accepted.toNat + 1
  samples : ∀ delta,
    (p.annealer.estimate.fold delta).samples.toNat = p.annealer.estimate.samples.toNat + 1
  divisor : ∀ delta, (0 : α) < Scalar.ofCount (p.annealer.estimate.fold delta).samples

/-- **Below the target there is room**, if every count other than zero is a positive scalar. -/
theorem Annealer.InBounds.hasRoom {α γ π σ : Type} [Scalar α] {a : Annealer α γ π} {n : UInt64}
    {q : Progress α γ π σ} (positive : ∀ k : UInt64, k ≠ 0 → (0 : α) < Scalar.ofCount k)
    (h : a.InBounds n q.annealer q.accepted) (hlt : q.annealer.iteration.toNat < a.target n) :
    q.HasRoom := by
  -- what is at most the counter can be counted up once more
  have hone : ∀ k : UInt64, k.toNat ≤ q.annealer.iteration.toNat →
      (k + 1).toNat = k.toNat + 1 := by
    intro k hk
    have hlargest := h.target_le
    unfold largestCount at hlargest
    exact toNat_add_one_of_lt (by omega)
  have haccepted := UInt64.le_iff_toNat_le.mp h.accepted_le
  have hsamples := UInt64.le_iff_toNat_le.mp h.samples_le
  have hdifference := h.difference
  refine ⟨hone _ (Nat.le_refl _), fun _ => hone _ (by omega), fun _ => hone _ hsamples,
    fun _ => positive _ fun hzero => ?_⟩
  have hcount := hone _ hsamples
  have hnone : (q.annealer.estimate.samples + 1).toNat = 0 := congrArg UInt64.toNat hzero
  omega

/-! ## §2. The points of a run -/

variable {α γ π σ μ : Type} [Scalar α] [Generator γ]

namespace Problem

variable {problem : Problem α π σ μ}

theorem length_attempts_le (n : Nat) :
    ∀ p : Progress α γ π σ, (problem.attempts n p).length ≤ n := by
  induction n with
  | zero => intro p; exact Nat.le_refl 0
  | succ n ih =>
      intro p
      unfold attempts
      rw [List.length_cons]
      refine Nat.succ_le_succ ?_
      split
      · exact Nat.zero_le n
      · split
        · exact Nat.zero_le n
        · exact ih _

/-- **A loop comes to each of its iterations by passing those before it**, of which there are
fewer than it may make. -/
theorem passes_of_mem_attempts (n : Nat) :
    ∀ {p x : Progress α γ π σ}, x ∈ problem.attempts n p →
      ∃ its, problem.Passes p its x ∧ its.length < n := by
  induction n with
  | zero => intro p x hx; exact absurd hx List.not_mem_nil
  | succ n ih =>
      intro p x hx
      unfold attempts at hx
      rcases List.mem_cons.mp hx with rfl | hx
      · exact ⟨[], .done x, Nat.succ_pos n⟩
      · cases hi : problem.iterate p with
        | mk q failure =>
            rw [hi] at hx
            cases failure with
            | some reason => exact absurd hx List.not_mem_nil
            | none =>
                obtain ⟨it, hc, rfl, rfl⟩ := completes_of_iterate hi
                cases hab : it.after.isAborted with
                | true =>
                    simp only [hab, if_true] at hx
                    exact absurd hx List.not_mem_nil
                | false =>
                    simp only [hab, Bool.false_eq_true, if_false] at hx
                    obtain ⟨its, hits, hlt⟩ := ih hx
                    exact ⟨it :: its, .step hc hits, Nat.succ_lt_succ hlt⟩

end Problem

namespace Annealer

variable {a : Annealer α γ π} {problem : Problem α π σ μ} {seen its : List (Iteration α γ π σ μ)}

/-- An iteration teaches one lesson at most. -/
theorem HasLearned.samples_le (h : a.HasLearned problem seen) :
    a.estimate.samples.toNat ≤ a.iteration.toNat := by
  rw [h.estimate, h.counter]
  calc (UInt64.ofNat (lessons seen).length).toNat
      = (lessons seen).length % 2 ^ 64 := UInt64.toNat_ofNat'
    _ ≤ (lessons seen).length := Nat.mod_le _ _
    _ ≤ seen.length := List.length_filterMap_le _ _

variable {flags : FlagBoard} {state : σ} {n : UInt64} {q : Progress α γ π σ}

/-- **The bounds hold wherever a run comes to.** -/
theorem inBounds_of_passes (learned : a.HasLearned problem seen)
    (h : problem.Passes (a.start flags state) its q) (hle : its.length ≤ a.allowed n) :
    a.InBounds n q.annealer q.accepted := by
  have hcount := iteration_toNat_of_passes h hle
  have hbound := a.iteration_add_allowed n
  have hle' : a.iteration ≤ q.annealer.iteration := UInt64.le_iff_toNat_le.mpr (by omega)
  have hdifference := UInt64.toNat_sub_of_le _ _ hle'
  have haccepted : q.accepted.toNat = its.countP (·.taken) :=
    outcome_accepted_toNat h hle false
  have htaken : its.countP (·.taken) ≤ its.length := List.countP_le_length
  have hstart : (a.start flags state).annealer.HasLearned problem seen := learned
  have hlearned := hstart.passes h (by
    have hlt := a.iteration_add_allowed_lt n
    have hseen := learned.counter
    omega)
  exact {
    start_le := hle'
    le_target := by omega
    target_le := Nat.min_le_right _ _
    difference := hdifference
    accepted_le := UInt64.le_iff_toNat_le.mpr (by omega)
    samples_le := UInt64.le_iff_toNat_le.mpr hlearned.samples_le }

end Annealer

/-! ## §3. Every history -/

theorem Binary64.ofCount_pos {lib : Library} {k : UInt64} (hk : k ≠ 0) :
    (0 : Binary64 lib) < Scalar.ofCount k :=
  toFloat_pos hk

namespace Annealer

variable {a : Annealer α γ π} {problem : Problem α π σ μ} {flags : FlagBoard} {state : σ}
  {n : UInt64}

/-- **A search at the largest count runs nothing.** -/
theorem run_of_largest (h : a.iteration.toNat = largestCount) (problem : Problem α π σ μ)
    (flags : FlagBoard) (state : σ) (n : UInt64) :
    a.attempts problem flags state n = []
      ∧ a.run problem flags state n = a.conclude (a.start flags state) false := by
  have hnone := allowed_of_largest h n
  unfold attempts run
  rw [hnone]
  exact ⟨rfl, rfl⟩

/-- **The bounds hold at the end of a run that returns**, and if the flag has not ended it, the
target is reached. -/
theorem inBounds_of_run {seen : List (Iteration α γ π σ μ)} (learned : a.HasLearned problem seen)
    {o : Outcome α σ} (ho : (a.run problem flags state n).result = .ok o) :
    a.InBounds n (a.run problem flags state n).annealer o.accepted
      ∧ o.iterations = (a.run problem flags state n).annealer.iteration - a.iteration
      ∧ (o.aborted = false →
          (a.run problem flags state n).annealer.iteration.toNat = a.target n) := by
  obtain ⟨q, hq, hends, hrun, hoq⟩ := run_eq_conclude ho
  have hle := hends.length_le
  rw [hrun]
  refine ⟨?_, ?_, ?_⟩
  · rw [hoq]
    exact inBounds_of_passes learned hq hle
  · rw [hoq]
    rfl
  · intro hab
    rw [hab] at hends
    have hcount := iteration_toNat_of_passes hq hle
    rw [hends.of_reached.1, a.iteration_add_allowed n] at hcount
    exact hcount

end Annealer

namespace Search

/-- **No counter wraps.**  After every history of a new search in which every run returns, and
for every number of iterations asked for:

  * wherever the run begins an iteration, the counter is between its start and below the
    target, no more moves are accepted than iterations made, and no more samples taken than
    the counter says; one more of each can be counted, and the weight of the next sample is
    not a division by zero;
  * no more iterations are begun than are asked for, or than are left below the largest count;
  * the bounds hold at the end of the run too, and the target is reached unless the flag ends
    the run before it;
  * at the largest count the run does nothing and changes nothing. -/
theorem history_counters {lib : Library} (problem : Problem (Binary64 lib) π σ μ) (memory : π)
    (tuning : Tuning (Binary64 lib)) (generator : γ) (abort : AbortHandle) (flags : FlagBoard)
    (state : σ) (cs : List (Command (Binary64 lib) π σ))
    (hok : ∀ r ∈ (performAll ⟨.create memory tuning generator abort, flags, state⟩ problem cs).2,
      ∃ o, r.result = .ok o) (start : Option σ) (n : UInt64) :
    let s := (performAll ⟨.create memory tuning generator abort, flags, state⟩ problem cs).1
    let a := s.annealer
    let points := a.attempts problem s.flags (start.getD s.state) n
    let run := s.run problem start n
    (∀ p ∈ points, a.InBounds n p.annealer p.accepted
      ∧ p.annealer.iteration.toNat < a.target n ∧ p.HasRoom)
    ∧ points.length ≤ min n.toNat (largestCount - a.iteration.toNat)
    ∧ (∀ o, run.2.result = .ok o → a.InBounds n run.1.annealer o.accepted
        ∧ o.iterations = run.1.annealer.iteration - a.iteration
        ∧ (o.aborted = false → run.1.annealer.iteration.toNat = a.target n))
    ∧ (a.iteration.toNat = largestCount → points = []
        ∧ run.1 = { s with state := start.getD s.state }
        ∧ run.2.result = .ok ⟨start.getD s.state, 0, 0, false, a.temperature⟩) := by
  intro s a points run
  have learned : a.HasLearned problem (sinceReset _ problem [] cs) :=
    hasLearned_performAll (.nil rfl rfl) hok
  refine ⟨?_, Problem.length_attempts_le _ _, fun _ => Annealer.inBounds_of_run learned, ?_⟩
  · intro p hp
    obtain ⟨its, hits, hlt⟩ := Problem.passes_of_mem_attempts _ hp
    have hbounds := Annealer.inBounds_of_passes learned hits (Nat.le_of_lt hlt)
    have hbelow : p.annealer.iteration.toNat < a.target n := by
      rw [Annealer.iteration_toNat_of_passes hits (Nat.le_of_lt hlt), ← a.iteration_add_allowed n]
      omega
    exact ⟨hbounds, hbelow, hbounds.hasRoom (fun _ => Binary64.ofCount_pos) hbelow⟩
  · intro hlargest
    obtain ⟨hnone, hreport⟩ := a.run_of_largest hlargest problem s.flags (start.getD s.state) n
    have hrun : s.run problem start n = ({ s with state := start.getD s.state },
        a.conclude (a.start s.flags (start.getD s.state)) false) := by
      unfold Search.run
      rw [hreport]
      rfl
    refine ⟨hnone, congrArg (·.1) hrun, (congrArg (·.2.result) hrun).trans ?_⟩
    have hzero : a.iteration - a.iteration = 0 := UInt64.sub_self _
    rw [Annealer.conclude_result]
    unfold Annealer.outcome Annealer.start
    rw [hzero]

/-- Three switches of the lamp, and a request to stop. -/
def dimmed : List (Command (Binary64 .special) Unit Bool) :=
  [.run none 2, .setBudget 8.0, .run none 1, .abort]

/-- The largest number of iterations is asked for when three are done. -/
theorem history_counters_unlit :
    let s := (Walk.unlit.performAll Walk.lamp dimmed).1
    let n : UInt64 := 18446744073709551615
    let points := s.annealer.attempts Walk.lamp s.flags s.state n
    (∀ r ∈ (Walk.unlit.performAll Walk.lamp dimmed).2, ∃ o, r.result = .ok o)
    ∧ (s.annealer.iteration, s.annealer.estimate.samples) = (3, 2)
    ∧ s.annealer.target n = largestCount
    ∧ points.length ≤ largestCount - 3
    ∧ (∀ p ∈ points, s.annealer.InBounds n p.annealer p.accepted ∧ p.HasRoom)
    ∧ ∃ o, (s.run Walk.lamp none n).2.result = .ok o
        ∧ s.annealer.InBounds n (s.run Walk.lamp none n).1.annealer o.accepted := by
  intro s n points
  have hok := performAll_returns Walk.lamp_neverFails dimmed Walk.unlit
  have hcounts : (s.annealer.iteration, s.annealer.estimate.samples) = (3, 2) := by
    decide +kernel
  obtain ⟨hiteration, -⟩ := Prod.mk.inj hcounts
  have hstart : (⟨.create () Walk.unlit.annealer.tuning Walk.unlit.annealer.generator ⟨0⟩,
      Walk.unlit.flags, Walk.unlit.state⟩ : Search (Binary64 .special) Cycle Unit Bool)
      = Walk.unlit := rfl
  have h := history_counters Walk.lamp () Walk.unlit.annealer.tuning
    Walk.unlit.annealer.generator ⟨0⟩ Walk.unlit.flags Walk.unlit.state dimmed hok none n
  rw [hstart] at h
  obtain ⟨hpoints, hlength, hreturns, -⟩ := h
  obtain ⟨o, ho⟩ := s.annealer.run_returns Walk.lamp_neverFails s.flags s.state n
  refine ⟨hok, hcounts, ?_, hlength.trans ?_, fun p hp => ⟨(hpoints p hp).1, (hpoints p hp).2.2⟩,
    o, ho, (hreturns o ho).1⟩
  · unfold Annealer.target
    rw [hiteration]
    decide
  · change min n.toNat (largestCount - s.annealer.iteration.toNat) ≤ _
    rw [hiteration]
    decide

end Search

end Annealing
