/-
  Annealing.Proofs.Window
  ───────────────────────
  **THE LEARNING WINDOW OF A WHOLE BUDGET IS EXACT.**

  The learning share is not 2/5 but the double nearest to it, which is larger by
  one part in 2⁵⁴.  The product with a budget is rounded, and so are large
  iterations.  For a whole budget of at most 2⁵⁰ none of this matters: the product
  exceeds 2/5 of the budget by less than 1/40, the first iteration past 2/5 is at
  least 1/5 further, and one eighth below it there is a double that the product
  does not exceed.  So the window is the iterations up to 2/5 of the budget, and
  a search that is taught by each of them counts them.

    • `rounded_le_share_iff` — the boundary, in numbers,
    • `inLearningWindow_iff` — and in doubles,
    • `HasSampled.iterate` — what an iteration counts,
    • `history_window` — what a history counts.
-/
import Annealing.Proofs.Cooling
import Annealing.Proofs.Temperatures

namespace Annealing

/-! ## §1. The boundary -/

namespace Binary64

open Float.Model Float.Model.UnpackedFloat

/-- The double nearest to 2/5, as a number. -/
def nearestShare : ℚ := 3602879701896397 / 2 ^ 53

theorem nearestShare_eq : nearestShare = 2 / 5 + 1 / (5 * 2 ^ 53) := by
  unfold nearestShare
  norm_num

/-- An eighth below a whole number there is a double, if the number is small enough. -/
theorem rounded_eighth_below {n : Nat} (hn : 0 < n) (hlt : n ≤ 2 ^ 50) :
    rounded (n - 1 / 8) = n - 1 / 8 := by
  have hval : scaled (8 * n - 1) (-3) = n - 1 / 8 := by
    unfold scaled
    rw [Nat.cast_sub (by omega)]
    push_cast
    norm_num
    ring
  rw [← hval]
  exact rounded_scaled_of_lt (by omega) (by omega) (by norm_num)

/-- **The rounded product is where 2/5 of the budget is**, seen from every rounded
iteration. -/
theorem rounded_le_share_iff {budget : Nat} (pos : 1 ≤ budget) (small : budget ≤ 2 ^ 50)
    (i : Nat) : rounded i ≤ rounded (nearestShare * budget) ↔ 5 * i ≤ 2 * budget := by
  have hbudget : (1 : ℚ) ≤ budget := by exact_mod_cast pos
  have hsmall : (budget : ℚ) ≤ 2 ^ 50 := by exact_mod_cast small
  have hshare := nearestShare_eq
  constructor
  · -- past 2/5 of the budget the product is an eighth below the next whole number
    refine not_imp_not.mp fun hpast hle => ?_
    set first := 2 * budget / 5 + 1 with hfirst
    have hproduct : nearestShare * budget ≤ first - 1 / 8 := by
      have hnext : (2 * budget + 1 : ℚ) ≤ 5 * first := by
        exact_mod_cast (by omega : 2 * budget + 1 ≤ 5 * first)
      rw [hshare]
      norm_num
      linarith
    have hpositive : 0 < nearestShare * budget := by
      rw [hshare]
      positivity
    have hbelow : rounded (nearestShare * budget) ≤ first - 1 / 8 := by
      rw [← rounded_eighth_below (by omega) (by omega)]
      exact rounded_mono hpositive hproduct
    have habove : (first : ℚ) ≤ rounded i := by
      rw [← rounded_natCast (by omega : 0 < first) (by omega)]
      exact rounded_mono (by exact_mod_cast (by omega : 0 < first))
        (by exact_mod_cast (by omega : first ≤ i))
    linarith
  · intro hle
    have hle' : (i : ℚ) ≤ nearestShare * budget := by
      have hcast : (5 * i : ℚ) ≤ 2 * budget := by exact_mod_cast hle
      rw [hshare]
      norm_num
      linarith
    exact rounded_le_rounded (Nat.cast_nonneg i) hle'

/-! ## §2. The window in doubles -/

/-- The product that the window is compared with is rounded correctly. -/
theorem standsFor_window {budget : UInt64} (pos : 1 ≤ budget.toNat)
    (small : budget.toNat ≤ 2 ^ 50) :
    StandsFor (parts (0.4 * budget.toFloat)) (rounded (nearestShare * budget.toNat)) := by
  have hshare : scaled 7205759403792794 (-54) = nearestShare := by
    unfold scaled nearestShare
    norm_num
  obtain ⟨m, e, hm, hcount, hc, hval⟩ := exists_parts_toFloat (n := budget) (by
    rintro rfl
    exact absurd pos (by decide))
  rw [rounded_natCast pos (by omega)] at hval
  have hholds : Holds (UnpackedFloat.mul Format.binary64
      (.finite .positive 7205759403792794 (-54) (by decide)) (.finite .positive m e hm)) .positive
      (rounded (scaled 7205759403792794 (-54) * scaled m e)) :=
    mul_holds .positive .positive (by decide) hm (by omega)
  rw [hshare, hval] at hholds
  have hsmall : rounded (nearestShare * budget.toNat) ≤ 2 ^ 64 := by
    have hcast : (budget.toNat : ℚ) ≤ 2 ^ 50 := by exact_mod_cast small
    rw [← rounded_two_pow]
    refine rounded_le_rounded (by unfold nearestShare; positivity) ?_
    rw [nearestShare_eq]
    norm_num
    linarith
  rw [parts_mul, parts_learningShare, hcount, hholds.refit_eq hsmall]
  exact ⟨.positive, _, rfl, hholds⟩

/-- **The window of a whole budget** is made of the iterations up to 2/5 of it. -/
theorem toFloat_le_window_iff {budget : UInt64} (pos : 1 ≤ budget.toNat)
    (small : budget.toNat ≤ 2 ^ 50) (i : UInt64) :
    i.toFloat ≤ 0.4 * budget.toFloat ↔ 5 * i.toNat ≤ 2 * budget.toNat := by
  rw [le_iff, (toFloat_standsFor i).le_iff (standsFor_window pos small)]
  exact rounded_le_share_iff pos small i.toNat

end Binary64

/-! ## §3. What an iteration samples -/

section
variable {α γ π σ μ : Type} [Scalar α] [Generator γ] {w : Nat}

/-- The scale is estimated in the first `w` iterations and in no others, and these are warm. -/
structure Tuning.Samples (t : Tuning α) (w : Nat) : Prop where
  unscaled : ¬ 0 < t.scale
  window : ∀ i, t.inLearningWindow i = true ↔ i.toNat < w
  warm : ∀ i : UInt64, i.toNat < w → 0 < t.temperature i

/-- A worsening difference is sampled in the window, and nowhere else. -/
theorem Tuning.Samples.judge {t : Tuning α} (h : t.Samples w) {delta : α} (worsens : ¬ delta ≤ 0)
    (i : UInt64) (e : ScaleEstimate α) :
    (t.judge i e delta).2.samples = if i.toNat < w then e.samples + 1 else e.samples := by
  have hjudges := t.judge_judges i e delta
  generalize (t.judge i e delta).1 = verdict at hjudges
  generalize (t.judge i e delta).2 = e' at hjudges ⊢
  cases hjudges with
  | improving improves => exact absurd improves worsens
  | cold _ cold => rw [if_neg fun hi => cold (h.warm i hi)]
  | given _ _ given => exact absurd given h.unscaled
  | learning _ _ _ inside =>
      rw [if_pos ((h.window i).mp inside)]
      rfl
  | frozen _ _ _ outside =>
      rw [if_neg fun hi => absurd ((h.window i).mpr hi) (by rw [outside]; exact Bool.false_ne_true)]

/-- The search has sampled its first `w` iterations, as far as it has come. -/
def Annealer.HasSampled (a : Annealer α γ π) (w : Nat) : Prop :=
  a.estimate.samples.toNat = min a.iteration.toNat w

namespace Problem

/-- What is proposed here, if anything is, worsens the cost. -/
def Worsens (problem : Problem α π σ μ) (p : Progress α γ π σ) : Prop :=
  ∀ proposal, (problem.propose p).2 = .ok proposal → ¬ proposal.delta ≤ 0

/-- If the problem fails in the iteration that begins here, it makes no proposal: no move that
is taken fails to be applied. -/
def FailsEarly (problem : Problem α π σ μ) (p : Progress α γ π σ) : Prop :=
  (problem.iterate p).2 = none ∨ ∃ reason, (problem.propose p).2 = .error reason

/-- **An iteration is sampled and counted together.** -/
theorem hasSampled_iterate {problem : Problem α π σ μ} {p : Progress α γ π σ}
    (samples : p.annealer.tuning.Samples w) (room : p.annealer.iteration.toNat + 1 < UInt64.size)
    (worsens : problem.Worsens p) (early : problem.FailsEarly p)
    (h : p.annealer.HasSampled w) : (problem.iterate p).1.annealer.HasSampled w := by
  unfold Annealer.HasSampled at h ⊢
  cases hi : problem.iterate p with
  | mk q failure =>
      cases failure with
      | none =>
          obtain ⟨it, hc, rfl, rfl⟩ := completes_of_iterate hi
          have hworsens : ¬ it.delta ≤ 0 := worsens it.proposal (by rw [hc.propose_eq])
          have hsamples : (it.tuning.judge it.number it.before.annealer.estimate it.delta).2.samples
              = if it.before.annealer.iteration.toNat < w
                then it.before.annealer.estimate.samples + 1
                else it.before.annealer.estimate.samples := samples.judge hworsens _ _
          rw [hc.iteration_toNat room, hc.estimate_eq, hsamples]
          by_cases hin : it.before.annealer.iteration.toNat < w
          · have hlt : it.before.annealer.estimate.samples.toNat + 1 < UInt64.size := by omega
            rw [if_pos hin, toNat_add_one_of_lt hlt]
            omega
          · rw [if_neg hin]
            omega
      | some reason =>
          obtain hnone | ⟨reason', hasks⟩ := early
          · rw [hi] at hnone
            cases hnone
          · -- without a proposal the iteration ends where the problem has been asked
            have hq : problem.iterate p = ((problem.propose p).1, some reason') :=
              iterate_failed_iff.mpr (.inl (Prod.ext rfl hasks))
            obtain ⟨rfl, -⟩ := Prod.mk.inj (hi.symm.trans hq)
            exact h

end Problem

/-! ## §4. What a history samples -/

namespace Search

variable {problem : Problem α π σ μ}

theorem hasSampled_perform {s : Search α γ π σ} {c : Command α π σ} (hc : c.goesOn = true)
    (samples : s.annealer.tuning.Samples w)
    (hattempts : ∀ p ∈ s.attemptsOf problem c, problem.Worsens p ∧ problem.FailsEarly p)
    (h : s.annealer.HasSampled w) : (s.perform problem c).1.annealer.HasSampled w := by
  have hstep : ∀ p ∈ s.attemptsOf problem c, p.annealer.HasSampled w →
      (problem.iterate p).1.annealer.HasSampled w := by
    intro p hp hsampled
    obtain ⟨m, hlater⟩ := isLater_of_mem_attemptsOf hp
    have hroom := hlater.room
    obtain ⟨worsens, early⟩ := hattempts p hp
    exact Problem.hasSampled_iterate (hlater.tuning ▸ samples) (by omega) worsens early hsampled
  have hrun : ∀ (start : Option σ) (n : UInt64),
      (∀ p ∈ s.annealer.attempts problem s.flags (start.getD s.state) n,
        p.annealer.HasSampled w → (problem.iterate p).1.annealer.HasSampled w) →
      (s.run problem start n).1.annealer.HasSampled w := by
    intro start n hstep
    show (s.annealer.run problem s.flags _ n).annealer.HasSampled w
    rw [s.annealer.run_annealer]
    exact Problem.advance_invariant (J := fun p => p.annealer.HasSampled w) _ hstep h
  cases c with
  | run start n => exact hrun start n hstep
  | runBatch start => exact hrun start Annealer.batchSize hstep
  | abort => exact h
  | raise => exact h
  | amend => exact h
  | _ => cases hc

/-- **A history that goes on samples the first `w` iterations it comes to.** -/
theorem hasSampled_performAll {cs : List (Command α π σ)} :
    ∀ {s : Search α γ π σ}, (∀ c ∈ cs, c.goesOn = true) → s.annealer.tuning.Samples w →
      (∀ p ∈ s.attempts problem cs, problem.Worsens p ∧ problem.FailsEarly p) →
      s.annealer.HasSampled w → (s.performAll problem cs).1.annealer.HasSampled w := by
  induction cs with
  | nil => intro s _ _ _ h; exact h
  | cons c cs ih =>
      intro s hcs samples hattempts h
      obtain ⟨hc, hcs⟩ := List.forall_mem_cons.mp hcs
      obtain ⟨hfirst, hrest⟩ := List.forall_mem_append.mp hattempts
      rw [performAll_cons]
      refine ih hcs ?_ hrest (hasSampled_perform hc samples hfirst h)
      rw [s.perform_tuning problem hc]
      exact samples

end Search

end

/-! ## §5. Whole budgets -/

namespace Search

variable {γ π σ μ : Type} [Generator γ] {lib : Library}

/-- **The learning window of a whole budget is exact.**  For every tuning whose budget is a
whole number from 1 to 2⁵⁰,

  * an iteration falls in the learning window if it, rounded, is at most the rounded product of
    the budget and the double nearest to 2/5, and that is if it is at most 2/5 of the budget;
  * a new search that is given no scale, is warm in the window and is proposed nothing but what
    worsens the cost has sampled, after `n` iterations in runs of any lengths, `n` differences or
    as many as there are iterations in the window, whichever is less.  The problem may fail to
    make proposals, but not to apply moves. -/
theorem history_window (problem : Problem (Binary64 lib) π σ μ) (memory : π)
    (tuning : Tuning (Binary64 lib)) (generator : γ) (abort : AbortHandle) (flags : FlagBoard)
    (state : σ) (cs : List (Command (Binary64 lib) π σ)) (budget : UInt64)
    (whole : tuning.budget = Scalar.ofCount budget) (pos : 1 ≤ budget.toNat)
    (small : budget.toNat ≤ 2 ^ 50) :
    let first : Search (Binary64 lib) γ π σ :=
      ⟨.create memory tuning generator abort, flags, state⟩
    let after := (first.performAll problem cs).1.annealer
    let n := (first.allIterations problem cs).length
    (∀ i : UInt64,
      (tuning.inLearningWindow i = true ↔ Binary64.rounded i.toNat
        ≤ Binary64.rounded (3602879701896397 / 2 ^ 53 * budget.toNat))
      ∧ (tuning.inLearningWindow i = true ↔ 5 * i.toNat ≤ 2 * budget.toNat)
      ∧ (tuning.inLearningWindow i = true ↔ i.toNat ≤ 2 * budget.toNat / 5))
    ∧ (¬ 0 < tuning.scale → (∀ i, tuning.inLearningWindow i = true → 0 < tuning.temperature i) →
        (∀ c ∈ cs, c.goesOn = true) →
        (∀ p ∈ first.attempts problem cs, problem.Worsens p ∧ problem.FailsEarly p) →
        after.iteration.toNat = n
          ∧ after.estimate.samples.toNat = min n (2 * budget.toNat / 5 + 1)) := by
  intro first after n
  have hwindow : ∀ i : UInt64,
      tuning.inLearningWindow i = true ↔ 5 * i.toNat ≤ 2 * budget.toNat := by
    intro i
    refine Iff.trans ?_ (Binary64.toFloat_le_window_iff pos small i)
    unfold Tuning.inLearningWindow
    rw [whole]
    exact decide_eq_true_iff
  refine ⟨fun i => ⟨?_, hwindow i, ?_⟩, fun unscaled warm hcs hattempts => ?_⟩
  · rw [hwindow]
    exact (Binary64.rounded_le_share_iff pos small i.toNat).symm
  · rw [hwindow]
    omega
  · have hcount : after.iteration.toNat = n := by
      refine (performAll_iteration fun c hc => c.isReset_of_goesOn (hcs c hc)).trans ?_
      exact Nat.zero_add n
    have samples : tuning.Samples (2 * budget.toNat / 5 + 1) := {
      unscaled
      window := fun i => by rw [hwindow]; omega
      warm := fun i hi => warm i ((hwindow i).mpr (by omega)) }
    have hsampled : after.HasSampled (2 * budget.toNat / 5 + 1) :=
      hasSampled_performAll hcs samples hattempts (Nat.zero_min _).symm
    refine ⟨hcount, ?_⟩
    rw [← hcount]
    exact hsampled

end Search

namespace Walk

/-- Every step goes up, at a cost of one. -/
def ascent : Problem (Binary64 .special) Unit Int Int :=
  .ofFunctions (fun _ _ _ => ⟨(), [], .ok ⟨1, 1⟩⟩) (fun _ x step => ⟨(), [], .ok (x + step)⟩)

theorem ascent_neverFails : ascent.NeverFails Cycle where
  choose _ _ _ _ := ⟨_, rfl⟩
  apply _ _ _ := ⟨_, rfl⟩

/-- A walk over a budget of five, at an infinite temperature. -/
def ascending : Search (Binary64 .special) Cycle Unit Int where
  annealer :=
    .create () ⟨Scalar.ofCount 5, 0, .custom fun _ _ => 1 / 0, none⟩ (.ofWords #[0, 7]) ⟨0⟩
  flags := ⟨#[false]⟩
  state := 0

/-- Six steps in two runs. -/
def sixSteps : List (Command (Binary64 .special) Unit Int) :=
  [.run none 2, .run none 4]

end Walk

/-- Of six steps the walk samples the first three. -/
theorem Search.history_window_ascending :
    Walk.ascending.annealer.tuning.budget = Scalar.ofCount 5
    ∧ (∀ i : UInt64, Walk.ascending.annealer.tuning.inLearningWindow i = true ↔ i.toNat ≤ 2)
    ∧ (Walk.ascending.performAll Walk.ascent Walk.sixSteps).1.annealer.iteration.toNat = 6
    ∧ (Walk.ascending.performAll Walk.ascent Walk.sixSteps).1.annealer.estimate.samples.toNat
        = 3 := by
  have hlength : (Walk.ascending.allIterations Walk.ascent Walk.sixSteps).length = 6 := by
    decide +kernel
  have hwarm : (0 : Float) < 1 / 0 := by decide +kernel
  have hworsens : ¬ (1 : Float) ≤ 0 := by decide +kernel
  have hattempts : ∀ p ∈ Walk.ascending.attempts Walk.ascent Walk.sixSteps,
      Walk.ascent.Worsens p ∧ Walk.ascent.FailsEarly p := by
    refine fun p _ => ⟨fun proposal h => ?_, .inl (Walk.ascent_neverFails.iterate_eq p)⟩
    cases h
    exact hworsens
  have hstart : (⟨.create () Walk.ascending.annealer.tuning Walk.ascending.annealer.generator ⟨0⟩,
      Walk.ascending.flags, Walk.ascending.state⟩ : Search (Binary64 .special) Cycle Unit Int)
      = Walk.ascending := rfl
  have h := Search.history_window Walk.ascent () Walk.ascending.annealer.tuning
    Walk.ascending.annealer.generator ⟨0⟩ Walk.ascending.flags Walk.ascending.state Walk.sixSteps 5
    rfl (by decide) (by decide)
  rw [hstart] at h
  obtain ⟨hwindow, hsamples⟩ := h
  obtain ⟨hcount, hsampled⟩ := hsamples (by decide +kernel) (fun _ _ => hwarm) (by decide) hattempts
  have hend : 2 * (5 : UInt64).toNat / 5 = 2 := by decide
  rw [hlength] at hcount hsampled
  rw [hend, show min 6 (2 + 1) = 3 by decide] at hsampled
  exact ⟨rfl, fun i => by rw [(hwindow i).2.2, hend], hcount, hsampled⟩

end Annealing
