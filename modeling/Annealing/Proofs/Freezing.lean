/-
  Annealing.Proofs.Freezing
  ─────────────────────────
  **LEARNING ENDS ONCE AND FOR ALL, AND SAYS SO ONCE.**

  The iteration counter only grows between resets.  If counts are converted to
  scalars in order, an iteration after one outside the learning window is outside
  as well, for any budget, NaN included.  So a search that goes on with its tuning
  leaves the window at most once.  The run in which it does so, and no other,
  announces the estimate, and that estimate is final.

    • `outside_of_le` — the window is an initial part of the iterations,
    • `run_outside` — outside, a run stays outside and learns nothing,
    • `run_announced` — what a run that returns announces,
    • `history_freezing` — the same of histories.
-/
import Annealing.Generator.Cycle
import Annealing.Proofs.Binary64.Library

namespace Annealing

/-! ## §1. The window -/

/-- Counts are converted in order, and the order is transitive. -/
class CountsInOrder (α : Type) [Scalar α] : Prop where
  trans : ∀ x y z : α, x ≤ y → y ≤ z → x ≤ z
  ofCount_mono : ∀ i j : UInt64, i ≤ j → (Scalar.ofCount i : α) ≤ Scalar.ofCount j

instance : CountsInOrder Float where
  trans _ _ _ := Binary64.le_transitive
  ofCount_mono _ _ := Binary64.toFloat_mono

instance (lib : Library) : CountsInOrder (Binary64 lib) where
  trans _ _ _ := Binary64.le_transitive
  ofCount_mono _ _ := Binary64.toFloat_mono

section
variable {α : Type} [Scalar α] [CountsInOrder α]

/-- **After an iteration outside the window, all are outside.** -/
theorem Tuning.outside_of_le (t : Tuning α) {i j : UInt64} (h : t.inLearningWindow i = false)
    (hij : i ≤ j) : t.inLearningWindow j = false := by
  unfold inLearningWindow at h ⊢
  rw [decide_eq_false_iff_not] at h ⊢
  intro hj
  exact h (CountsInOrder.trans _ _ _ (CountsInOrder.ofCount_mono i j hij) hj)

end

/-! ## §2. Outside the window -/

/-- The search has left the learning window with this estimate, and has at least so many
iterations to go before its counter is full. -/
structure Progress.IsFrozen {α γ π σ : Type} [Scalar α] (t : Tuning α) (e : ScaleEstimate α)
    (n : Nat) (p : Progress α γ π σ) : Prop where
  tuning : p.annealer.tuning = t
  estimate : p.annealer.estimate = e
  outside : t.inLearningWindow p.annealer.iteration = false
  room : p.annealer.iteration.toNat + n < UInt64.size

section
variable {α γ π σ μ : Type} [Scalar α] [Generator γ]

/-- An iteration is counted, unless the problem fails in it. -/
theorem Problem.iterate_iteration (problem : Problem α π σ μ) (p : Progress α γ π σ) :
    (problem.iterate p).1.annealer.iteration = p.annealer.iteration
      ∨ (problem.iterate p).1.annealer.iteration = p.annealer.iteration + 1 := by
  cases hi : problem.iterate p with
  | mk q failure =>
      cases failure with
      | some reason => exact .inl (Progress.Keeps.of_iterate_failed hi).iteration
      | none =>
          obtain ⟨it, hc, rfl, rfl⟩ := completes_of_iterate hi
          exact .inr hc.iteration_eq

variable [CountsInOrder α]

theorem Progress.IsFrozen.iterate {t : Tuning α} {e : ScaleEstimate α} {n : Nat}
    {p : Progress α γ π σ} (h : p.IsFrozen t e (n + 1)) (problem : Problem α π σ μ) :
    (problem.iterate p).1.IsFrozen t e n := by
  obtain ⟨htuning, hestimate, houtside, hroom⟩ := h
  have hnext : (p.annealer.iteration + 1).toNat = p.annealer.iteration.toNat + 1 :=
    toNat_add_one_of_lt (by omega)
  refine ⟨(problem.iterate_tuning p).trans htuning, ?_, ?_, ?_⟩
  · -- a difference is taken in only inside the window
    rcases problem.iterate_estimate p with heq | ⟨delta, -, inside, -⟩
    · exact heq.trans hestimate
    · rw [htuning, houtside] at inside
      exact absurd inside Bool.false_ne_true
  · rcases problem.iterate_iteration p with heq | heq <;> rw [heq]
    · exact houtside
    · exact t.outside_of_le houtside (UInt64.le_iff_toNat_le.mpr (by omega))
  · rcases problem.iterate_iteration p with heq | heq <;> rw [heq] <;> omega

namespace Annealer

/-- **Outside the window, a run stays outside and learns nothing**, also if the problem fails
in it. -/
theorem run_outside {a : Annealer α γ π} (h : a.inLearningWindow = false)
    (problem : Problem α π σ μ) (flags : FlagBoard) (state : σ) (n : UInt64) :
    (a.run problem flags state n).annealer.inLearningWindow = false
      ∧ (a.run problem flags state n).annealer.estimate = a.estimate := by
  have hstart : (a.start flags state).IsFrozen a.tuning a.estimate (a.allowed n) :=
    ⟨rfl, rfl, h, a.iteration_add_allowed_lt n⟩
  obtain ⟨m, q, hq, ha, -⟩ := Annealer.run_invariant
    (J := fun n p => p.IsFrozen a.tuning a.estimate n) (fun _ _ hp => hp.iterate problem)
    a flags state n hstart
  unfold inLearningWindow
  rw [ha, hq.tuning]
  exact ⟨hq.outside, hq.estimate⟩

end Annealer

end

/-! ## §3. The announcement -/

/-- The estimate that an event announces as final, if it does. -/
def Event.frozen? {α : Type} : Event α → Option (ScaleEstimate α)
  | .frozen estimate => some estimate
  | _ => none

/-- The estimates that reports announce as final, in order. -/
def announced {α γ π σ : Type} (reports : List (Report α γ π σ)) : List (ScaleEstimate α) :=
  reports.flatMap fun r => r.events.filterMap Event.frozen?

theorem announced_append {α γ π σ : Type} (reports more : List (Report α γ π σ)) :
    announced (reports ++ more) = announced reports ++ announced more :=
  List.flatMap_append

section
variable {α γ π σ μ : Type} [Scalar α] [Generator γ]

namespace Annealer

variable {a : Annealer α γ π} {problem : Problem α π σ μ} {flags : FlagBoard} {state : σ}
  {n : UInt64}

/-- **A run that returns announces its estimate exactly if it has left the window** without a
given scale. -/
theorem run_announced {o : Outcome α σ} (h : (a.run problem flags state n).result = .ok o) :
    announced [a.run problem flags state n]
      = if (a.run problem flags state n).annealer.hasFrozen a
        then [(a.run problem flags state n).annealer.estimate] else [] := by
  obtain ⟨q, -, -, hrun, -⟩ := run_eq_conclude h
  rw [hrun]
  -- the other two events announce nothing
  cases hfrozen : q.annealer.hasFrozen a <;> cases o.aborted <;>
    simp only [announced, conclude, hfrozen] <;> rfl

/-- With a given scale no run announces anything. -/
theorem run_announced_of_hasScale (h : a.tuning.hasScale = true) :
    announced [a.run problem flags state n] = [] := by
  cases hresult : (a.run problem flags state n).result with
  | ok o =>
      rw [run_announced hresult]
      unfold hasFrozen
      rw [run_tuning, h, Bool.not_true, Bool.and_false, Bool.false_and,
        if_neg Bool.false_ne_true]
  | error reason =>
      obtain ⟨q, stop, hq⟩ := a.iterations_ends problem flags state n
      cases stop with
      | reached => rw [run_of_reached hq.advance_eq, conclude_result] at hresult; cases hresult
      | aborted => rw [run_of_aborted hq.advance_eq, conclude_result] at hresult; cases hresult
      | failed reason => rw [run_of_failed hq.advance_eq]; rfl

end Annealer

end

/-! ## §4. Histories -/

/-- Does the command go on with the search as it is tuned? -/
def Command.goesOn {α π σ : Type} : Command α π σ → Bool
  | .reset | .setBudget _ | .setScale _ | .setSchedule _ => false
  | _ => true

namespace Search

variable {α γ π σ μ : Type} [Scalar α] [Generator γ] {c : Command α π σ}
  {cs : List (Command α π σ)}

theorem perform_tuning (s : Search α γ π σ) (problem : Problem α π σ μ) (hc : c.goesOn = true) :
    (s.perform problem c).1.annealer.tuning = s.annealer.tuning := by
  cases c with
  | run start n => exact s.annealer.run_tuning problem s.flags _ n
  | runBatch start => exact s.annealer.run_tuning problem s.flags _ Annealer.batchSize
  | abort => rfl
  | raise => rfl
  | amend => rfl
  | _ => cases hc

theorem performAll_tuning (s : Search α γ π σ) (problem : Problem α π σ μ)
    (hcs : ∀ c ∈ cs, c.goesOn = true) :
    (s.performAll problem cs).1.annealer.tuning = s.annealer.tuning :=
  performAll_invariant (J := fun s' => s'.annealer.tuning = s.annealer.tuning)
    (fun s' c hc hs' => (s'.perform_tuning problem (hcs c hc)).trans hs') rfl

/-- What a command announces that goes on with the search: the estimate, if it has left the
window without a given scale. -/
theorem perform_announced (s : Search α γ π σ) (problem : Problem α π σ μ)
    (hc : c.goesOn = true)
    (returns : ∀ r ∈ (s.perform problem c).2, ∃ o, r.result = .ok o) :
    announced (s.perform problem c).2.toList
      = if (s.perform problem c).1.annealer.hasFrozen s.annealer
        then [(s.perform problem c).1.annealer.estimate] else [] := by
  -- a search that stays where it is has not left the window
  have hstays : ∀ a : Annealer α γ π, a.inLearningWindow = s.annealer.inLearningWindow →
      [] = if a.hasFrozen s.annealer then [a.estimate] else [] := by
    intro a ha
    unfold Annealer.hasFrozen
    rw [ha]
    cases s.annealer.inLearningWindow <;> simp
  cases c with
  | run start n => exact Annealer.run_announced (returns _ rfl).choose_spec
  | runBatch start => exact Annealer.run_announced (returns _ rfl).choose_spec
  | abort => exact hstays _ rfl
  | raise => exact hstays _ rfl
  | amend => exact hstays _ rfl
  | _ => cases hc

theorem performAll_announced_of_hasScale (problem : Problem α π σ μ) :
    ∀ {cs : List (Command α π σ)}, (∀ c ∈ cs, c.goesOn = true) →
      ∀ s : Search α γ π σ, s.annealer.tuning.hasScale = true →
        announced (s.performAll problem cs).2 = [] := by
  intro cs
  induction cs with
  | nil => intro _ s _; rfl
  | cons c cs ih =>
      intro hcs s hs
      obtain ⟨hc, hcs⟩ := List.forall_mem_cons.mp hcs
      rw [performAll_cons, announced_append,
        ih hcs _ (by rw [s.perform_tuning problem hc]; exact hs), List.append_nil]
      cases c with
      | run start n => exact Annealer.run_announced_of_hasScale hs
      | runBatch start => exact Annealer.run_announced_of_hasScale hs
      | _ => rfl

variable [CountsInOrder α]

theorem perform_outside (s : Search α γ π σ) (problem : Problem α π σ μ) (hc : c.goesOn = true)
    (hs : s.annealer.inLearningWindow = false) :
    (s.perform problem c).1.annealer.inLearningWindow = false
      ∧ (s.perform problem c).1.annealer.estimate = s.annealer.estimate := by
  cases c with
  | run start n => exact s.annealer.run_outside hs problem s.flags _ n
  | runBatch start => exact s.annealer.run_outside hs problem s.flags _ Annealer.batchSize
  | abort => exact ⟨hs, rfl⟩
  | raise => exact ⟨hs, rfl⟩
  | amend => exact ⟨hs, rfl⟩
  | _ => cases hc

/-- **Once outside the window, a search stays outside and its estimate does not change.** -/
theorem performAll_outside (s : Search α γ π σ) (problem : Problem α π σ μ)
    (hcs : ∀ c ∈ cs, c.goesOn = true) (hs : s.annealer.inLearningWindow = false) :
    (s.performAll problem cs).1.annealer.inLearningWindow = false
      ∧ (s.performAll problem cs).1.annealer.estimate = s.annealer.estimate :=
  performAll_invariant
    (J := fun s' => s'.annealer.inLearningWindow = false
      ∧ s'.annealer.estimate = s.annealer.estimate)
    (fun s' c hc hs' =>
      have h := s'.perform_outside problem (hcs c hc) hs'.1
      ⟨h.1, h.2.trans hs'.2⟩)
    ⟨hs, rfl⟩

/-- Leaving the window by commands one after another is leaving it by one of them. -/
theorem performAll_announced (problem : Problem α π σ μ) :
    ∀ {cs : List (Command α π σ)}, (∀ c ∈ cs, c.goesOn = true) →
      ∀ s : Search α γ π σ, (∀ r ∈ (s.performAll problem cs).2, ∃ o, r.result = .ok o) →
        announced (s.performAll problem cs).2
          = if (s.performAll problem cs).1.annealer.hasFrozen s.annealer
            then [(s.performAll problem cs).1.annealer.estimate] else [] := by
  intro cs
  induction cs with
  | nil =>
      intro _ s _
      show [] = if s.annealer.hasFrozen s.annealer then [s.annealer.estimate] else []
      unfold Annealer.hasFrozen
      cases s.annealer.inLearningWindow <;> simp
  | cons c cs ih =>
      intro hcs s returns
      obtain ⟨hc, hcs⟩ := List.forall_mem_cons.mp hcs
      rw [performAll_cons] at returns ⊢
      have hfirst := s.perform_announced problem hc fun r hr =>
        returns r (List.mem_append_left _ (Option.mem_toList.mpr hr))
      have hrest := ih hcs _ fun r hr => returns r (List.mem_append_right _ hr)
      rw [announced_append, hfirst, hrest]
      have hscale : ((s.perform problem c).1.performAll problem cs).1.annealer.tuning.hasScale
          = (s.perform problem c).1.annealer.tuning.hasScale := by
        rw [performAll_tuning _ problem hcs]
      unfold Annealer.hasFrozen
      rw [hscale]
      -- the window is left before the first command, by it, later, or not at all
      cases hs : s.annealer.inLearningWindow with
      | false =>
          have hs' := (s.perform_outside problem hc hs).1
          simp [hs']
      | true =>
          cases hs' : (s.perform problem c).1.annealer.inLearningWindow with
          | false =>
              obtain ⟨hlast, hestimate⟩ := performAll_outside _ problem hcs hs'
              simp [hlast, hestimate]
          | true => simp

/-- **Freezing is final and announced once.**  A search that goes on with its tuning, from any
state it may be in, behaves as follows.

  * Outside the learning window it stays outside, and its estimate does not change, also in
    runs in which the problem fails.
  * With a given scale it announces nothing.
  * Without one, and if all its runs return, it announces an estimate exactly if it was inside
    the window before and is outside after, once; the run that leaves the window does so, and
    what it announces is the estimate ever after. -/
theorem history_freezing (s : Search α γ π σ) (problem : Problem α π σ μ)
    (cs : List (Command α π σ)) (hcs : ∀ c ∈ cs, c.goesOn = true) :
    let after := (s.performAll problem cs).1
    let reports := (s.performAll problem cs).2
    (s.annealer.inLearningWindow = false →
      after.annealer.inLearningWindow = false
        ∧ after.annealer.estimate = s.annealer.estimate)
    ∧ (0 < s.annealer.tuning.scale → announced reports = [])
    ∧ (¬ 0 < s.annealer.tuning.scale → (∀ r ∈ reports, ∃ o, r.result = .ok o) →
        announced reports
          = (if s.annealer.inLearningWindow && !after.annealer.inLearningWindow
              then [after.annealer.estimate] else [])
        ∧ ∀ earlier c later, cs = earlier ++ c :: later →
            let before := (s.performAll problem earlier).1
            let next := before.perform problem c
            announced next.2.toList
              = if before.annealer.inLearningWindow && !next.1.annealer.inLearningWindow
                then [after.annealer.estimate] else []) := by
  intro after reports
  have hfrozen : ∀ a b : Annealer α γ π, ¬ 0 < a.tuning.scale →
      a.hasFrozen b = (b.inLearningWindow && !a.inLearningWindow) := by
    intro a b ha
    unfold Annealer.hasFrozen Tuning.hasScale
    rw [decide_eq_false ha, Bool.not_false, Bool.and_true]
  refine ⟨s.performAll_outside problem hcs, fun hscale => ?_, fun hscale returns => ⟨?_, ?_⟩⟩
  · exact performAll_announced_of_hasScale problem hcs s (decide_eq_true hscale)
  · show announced (s.performAll problem cs).2 = _
    rw [performAll_announced problem hcs s returns,
      hfrozen _ _ (by rw [s.performAll_tuning problem hcs]; exact hscale)]
  · intro earlier c later hsplit before next
    subst hsplit
    obtain ⟨hearlier, hrest⟩ := List.forall_mem_append.mp hcs
    obtain ⟨hc, hlater⟩ := List.forall_mem_cons.mp hrest
    have hafter : after = (next.1.performAll problem later).1 := by
      show (s.performAll problem (earlier ++ c :: later)).1 = _
      rw [performAll_append, performAll_cons]
    have hreports : ∀ r ∈ next.2, ∃ o, r.result = .ok o := by
      intro r hr
      refine returns r ?_
      show r ∈ (s.performAll problem (earlier ++ c :: later)).2
      rw [performAll_append, performAll_cons]
      exact List.mem_append_right _ (List.mem_append_left _ (Option.mem_toList.mpr hr))
    have htuning : next.1.annealer.tuning = s.annealer.tuning :=
      (before.perform_tuning problem hc).trans (s.performAll_tuning problem hearlier)
    rw [before.perform_announced problem hc hreports,
      hfrozen _ _ (by rw [htuning]; exact hscale), hafter]
    -- what the command announces does not change any more
    cases hout : next.1.annealer.inLearningWindow with
    | true => simp
    | false => rw [(next.1.performAll_outside problem hlater hout).2]

end Search

/-! ## §5. A walk that leaves the window in its second run -/

namespace Walk

/-- Steps up, each of them by a cost of one. -/
def climb : Problem (Binary64 .special) Unit Int Int :=
  .ofFunctions (fun _ _ _ => ⟨(), [], .ok ⟨1, 1⟩⟩) (fun _ x step => ⟨(), [], .ok (x + step)⟩)

/-- A walk at an infinite temperature that learns up to its second iteration. -/
def climber : Search (Binary64 .special) Cycle Unit Int :=
  ⟨.create () ⟨5.0, 0, .custom fun _ _ => 1 / 0, none⟩ (.ofWords #[0, 7]) ⟨0⟩, ⟨#[false]⟩, 0⟩

/-- Two runs, a stop request, and a third run. -/
def climbs : List (Command (Binary64 .special) Unit Int) :=
  [.run none 2, .run none 2, .abort, .run none 3]

theorem climb_neverFails : climb.NeverFails Cycle where
  choose _ _ _ _ := ⟨_, rfl⟩
  apply _ _ _ := ⟨_, rfl⟩

theorem climbs_leave : climber.annealer.inLearningWindow = true
    ∧ (climber.performAll climb climbs).1.annealer.inLearningWindow = false := by
  decide +kernel

end Walk

/-- The walk announces its estimate once. -/
theorem Search.history_freezing_climb :
    (∀ c ∈ Walk.climbs, c.goesOn = true)
    ∧ ¬ 0 < Walk.climber.annealer.tuning.scale
    ∧ (∀ r ∈ (Walk.climber.performAll Walk.climb Walk.climbs).2, ∃ o, r.result = .ok o)
    ∧ announced (Walk.climber.performAll Walk.climb Walk.climbs).2
        = [(Walk.climber.performAll Walk.climb Walk.climbs).1.annealer.estimate] := by
  have hgoes : ∀ c ∈ Walk.climbs, c.goesOn = true := by decide
  have hscale : ¬ 0 < Walk.climber.annealer.tuning.scale := by decide
  have hreturns := performAll_returns Walk.climb_neverFails Walk.climbs Walk.climber
  obtain ⟨-, -, h⟩ := history_freezing Walk.climber Walk.climb Walk.climbs hgoes
  have hannounced := (h hscale hreturns).1
  rw [Walk.climbs_leave.1, Walk.climbs_leave.2] at hannounced
  exact ⟨hgoes, hscale, hreturns, hannounced⟩

end Annealing
