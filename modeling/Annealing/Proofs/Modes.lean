/-
  Annealing.Proofs.Modes
  ──────────────────────
  **THE TWO MODES OF A SEARCH.**

  A search whose scale is positive uses it, and neither looks at its estimate nor
  changes it.  A search whose scale is not positive uses its estimate, and does
  not look at its scale beyond that.  So in either mode there is something that
  may be changed without a consequence, and whatever is changed stays changed.  A
  `Disguise` is such a change; searches go the same way in every disguise that fits
  their mode.

    • `Fits.judge` — a disguise that fits makes no difference to a judgement,
    • `iterate_disguise`, `run_disguise`, `perform_disguise` — nor to iterations,
      runs and commands,
    • `SameButScale.perform`, `SameButEstimate.perform` — the two modes,
    • `history_modes` — both, and the way back from one to the other.
-/
import Annealing.Generator.SplitMix
import Annealing.Problem.Walk
import Annealing.Proofs.Judgement
import Annealing.Proofs.Lockstep

namespace Annealing

/-! ## §1. Disguises -/

/-- **What is changed about a search**: its scale, and the mean and the number of samples of its
estimate. -/
structure Disguise (α : Type) where
  /-- The scale that is shown for a scale. -/
  scale : α → α
  /-- The mean that is shown for a mean. -/
  mean : α → α
  /-- The number of samples that is shown for a number. -/
  samples : UInt64 → UInt64

namespace Disguise

variable {α : Type}

/-- Another scale. -/
def ofScale (k : α) : Disguise α := ⟨fun _ => k, id, id⟩

/-- Another estimate. -/
def ofEstimate (e : ScaleEstimate α) : Disguise α := ⟨id, fun _ => e.mean, fun _ => e.samples⟩

/-- The estimate that is shown for an estimate. -/
def estimate (d : Disguise α) (e : ScaleEstimate α) : ScaleEstimate α :=
  ⟨d.mean e.mean, d.samples e.samples⟩

end Disguise

section
variable {α γ π σ : Type}

def Tuning.disguise (d : Disguise α) (t : Tuning α) : Tuning α :=
  { t with scale := d.scale t.scale }

def Annealer.disguise (d : Disguise α) (a : Annealer α γ π) : Annealer α γ π :=
  { a with tuning := a.tuning.disguise d, estimate := d.estimate a.estimate }

def Progress.disguise (d : Disguise α) (p : Progress α γ π σ) : Progress α γ π σ :=
  { p with annealer := p.annealer.disguise d }

def Search.disguise (d : Disguise α) (s : Search α γ π σ) : Search α γ π σ :=
  { s with annealer := s.annealer.disguise d }

/-- The mean is shown when a run has finished. -/
def Event.disguise (d : Disguise α) : Event α → Event α
  | .aborted iteration => .aborted iteration
  | .frozen estimate => .frozen estimate
  | .finished iterations accepted temperature scale stopped =>
      .finished iterations accepted temperature (d.mean scale) stopped

/-- Nothing is changed in the flags and the result. -/
def Report.disguise (d : Disguise α) (r : Report α γ π σ) : Report α γ π σ :=
  { r with annealer := r.annealer.disguise d, events := r.events.map (Event.disguise d) }

/-- Another scale shows nowhere in the log. -/
theorem Report.disguise_ofScale (r : Report α γ π σ) (k : α) :
    r.disguise (.ofScale k) = { r with annealer := r.annealer.setScale k } := by
  have hevent : Event.disguise (.ofScale k) = id := by
    funext e
    cases e <;> rfl
  unfold disguise
  rw [hevent, List.map_id]
  rfl

end

/-! ## §2. Judgements -/

section
variable {α : Type} [Scalar α]

/-- **A disguise fits a scale** that it leaves as it is, if it is positive; one that is not it may
change into another that is not, but then it leaves estimates as they are. -/
inductive Disguise.Fits (d : Disguise α) (k : α) : Prop where
  | given (positive : 0 < k) (keeps : d.scale k = k) : Fits d k
  | learned (here : ¬ 0 < k) (there : ¬ 0 < d.scale k) (keeps : ∀ e, d.estimate e = e) : Fits d k

namespace Disguise

variable {d : Disguise α}

theorem fits_ofScale {k k' : α} (h : k' = k ∨ ¬ 0 < k ∧ ¬ 0 < k') : (ofScale k').Fits k := by
  by_cases hk : 0 < k
  · exact .given hk (h.resolve_right fun hneither => hneither.1 hk)
  · refine .learned hk ?_ fun _ => rfl
    rcases h with rfl | ⟨-, hk'⟩
    · exact hk
    · exact hk'

theorem fits_ofEstimate (e : ScaleEstimate α) {k : α} (positive : 0 < k) : (ofEstimate e).Fits k :=
  .given positive rfl

namespace Fits

variable {t : Tuning α} (h : d.Fits t.scale)
include h

theorem hasScale : (t.disguise d).hasScale = t.hasScale := by
  unfold Tuning.hasScale Tuning.disguise
  cases h with
  | given _ keeps => rw [keeps]
  | learned here there => rw [decide_eq_false here, decide_eq_false there]

/-- The scale in force is that in the disguise. -/
theorem scaleFor (i : UInt64) (e : ScaleEstimate α) (delta : α) :
    (t.disguise d).scaleFor i (d.estimate e) delta
      = ((t.scaleFor i e delta).1, d.estimate (t.scaleFor i e delta).2) := by
  have hscale := h.hasScale
  have hwindow : (t.disguise d).inLearningWindow i = t.inLearningWindow i := rfl
  unfold Tuning.scaleFor
  rw [hscale, hwindow]
  cases h with
  | given positive keeps =>
      have hgiven : t.hasScale = true := decide_eq_true positive
      simp only [hgiven, if_true]
      exact congrArg (·, d.estimate e) keeps
  | learned here _ keeps =>
      have hlearned : t.hasScale = false := decide_eq_false here
      simp only [hlearned, Bool.false_eq_true, if_false, keeps]

/-- **A disguise that fits makes no difference to a judgement**, and stays on. -/
theorem judge (i : UInt64) (e : ScaleEstimate α) (delta : α) :
    (t.disguise d).judge i (d.estimate e) delta
      = ((t.judge i e delta).1, d.estimate (t.judge i e delta).2) := by
  have htemperature : (t.disguise d).temperature i = t.temperature i := rfl
  unfold Tuning.judge
  by_cases himproves : delta ≤ 0
  · simp only [if_pos himproves]
  · by_cases hwarm : 0 < t.temperature i
    · simp only [if_neg himproves, htemperature, if_pos hwarm, h.scaleFor]
    · simp only [if_neg himproves, htemperature, if_neg hwarm]

end Fits

end Disguise

end

/-! ## §3. Iterations and runs -/

/-- What a run concludes in a disguise that fits is the conclusion in disguise. -/
theorem Annealer.conclude_disguise {α γ π σ : Type} [Scalar α] {d : Disguise α}
    (a : Annealer α γ π) {p : Progress α γ π σ}
    (h : d.Fits p.annealer.tuning.scale) (aborted : Bool) :
    (a.disguise d).conclude (p.disguise d) aborted = (a.conclude p aborted).disguise d := by
  have hfrozen : (p.disguise d).annealer.hasFrozen (a.disguise d) = p.annealer.hasFrozen a := by
    show (a.inLearningWindow && !(p.annealer.tuning.disguise d).hasScale
      && !p.annealer.inLearningWindow) = _
    rw [h.hasScale]
    rfl
  -- an estimate is announced only in the mode in which a disguise keeps it
  have hannounced :
      (if p.annealer.hasFrozen a then [Event.frozen (d.estimate p.annealer.estimate)] else [])
        = if p.annealer.hasFrozen a then [Event.frozen p.annealer.estimate] else [] := by
    cases h with
    | given positive =>
        have hgiven : p.annealer.tuning.hasScale = true := decide_eq_true positive
        have hnot : p.annealer.hasFrozen a = false := by
          unfold hasFrozen
          rw [hgiven, Bool.not_true, Bool.and_false, Bool.false_and]
        simp only [hnot, Bool.false_eq_true, if_false]
    | learned _ _ keeps => rw [keeps]
  unfold conclude Report.disguise
  simp only [hfrozen, List.map_append]
  refine congrArg (fun events => Report.mk _ _ events _) ?_
  refine congrArg₂ (· ++ ·) (congrArg₂ (· ++ ·) ?_ ?_) rfl
  · cases aborted <;> rfl
  · refine hannounced.trans ?_
    cases p.annealer.hasFrozen a <;> rfl

section
variable {α γ π σ μ : Type} [Scalar α] [Generator γ] {d : Disguise α}

theorem Progress.weigh_disguise {p : Progress α γ π σ} (h : d.Fits p.annealer.tuning.scale)
    (delta : α) :
    (p.disguise d).weigh delta = ((p.weigh delta).1.disguise d, (p.weigh delta).2) := by
  have hjudge : (p.disguise d).annealer.tuning.judge (p.disguise d).annealer.iteration
      (p.disguise d).annealer.estimate delta = _ :=
    h.judge p.annealer.iteration p.annealer.estimate delta
  rw [weigh_eq, weigh_eq, hjudge]
  rfl

/-- **An iteration goes the same way in every disguise that fits**, also if the problem fails
in it. -/
theorem Problem.iterate_disguise (problem : Problem α π σ μ) {p : Progress α γ π σ}
    (h : d.Fits p.annealer.tuning.scale) :
    problem.iterate (p.disguise d)
      = ((problem.iterate p).1.disguise d, (problem.iterate p).2) := by
  have hasked : d.Fits (problem.propose p).1.annealer.tuning.scale := h
  have hpropose : problem.propose (p.disguise d)
      = ((problem.propose p).1.disguise d, (problem.propose p).2) := rfl
  have hcarry : ∀ (q : Progress α γ π σ) move, problem.carryOut (q.disguise d) move
      = ((problem.carryOut q move).1.disguise d, (problem.carryOut q move).2) := fun _ _ => rfl
  unfold iterate
  rw [hpropose]
  cases hasks : problem.propose p with
  | mk asked answer =>
      rw [hasks] at hasked
      cases answer with
      | error reason => rfl
      | ok proposal =>
          simp only [Progress.weigh_disguise hasked]
          cases asked.weigh proposal.delta with
          | mk weighed taken =>
              cases taken with
              | false => rfl
              | true =>
                  simp only [hcarry]
                  cases problem.carryOut weighed proposal.move with
                  | mk carried answer => cases answer <;> rfl

/-- **A run goes the same way in every disguise that fits.** -/
theorem Annealer.run_disguise {a : Annealer α γ π} (h : d.Fits a.tuning.scale)
    (problem : Problem α π σ μ) (flags : FlagBoard) (state : σ) (n : UInt64) :
    (a.disguise d).run problem flags state n = (a.run problem flags state n).disguise d := by
  refine run_related (C := fun _ => True) (Q := fun r r' => r' = r.disguise d)
    (R := fun p p' => d.Fits p.annealer.tuning.scale ∧ p' = p.disguise d) ?_ ?_ rfl
    (fun _ _ => trivial) ⟨h, rfl⟩ ?_ ?_
  · rintro p p' ⟨-, rfl⟩
    rfl
  · rintro p p' - ⟨hp, rfl⟩
    rw [problem.iterate_disguise hp]
    refine ⟨⟨?_, rfl⟩, rfl⟩
    rw [problem.iterate_tuning]
    exact hp
  · rintro p p' aborted ⟨hp, rfl⟩
    exact a.conclude_disguise hp aborted
  · rintro p p' reason ⟨-, rfl⟩ -
    rfl

end

/-! ## §4. Commands -/

/-- Does the command leave the scale alone, and not start over? -/
def Command.keepsMode {α π σ : Type} : Command α π σ → Bool
  | .reset => false
  | .setScale _ => false
  | _ => true

namespace Search

variable {α γ π σ μ : Type} [Scalar α] [Generator γ] {s : Search α γ π σ} {d : Disguise α}
  {problem : Problem α π σ μ} {c : Command α π σ}

theorem run_disguise (h : d.Fits s.annealer.tuning.scale) (start : Option σ) (n : UInt64) :
    (s.disguise d).run problem start n
      = ((s.run problem start n).1.disguise d, (s.run problem start n).2.disguise d) := by
  have hrun : (s.disguise d).annealer.run problem (s.disguise d).flags
      (start.getD (s.disguise d).state) n = _ :=
    Annealer.run_disguise h problem s.flags (start.getD s.state) n
  unfold run
  rw [hrun]
  rfl

/-- **A command goes the same way in every disguise that fits**, unless it sets the scale or
starts over. -/
theorem perform_disguise (h : d.Fits s.annealer.tuning.scale) (hc : c.keepsMode = true) :
    (s.disguise d).perform problem c
      = ((s.perform problem c).1.disguise d,
          (s.perform problem c).2.map (Report.disguise d)) := by
  have hrun : ∀ (start : Option σ) (n : UInt64),
      (((s.disguise d).run problem start n).1, some ((s.disguise d).run problem start n).2)
        = ((s.run problem start n).1.disguise d,
            (some (s.run problem start n).2).map (Report.disguise d)) := by
    intro start n
    rw [run_disguise h]
    rfl
  cases c with
  | run start n => exact hrun start n
  | runBatch start => exact hrun start Annealer.batchSize
  | reset => cases hc
  | setScale _ => cases hc
  | _ => rfl

theorem perform_scale (s : Search α γ π σ) (problem : Problem α π σ μ) (hc : c.keepsMode = true) :
    (s.perform problem c).1.annealer.tuning.scale = s.annealer.tuning.scale := by
  cases c with
  | run start n => exact congrArg (·.scale) (s.annealer.run_tuning problem s.flags _ n)
  | runBatch start =>
      exact congrArg (·.scale) (s.annealer.run_tuning problem s.flags _ Annealer.batchSize)
  | setScale _ => cases hc
  | _ => rfl

end Search

/-! ## §5. The mode that learns -/

/-- Two searches that differ in their scales at most, and then neither is positive. -/
def Search.SameButScale {α γ π σ : Type} [Scalar α] (s s' : Search α γ π σ) : Prop :=
  ∃ k, (k = s.annealer.tuning.scale ∨ ¬ 0 < s.annealer.tuning.scale ∧ ¬ 0 < k)
    ∧ s' = { s with annealer := s.annealer.setScale k }

/-- Two reports that differ in the scale of the annealer at most. -/
def Report.SameButScale {α γ π σ : Type} (r r' : Report α γ π σ) : Prop :=
  ∃ k, r' = { r with annealer := r.annealer.setScale k }

/-- The same command, or two that unset the scale. -/
inductive Command.SameMode {α π σ : Type} [Scalar α] : Command α π σ → Command α π σ → Prop where
  | same (c : Command α π σ) : SameMode c c
  | unset {k k' : α} (unset : ¬ 0 < k) (unset' : ¬ 0 < k') :
      SameMode (.setScale k) (.setScale k')

/-- Two searches that differ in their estimates at most, and have a positive scale. -/
def Search.SameButEstimate {α γ π σ : Type} [Scalar α] (s s' : Search α γ π σ) : Prop :=
  0 < s.annealer.tuning.scale ∧ ∃ e, s' = { s with annealer.estimate := e }

/-- Two reports that differ in the estimate of the annealer at most, and in its mean where the
log shows it. -/
def Report.SameButEstimate {α γ π σ : Type} (r r' : Report α γ π σ) : Prop :=
  ∃ e, r' = r.disguise (.ofEstimate e)

/-- Does the command leave a positive scale positive? -/
def Command.keepsGiven {α π σ : Type} [Scalar α] : Command α π σ → Bool
  | .setScale k => decide (0 < k)
  | _ => true

namespace Search

variable {α γ π σ μ : Type} [Scalar α] [Generator γ] {s s' : Search α γ π σ}
  {problem : Problem α π σ μ} {c c' : Command α π σ}

/-- A command that neither sets the scale nor starts over. -/
theorem SameButScale.perform_of_keepsMode (h : s.SameButScale s') (hc : c.keepsMode = true) :
    (s.perform problem c).1.SameButScale (s'.perform problem c).1
      ∧ List.Forall₂ Report.SameButScale (s.perform problem c).2.toList
          (s'.perform problem c).2.toList := by
  obtain ⟨k, hk, rfl⟩ := h
  have hperform : Search.perform { s with annealer := s.annealer.setScale k } problem c = _ :=
    perform_disguise (Disguise.fits_ofScale hk) hc
  rw [hperform]
  refine ⟨⟨k, ?_, rfl⟩, ?_⟩
  · rw [s.perform_scale problem hc]
    exact hk
  · cases (s.perform problem c).2 with
    | none => exact .nil
    | some r => exact .cons ⟨k, r.disguise_ofScale k⟩ .nil

/-- **In the mode that learns the scale makes no difference.** -/
theorem SameButScale.perform (h : s.SameButScale s') (hc : c.SameMode c') :
    (s.perform problem c).1.SameButScale (s'.perform problem c').1
      ∧ List.Forall₂ Report.SameButScale (s.perform problem c).2.toList
          (s'.perform problem c').2.toList := by
  cases hc with
  | unset unset unset' =>
      obtain ⟨k, -, rfl⟩ := h
      exact ⟨⟨_, .inr ⟨unset, unset'⟩, rfl⟩, .nil⟩
  | same =>
      cases c with
      | reset =>
          obtain ⟨k, hk, rfl⟩ := h
          exact ⟨⟨k, hk, rfl⟩, .nil⟩
      | setScale x =>
          obtain ⟨k, -, rfl⟩ := h
          exact ⟨⟨x, .inl rfl, rfl⟩, .nil⟩
      | _ => exact h.perform_of_keepsMode rfl

/-! ## §6. The mode that does not learn -/

/-- A command that neither sets the scale nor starts over. -/
theorem SameButEstimate.perform_of_keepsMode (h : s.SameButEstimate s')
    (hc : c.keepsMode = true) :
    (s.perform problem c).1.SameButEstimate (s'.perform problem c).1
      ∧ List.Forall₂ Report.SameButEstimate (s.perform problem c).2.toList
          (s'.perform problem c).2.toList := by
  obtain ⟨hpositive, e, rfl⟩ := h
  have hperform : Search.perform { s with annealer.estimate := e } problem c = _ :=
    perform_disguise (Disguise.fits_ofEstimate e hpositive) hc
  rw [hperform]
  refine ⟨⟨?_, e, rfl⟩, ?_⟩
  · rw [s.perform_scale problem hc]
    exact hpositive
  · cases (s.perform problem c).2 with
    | none => exact .nil
    | some r => exact .cons ⟨e, rfl⟩ .nil

/-- **With a positive scale the estimate makes no difference.** -/
theorem SameButEstimate.perform (h : s.SameButEstimate s') (hc : c.keepsGiven = true) :
    (s.perform problem c).1.SameButEstimate (s'.perform problem c).1
      ∧ List.Forall₂ Report.SameButEstimate (s.perform problem c).2.toList
          (s'.perform problem c).2.toList := by
  cases c with
  | reset =>
      obtain ⟨hpositive, e, rfl⟩ := h
      exact ⟨⟨hpositive, .empty, rfl⟩, .nil⟩
  | setScale x =>
      obtain ⟨-, e, rfl⟩ := h
      exact ⟨⟨of_decide_eq_true hc, e, rfl⟩, .nil⟩
  | _ => exact h.perform_of_keepsMode rfl

/-- **With a positive scale only a reset changes the estimate.** -/
theorem perform_of_given (problem : Problem α π σ μ) (positive : 0 < s.annealer.tuning.scale)
    (hc : c.keepsGiven = true) (hreset : c.isReset = false) :
    0 < (s.perform problem c).1.annealer.tuning.scale
      ∧ (s.perform problem c).1.annealer.estimate = s.annealer.estimate := by
  -- the search is itself in the disguise of its own estimate, and so is what becomes of it
  have hkeeps : c.keepsMode = true →
      0 < (s.perform problem c).1.annealer.tuning.scale
        ∧ (s.perform problem c).1.annealer.estimate = s.annealer.estimate := by
    intro hmode
    have hperform : s.perform problem c = _ :=
      perform_disguise (Disguise.fits_ofEstimate s.annealer.estimate positive) hmode
    refine ⟨?_, congrArg (·.1.annealer.estimate) hperform⟩
    rw [s.perform_scale problem hmode]
    exact positive
  cases c with
  | reset => cases hreset
  | setScale x => exact ⟨of_decide_eq_true hc, rfl⟩
  | _ => exact hkeeps rfl

theorem performAll_of_given (problem : Problem α π σ μ) {cs : List (Command α π σ)}
    (positive : 0 < s.annealer.tuning.scale)
    (hcs : ∀ c ∈ cs, c.keepsGiven = true ∧ c.isReset = false) :
    0 < (s.performAll problem cs).1.annealer.tuning.scale
      ∧ (s.performAll problem cs).1.annealer.estimate = s.annealer.estimate := by
  refine performAll_invariant (J := fun s' => 0 < s'.annealer.tuning.scale
    ∧ s'.annealer.estimate = s.annealer.estimate) ?_ ⟨positive, rfl⟩
  intro s' c hc ⟨hpositive, hestimate⟩
  obtain ⟨hthen, hsame⟩ := s'.perform_of_given problem hpositive (hcs c hc).1 (hcs c hc).2
  exact ⟨hthen, hsame.trans hestimate⟩

/-! ## §7. Histories -/

/-- **The two modes of a search.**  In a history, runs in which the problem fails included,

  * two searches that differ in their scales, neither of which is positive, go the same way: their
    runs return and log the same, and leave the same memory, counter, estimate, generator and
    flags;
  * two searches with the same positive scale that differ in their estimates go the same way and
    log the same, but for the mean that is shown when a run has finished; until a reset each keeps
    the estimate it has;
  * to set a positive scale and later any other, with runs but no reset between, leaves the
    estimate as it was before. -/
theorem history_modes (s : Search α γ π σ) (problem : Problem α π σ μ)
    (cs : List (Command α π σ)) :
    (∀ k cs', ¬ 0 < s.annealer.tuning.scale → ¬ 0 < k → List.Forall₂ Command.SameMode cs cs' →
      let s' := { s with annealer := s.annealer.setScale k }
      (s.performAll problem cs).1.SameButScale (s'.performAll problem cs').1
        ∧ List.Forall₂ Report.SameButScale (s.performAll problem cs).2
            (s'.performAll problem cs').2)
    ∧ (∀ e, 0 < s.annealer.tuning.scale → (∀ c ∈ cs, c.keepsGiven = true) →
        let s' := { s with annealer.estimate := e }
        (s.performAll problem cs).1.SameButEstimate (s'.performAll problem cs).1
          ∧ List.Forall₂ Report.SameButEstimate (s.performAll problem cs).2
              (s'.performAll problem cs).2
          ∧ ((∀ c ∈ cs, c.isReset = false) →
            (s.performAll problem cs).1.annealer.estimate = s.annealer.estimate
              ∧ (s'.performAll problem cs).1.annealer.estimate = e))
    ∧ ∀ k k', 0 < k → (∀ c ∈ cs, c.keepsGiven = true ∧ c.isReset = false) →
        (s.performAll problem (.setScale k :: cs ++ [.setScale k'])).1.annealer.estimate
          = s.annealer.estimate := by
  refine ⟨fun k cs' hunset hunset' calls => ?_, fun e hpositive hcs => ?_, fun k k' hk hcs => ?_⟩
  · exact performAll_related (S := SameButScale) (C := fun _ => True) (Q := Report.SameButScale)
      (fun _ h hc => h.perform hc) (.of_forall₂ calls s _) (fun _ _ => trivial)
      ⟨k, .inr ⟨hunset, hunset'⟩, rfl⟩
  · intro s'
    have hsame : List.Forall₂ (fun c c' : Command α π σ => c = c' ∧ c'.keepsGiven = true) cs cs :=
      List.forall₂_same.mpr fun c hc => ⟨rfl, hcs c hc⟩
    have hstart : s.SameButEstimate s' := ⟨hpositive, e, rfl⟩
    obtain ⟨hthen, hreports⟩ := performAll_related (S := SameButEstimate) (C := fun _ => True)
      (Q := Report.SameButEstimate) (fun _ h hc => hc.1.symm ▸ h.perform hc.2)
      (Parallel.of_forall₂ hsame s s' : Parallel problem problem _ s s' cs cs)
      (fun _ _ => trivial) hstart
    refine ⟨hthen, hreports, fun hreset => ?_⟩
    have hkeeps : ∀ c ∈ cs, c.keepsGiven = true ∧ c.isReset = false :=
      fun c hc => ⟨hcs c hc, hreset c hc⟩
    exact ⟨(performAll_of_given problem hpositive hkeeps).2,
      (performAll_of_given (s := s') problem hpositive hkeeps).2⟩
  · have hgiven := performAll_of_given (s := { s with annealer := s.annealer.setScale k }) problem
      hk hcs
    rw [performAll_append]
    exact hgiven.2

/-- A walk whose flag is lowered, with this scale and estimate. -/
def scaledWalk (k : Float) (e : ScaleEstimate Float) : Search Float SplitMix Unit Int where
  annealer := { Annealer.create () ⟨20, k, .exponential, none⟩ ⟨1⟩ ⟨0⟩ with estimate := e }
  flags := ⟨#[false]⟩
  state := 3

/-- A run, a batch with another budget, and a run after a reset. -/
def rebudgetedRuns : List (Command Float Unit Int) :=
  [.run none 7, .setBudget 500, .runBatch (some 4), .reset, .run none 3]

/-- A walk learns the same whether its scale is minus one or NaN; with scale two it goes the same
way from a mean of NaN and of infinity; and a run between, with scale two, leaves the estimate as
it was. -/
theorem history_modes_scaledWalk :
    List.Forall₂ Report.SameButScale
        ((scaledWalk (-1) .empty).performAll Walk.problem rebudgetedRuns).2
        ((scaledWalk (0 / 0) .empty).performAll Walk.problem rebudgetedRuns).2
    ∧ List.Forall₂ Report.SameButEstimate
        ((scaledWalk 2 ⟨0 / 0, 7⟩).performAll Walk.problem rebudgetedRuns).2
        ((scaledWalk 2 ⟨1 / 0, 9⟩).performAll Walk.problem rebudgetedRuns).2
    ∧ ((scaledWalk 2 ⟨1 / 0, 9⟩).performAll Walk.problem [.runBatch none]).1.annealer.estimate
        = ⟨1 / 0, 9⟩
    ∧ ((scaledWalk 0 ⟨0.25, 9⟩).performAll Walk.problem
          [.setScale 2, .run none 7, .setScale 0]).1.annealer.estimate = ⟨0.25, 9⟩ := by
  refine ⟨?_, ?_, ?_, ?_⟩
  · exact ((history_modes (scaledWalk (-1) .empty) Walk.problem rebudgetedRuns).1 (0 / 0) _
      (by decide +kernel) (by decide +kernel) (List.forall₂_same.mpr fun c _ => .same c)).2
  · exact ((history_modes (scaledWalk 2 ⟨0 / 0, 7⟩) Walk.problem rebudgetedRuns).2.1 ⟨1 / 0, 9⟩
      (by decide +kernel) (by decide +kernel)).2.1
  · exact (((history_modes (scaledWalk 2 ⟨1 / 0, 9⟩) Walk.problem [.runBatch none]).2.1 .empty
      (by decide +kernel) (by decide +kernel)).2.2 (by decide +kernel)).1
  · exact (history_modes (scaledWalk 0 ⟨0.25, 9⟩) Walk.problem [.run none 7]).2.2 2 0
      (by decide +kernel) (by decide +kernel)

end Search

end Annealing
