/-
  Annealing.Proofs.Learning
  ─────────────────────────
  **WHAT IS LEARNED.**

  An iteration teaches its cost difference if it is a worsening one, met while the
  search is warm, in the learning window, and without a given scale.  The
  estimate is the running mean of the scales that the differences taught since the
  last reset suggest, each taken in once, in order.  Which proposals are accepted
  plays no part.  And an acceptance test that uses the estimate uses it with the
  test's own difference already taken in.

    • `Completes.estimate_ofDeltas` — an iteration learns its lesson,
    • `HasLearned.passes` — a row of iterations learns its lessons,
    • `hasLearned_performAll` — so does a history, since its last reset.
-/
import Annealing.Generator.SplitMix
import Annealing.Proofs.History

namespace Annealing

/-! ## §1. The running mean -/

namespace ScaleEstimate

variable {α : Type} [Scalar α]

/-- The running mean of the scales that cost differences suggest: the `n`-th of them comes
in with weight `1 / n`. -/
def runningScale (deltas : List α) : α :=
  (deltas.zipIdx 1).foldl (fun scale (delta, n) =>
    -Scalar.log 0.7 / delta * (1 / Scalar.ofCount (UInt64.ofNat n))
      + scale * (1 - 1 / Scalar.ofCount (UInt64.ofNat n))) 0

/-- The estimate made of a list of cost differences. -/
def ofDeltas (deltas : List α) : ScaleEstimate α :=
  ⟨runningScale deltas, UInt64.ofNat deltas.length⟩

/-- Taking in one more difference is taking in a longer list. -/
theorem fold_ofDeltas (deltas : List α) (delta : α) :
    (ofDeltas deltas).fold delta = ofDeltas (deltas ++ [delta]) := by
  have hcount : UInt64.ofNat deltas.length + 1 = UInt64.ofNat (1 + deltas.length) := by
    rw [Nat.add_comm, UInt64.ofNat_add]
    rfl
  unfold ofDeltas runningScale fold sample targetAcceptance
  rw [List.zipIdx_append, List.foldl_append, List.length_append, List.length_singleton,
    Nat.add_comm deltas.length 1, hcount]
  rfl

end ScaleEstimate

/-! ## §2. Lessons -/

namespace Iteration

variable {α γ π σ μ : Type} [Scalar α]

/-- Is the acceptance test made with the estimate?  It is for a worsening difference, while
the search is warm and no scale is given. -/
def UsesEstimate (it : Iteration α γ π σ μ) : Prop :=
  ¬ it.delta ≤ 0 ∧ 0 < it.temperature ∧ ¬ 0 < it.tuning.scale

/-- Does the iteration fall in the learning window? -/
def InWindow (it : Iteration α γ π σ μ) : Prop :=
  Scalar.ofCount it.number ≤ 0.4 * it.tuning.budget

instance (it : Iteration α γ π σ μ) : Decidable it.UsesEstimate :=
  inferInstanceAs (Decidable (_ ∧ _ ∧ _))

instance (it : Iteration α γ π σ μ) : Decidable it.InWindow :=
  Scalar.decidableLE _ _

/-- The cost difference that the iteration teaches, if it teaches one. -/
def lesson (it : Iteration α γ π σ μ) : Option α :=
  if it.UsesEstimate ∧ it.InWindow then some it.delta else none

/-- The scale that the acceptance test of an iteration uses if it uses the estimate and
`deltas` are taught before it. -/
def estimatedScale (it : Iteration α γ π σ μ) (deltas : List α) : α :=
  if it.InWindow then ScaleEstimate.runningScale (deltas ++ [it.delta])
  else ScaleEstimate.runningScale deltas

end Iteration

/-- The cost differences that iterations teach, in order. -/
def lessons {α γ π σ μ : Type} [Scalar α] (its : List (Iteration α γ π σ μ)) : List α :=
  its.filterMap (·.lesson)

theorem lessons_concat {α γ π σ μ : Type} [Scalar α] (its : List (Iteration α γ π σ μ))
    (it : Iteration α γ π σ μ) : lessons (its ++ [it]) = lessons its ++ it.lesson.toList := by
  unfold lessons
  rw [List.filterMap_append, List.filterMap_cons]
  cases it.lesson <;> rfl

namespace Iteration

variable {α γ π σ μ : Type} [Scalar α] {it : Iteration α γ π σ μ}

/-- Without a given scale, the estimate is used after the difference is taken in, if it is
taught. -/
theorem scaleFor_of_usesEstimate (h : it.UsesEstimate) (deltas : List α) :
    it.tuning.scaleFor it.number (.ofDeltas deltas) it.delta
      = (it.estimatedScale deltas, .ofDeltas (deltas ++ it.lesson.toList)) := by
  have hgiven : it.tuning.hasScale = false := decide_eq_false h.2.2
  unfold Tuning.scaleFor
  rw [hgiven]
  by_cases hwindow : it.InWindow
  -- in the window the difference is taken in before the mean is used
  · have hin : it.tuning.inLearningWindow it.number = true := decide_eq_true hwindow
    have hlesson : it.lesson = some it.delta := if_pos ⟨h, hwindow⟩
    have hscale : it.estimatedScale deltas = ScaleEstimate.runningScale (deltas ++ [it.delta]) :=
      if_pos hwindow
    rw [hin, hlesson, hscale]
    simp only [Bool.false_eq_true, if_false, if_true, ScaleEstimate.fold_ofDeltas]
    rfl
  · have hout : it.tuning.inLearningWindow it.number = false := decide_eq_false hwindow
    have hlesson : it.lesson = none := if_neg fun h => hwindow h.2
    have hscale : it.estimatedScale deltas = ScaleEstimate.runningScale deltas :=
      if_neg hwindow
    rw [hout, hlesson, hscale, Option.toList_none, List.append_nil]
    rfl

/-- A test with the estimate is a chance, by the scale in force. -/
theorem judge_of_usesEstimate (h : it.UsesEstimate) (deltas : List α) :
    it.tuning.judge it.number (.ofDeltas deltas) it.delta
      = (.chance (Tuning.acceptance (it.estimatedScale deltas) it.delta it.temperature),
          .ofDeltas (deltas ++ it.lesson.toList)) := by
  have hscale := scaleFor_of_usesEstimate h deltas
  obtain ⟨hdelta, hwarm, -⟩ := h
  unfold Tuning.judge
  rw [if_neg hdelta]
  show (if 0 < it.temperature then _ else _) = _
  rw [if_pos hwarm, hscale]
  rfl

/-- A test without the estimate leaves it as it is. -/
theorem judge_estimate_of_not_usesEstimate (h : ¬ it.UsesEstimate) (e : ScaleEstimate α) :
    (it.tuning.judge it.number e it.delta).2 = e := by
  unfold Tuning.judge
  by_cases hdelta : it.delta ≤ 0
  · rw [if_pos hdelta]
  · rw [if_neg hdelta]
    show (if 0 < it.temperature then _ else _ : Verdict α × ScaleEstimate α).2 = e
    by_cases hwarm : 0 < it.temperature
    · rw [if_pos hwarm]
      -- only a given scale is left
      have hscale : 0 < it.tuning.scale :=
        Decidable.byContradiction fun hscale => h ⟨hdelta, hwarm, hscale⟩
      have hgiven : it.tuning.hasScale = true := decide_eq_true hscale
      unfold Tuning.scaleFor
      rw [hgiven]
      rfl
    · rw [if_neg hwarm]

end Iteration

namespace Problem

variable {α γ π σ μ : Type} [Scalar α] [Generator γ] {problem : Problem α π σ μ}

/-- **An iteration learns its own lesson and nothing else.** -/
theorem Completes.estimate_ofDeltas {it : Iteration α γ π σ μ} (h : problem.Completes it)
    {deltas : List α} (hd : it.before.annealer.estimate = .ofDeltas deltas) :
    it.after.annealer.estimate = .ofDeltas (deltas ++ it.lesson.toList) := by
  rw [h.estimate_eq, hd]
  by_cases huse : it.UsesEstimate
  · rw [Iteration.judge_of_usesEstimate huse]
  · rw [Iteration.judge_estimate_of_not_usesEstimate huse]
    unfold Iteration.lesson
    rw [if_neg fun hl => huse hl.1, Option.toList_none, List.append_nil]

/-- An acceptance test with the estimate uses it with the test's own difference taken in. -/
theorem Completes.taken_of_usesEstimate {it : Iteration α γ π σ μ} (h : problem.Completes it)
    (huse : it.UsesEstimate) {deltas : List α}
    (hd : it.before.annealer.estimate = .ofDeltas deltas) :
    it.taken = decide (Scalar.uniform (Generator.next it.asked.annealer.generator).1
      < Tuning.acceptance (it.estimatedScale deltas) it.delta it.temperature) := by
  rw [h.taken_eq, hd, Iteration.judge_of_usesEstimate huse]
  rfl

end Problem

/-! ## §3. What a search has learned -/

/-- **`a` has made these iterations since it started, and learned what they teach.**  Each of
them was made with what those before it teach. -/
structure Annealer.HasLearned {α γ π σ μ : Type} [Scalar α] [Generator γ] (a : Annealer α γ π)
    (problem : Problem α π σ μ) (its : List (Iteration α γ π σ μ)) : Prop where
  counter : a.iteration.toNat = its.length
  estimate : a.estimate = .ofDeltas (lessons its)
  each : ∀ i (hi : i < its.length), problem.Completes its[i] ∧ its[i].number.toNat = i
    ∧ its[i].before.annealer.estimate = .ofDeltas (lessons (its.take i))

namespace Annealer.HasLearned

variable {α γ π σ μ : Type} [Scalar α] [Generator γ] {problem : Problem α π σ μ}
  {a : Annealer α γ π} {its : List (Iteration α γ π σ μ)}

/-- A search that starts, or starts over, has learned nothing. -/
theorem nil (hcount : a.iteration = 0) (hestimate : a.estimate = .empty) :
    a.HasLearned problem ([] : List (Iteration α γ π σ μ)) where
  counter := by rw [hcount]; rfl
  estimate := hestimate
  each i hi := absurd hi (Nat.not_lt_zero i)

/-- **One more iteration is learned from.** -/
theorem concat {it : Iteration α γ π σ μ} (h : it.before.annealer.HasLearned problem its)
    (hc : problem.Completes it) (hlt : its.length + 1 < UInt64.size) :
    it.after.annealer.HasLearned problem (its ++ [it]) where
  counter := by
    have hcount := h.counter
    rw [hc.iteration_toNat (by omega), hcount, List.length_append, List.length_singleton]
  estimate := by
    rw [hc.estimate_ofDeltas h.estimate, lessons_concat]
  each i hi := by
    rw [List.length_append, List.length_singleton] at hi
    -- the iterations before this one are the same with it and without it
    by_cases hold : i < its.length
    · rw [List.getElem_append_left hold, List.take_append_of_le_length (Nat.le_of_lt hold)]
      exact h.each i hold
    · have hlast : i = its.length := by omega
      subst hlast
      rw [List.getElem_concat_length rfl, List.take_left]
      exact ⟨hc, h.counter, h.estimate⟩

theorem passes {p q : Progress α γ π σ} {more : List (Iteration α γ π σ μ)}
    (hp : problem.Passes p more q) :
    ∀ {its}, p.annealer.HasLearned problem its → its.length + more.length < UInt64.size →
      q.annealer.HasLearned problem (its ++ more) := by
  induction hp with
  | done p =>
      intro its h _
      rw [List.append_nil]
      exact h
  | @step it more q first rest ih =>
      intro its h hlt
      rw [List.length_cons] at hlt
      rw [← List.singleton_append, ← List.append_assoc]
      have hone : it.after.annealer.HasLearned problem (its ++ [it]) :=
        h.concat first (by omega)
      refine ih hone ?_
      rw [List.length_append, List.length_singleton]
      omega

/-- A run that returns has learned from the iterations it made. -/
theorem run (h : a.HasLearned problem its) {flags : FlagBoard} {state : σ} {n : UInt64}
    {o : Outcome α σ} (ho : (a.run problem flags state n).result = .ok o) :
    (a.run problem flags state n).annealer.HasLearned problem
      (its ++ a.iterations problem flags state n) := by
  obtain ⟨q, hq, hends, hrun, -⟩ := run_eq_conclude ho
  have hlt := a.iteration_add_allowed_lt n
  have hle := hends.length_le
  rw [h.counter] at hlt
  have hstart : (a.start flags state).annealer.HasLearned problem its := h
  rw [hrun]
  exact hstart.passes hq (by omega)

end Annealer.HasLearned

/-! ## §4. Histories -/

namespace Search

variable {α γ π σ μ : Type} [Scalar α] [Generator γ]

/-- The iterations that a command makes. -/
def iterationsOf (s : Search α γ π σ) (problem : Problem α π σ μ) (c : Command α π σ) :
    List (Iteration α γ π σ μ) :=
  match c.request with
  | some (start, n) => s.annealer.iterations problem s.flags (start.getD s.state) n
  | none => []

/-- The iterations of a history since its last reset; `seen` are those before it. -/
def sinceReset (s : Search α γ π σ) (problem : Problem α π σ μ)
    (seen : List (Iteration α γ π σ μ)) : List (Command α π σ) → List (Iteration α γ π σ μ)
  | [] => seen
  | c :: cs =>
    (s.perform problem c).1.sinceReset problem
      (if c.isReset then [] else seen ++ s.iterationsOf problem c) cs

/-- All iterations of a history. -/
def allIterations (s : Search α γ π σ) (problem : Problem α π σ μ) :
    List (Command α π σ) → List (Iteration α γ π σ μ)
  | [] => []
  | c :: cs => s.iterationsOf problem c ++ (s.perform problem c).1.allIterations problem cs

/-- Only a command that asks for a run makes iterations. -/
theorem mem_iterationsOf {s : Search α γ π σ} {problem : Problem α π σ μ} {c : Command α π σ}
    {it : Iteration α γ π σ μ} (h : it ∈ s.iterationsOf problem c) :
    ∃ start n, c.request = some (start, n)
      ∧ it ∈ s.annealer.iterations problem s.flags (start.getD s.state) n := by
  unfold iterationsOf at h
  cases hreq : c.request with
  | none =>
      rw [hreq] at h
      exact absurd h List.not_mem_nil
  | some request =>
      rw [hreq] at h
      exact ⟨request.1, request.2, rfl, h⟩

/-- Every iteration of a history is a complete one. -/
theorem completes_of_mem_allIterations {problem : Problem α π σ μ} {it : Iteration α γ π σ μ}
    {cs : List (Command α π σ)} :
    ∀ {s : Search α γ π σ}, it ∈ s.allIterations problem cs → problem.Completes it := by
  induction cs with
  | nil => intro s h; exact absurd h List.not_mem_nil
  | cons c cs ih =>
      intro s h
      rcases List.mem_append.mp h with h | h
      · obtain ⟨start, n, -, h⟩ := mem_iterationsOf h
        obtain ⟨q, -, hq, -⟩ := s.annealer.run_passes problem s.flags (start.getD s.state) n
        exact hq.completes h
      · exact ih h

/-- A command whose run returns makes its iterations and leaves the annealer where they lead. -/
theorem perform_passes {s : Search α γ π σ} {problem : Problem α π σ μ} {c : Command α π σ}
    {start : Option σ} {n : UInt64} (hreq : c.request = some (start, n))
    (hok : ∃ o, (s.run problem start n).2.result = .ok o) :
    ∃ q, problem.Passes (s.annealer.start s.flags (start.getD s.state)) (s.iterationsOf problem c) q
      ∧ (s.perform problem c).1.annealer = q.annealer := by
  obtain ⟨o, ho⟩ := hok
  have hreturns : (s.annealer.run problem s.flags (start.getD s.state) n).result = .ok o := ho
  obtain ⟨q, hq, -, hreport, -⟩ := Annealer.run_eq_conclude hreturns
  refine ⟨q, ?_, ?_⟩
  · unfold iterationsOf
    rw [hreq]
    exact hq
  · rw [perform_of_request s problem hreq]
    show (s.annealer.run problem s.flags (start.getD s.state) n).annealer = q.annealer
    rw [hreport]
    rfl

/-- A command that does not run leaves what is learned alone, unless it is a reset. -/
theorem hasLearned_perform_of_no_request {s : Search α γ π σ} {problem : Problem α π σ μ}
    {c : Command α π σ} {seen : List (Iteration α γ π σ μ)}
    (h : s.annealer.HasLearned problem seen) (hreq : c.request = none)
    (hc : c.isReset = false) : (s.perform problem c).1.annealer.HasLearned problem seen := by
  cases c with
  | run => exact absurd hreq (by simp [Command.request])
  | runBatch => exact absurd hreq (by simp [Command.request])
  | reset => exact absurd hc (by simp [Command.isReset])
  | abort => exact h
  | raise => exact h
  | setBudget => exact ⟨h.counter, h.estimate, h.each⟩
  | setScale => exact ⟨h.counter, h.estimate, h.each⟩
  | setSchedule => exact ⟨h.counter, h.estimate, h.each⟩
  | amend => exact ⟨h.counter, h.estimate, h.each⟩

/-- **A history in which every run returns has learned from its iterations since the last
reset.** -/
theorem hasLearned_performAll {problem : Problem α π σ μ} {cs : List (Command α π σ)} :
    ∀ {s : Search α γ π σ} {seen : List (Iteration α γ π σ μ)},
      s.annealer.HasLearned problem seen →
      (∀ r ∈ (s.performAll problem cs).2, ∃ o, r.result = .ok o) →
      (s.performAll problem cs).1.annealer.HasLearned problem (s.sinceReset problem seen cs) := by
  induction cs with
  | nil => intro s seen h _; exact h
  | cons c cs ih =>
      intro s seen h hok
      obtain ⟨hrun, hok⟩ := returns_of_performAll_cons hok
      rw [performAll_cons]
      unfold sinceReset
      refine ih ?_ hok
      by_cases hc : c.isReset = true
      -- a reset forgets what was seen and what was learned together
      · rw [if_pos hc]
        cases c with
        | reset => exact .nil rfl rfl
        | _ => exact absurd hc (by simp [Command.isReset])
      · rw [if_neg hc]
        rw [Bool.not_eq_true] at hc
        unfold iterationsOf
        cases hreq : c.request with
        | none =>
            rw [List.append_nil]
            exact hasLearned_perform_of_no_request h hreq hc
        | some request =>
            obtain ⟨start, n⟩ := request
            obtain ⟨o, ho⟩ := hrun start n hreq
            rw [perform_of_request s problem hreq]
            exact h.run ho

/-- **What is learned.**  In every history of a new search in which every run returns, with
the iterations since its last reset numbered from zero:

  * the estimate is the running mean over their lessons, in order, and counts them;
  * an acceptance test that uses the estimate uses the running mean over the lessons before
    it, with its own difference taken in if that is taught. -/
theorem history_estimate (problem : Problem α π σ μ) (memory : π) (tuning : Tuning α)
    (generator : γ) (abort : AbortHandle) (flags : FlagBoard) (state : σ)
    (cs : List (Command α π σ))
    (hok : ∀ r ∈ (performAll ⟨.create memory tuning generator abort, flags, state⟩ problem cs).2,
      ∃ o, r.result = .ok o) :
    let first : Search α γ π σ := ⟨.create memory tuning generator abort, flags, state⟩
    let after := (first.performAll problem cs).1.annealer
    let its := first.sinceReset problem [] cs
    after.iteration.toNat = its.length
    ∧ after.estimate.samples.toNat = (lessons its).length
    ∧ after.estimate.mean = ScaleEstimate.runningScale (lessons its)
    ∧ ∀ i (hi : i < its.length), problem.Completes its[i] ∧ its[i].number.toNat = i
      ∧ (its[i].UsesEstimate →
          its[i].taken = decide (Scalar.uniform (Generator.next its[i].asked.annealer.generator).1
            < Tuning.acceptance (its[i].estimatedScale (lessons (its.take i))) its[i].delta
                its[i].temperature)) := by
  intro first after its
  have h : after.HasLearned problem its :=
    hasLearned_performAll (s := first) (.nil rfl rfl) hok
  -- there are no more lessons than iterations, so the count of samples has not wrapped
  have hfew : (lessons its).length < UInt64.size := by
    have hle : (lessons its).length ≤ its.length := List.length_filterMap_le _ _
    have hlt : after.iteration.toNat < UInt64.size := after.iteration.toNat_lt_size
    have hcount := h.counter
    omega
  refine ⟨h.counter, ?_, ?_, ?_⟩
  · rw [h.estimate]
    exact UInt64.toNat_ofNat_of_lt' hfew
  · rw [h.estimate]
    rfl
  · intro i hi
    obtain ⟨hc, hnumber, hbefore⟩ := h.each i hi
    exact ⟨hc, hnumber, fun huse => hc.taken_of_usesEstimate huse hbefore⟩

/-- Two runs with a change of plan between them, and a third after a reset. -/
def threeRuns : List (Command Float Unit Int) :=
  [.run none 30, .setBudget 50, .run none 40, .reset, .setScale 0, .run (some 4) 5]

/-- A walk from a hundred, tuned by default. -/
def longWalk : Search Float SplitMix Unit Int :=
  ⟨.create () default ⟨1⟩ ⟨0⟩, ⟨#[false]⟩, 100⟩

/-- A walk learns over its runs. -/
theorem history_estimate_longWalk :
    (∀ r ∈ (longWalk.performAll Walk.problem threeRuns).2, ∃ o, r.result = .ok o)
      ∧ (longWalk.performAll Walk.problem threeRuns).1.annealer.estimate.samples.toNat
          = (lessons (longWalk.sinceReset Walk.problem [] threeRuns)).length
      ∧ (longWalk.performAll Walk.problem threeRuns).1.annealer.estimate.mean
          = ScaleEstimate.runningScale
              (lessons (longWalk.sinceReset Walk.problem [] threeRuns)) := by
  have hok := performAll_returns (Walk.problem_neverFails SplitMix) threeRuns longWalk
  unfold longWalk at hok ⊢
  obtain ⟨-, hsamples, hmean, -⟩ := history_estimate Walk.problem () default _ _ _ _ threeRuns hok
  exact ⟨hok, hsamples, hmean⟩

end Search

end Annealing
