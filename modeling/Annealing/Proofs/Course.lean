/-
  Annealing.Proofs.Course
  ───────────────────────
  **THE COURSE OF LEARNING.**

  A search moves on with each iteration and each reset; its moments say what it
  did and where it stood then.  Where it stands is its counter and its estimate,
  and these two follow from where it stood before, the tuning in force and the
  proposed cost difference.  No decision and no word of the generator has a part
  in that.  So two searches that meet the same differences at the same numbers,
  on whatever problems and with whatever generators, learn the same, as long as
  they are tuned and reset alike; how their iterations are divided into runs
  makes no difference.

    • `Standing.course` — the moments as they follow from the marks,
    • `Passes.follows`, `performAll_follows` — a search keeps to its course,
    • `marks_of_goesOn` — one that is left alone has a mark for each iteration,
    • `history_sameLearning` — two searches on one course.
-/
import Annealing.Generator.Cycle
import Annealing.Generator.SplitMix
import Annealing.Proofs.Freezing
import Annealing.Proofs.Learning

namespace Annealing

/-! ## §1. Marks and moments -/

/-- How far a search has got: its counter and its estimate. -/
structure Standing (α : Type) where
  /-- Iterations completed since the start or the last reset. -/
  iteration : UInt64
  /-- The scale learned since then. -/
  estimate : ScaleEstimate α

/-- What moves a search on, and the tuning in force. -/
inductive Mark (α : Type) where
  /-- An iteration is completed. -/
  | iteration (tuning : Tuning α)
  /-- The search starts over. -/
  | reset (tuning : Tuning α)

/-- A moment of a search. -/
structure Moment (α : Type) where
  /-- What has just moved it on. -/
  mark : Mark α
  /-- Where it stands then. -/
  standing : Standing α
  /-- The temperature then. -/
  temperature : α

/-- The tuning in force. -/
def Mark.tuning {α : Type} : Mark α → Tuning α
  | .iteration t => t
  | .reset t => t

/-- The tuning without its seed, which plays no part once a search has started. -/
def Tuning.unseeded {α : Type} (t : Tuning α) : Tuning α :=
  { t with seed := none }

/-- Where an annealer stands. -/
def Annealer.standing {α γ π : Type} (a : Annealer α γ π) : Standing α :=
  ⟨a.iteration, a.estimate⟩

/-! ## §2. The course that marks lead to -/

namespace Standing

variable {α : Type} [Scalar α] (deltas : UInt64 → α)

/-- Where a mark leads to, if the difference at each iteration is the one that `deltas`
gives. -/
def after (s : Standing α) : Mark α → Standing α
  | .iteration t => ⟨s.iteration + 1, (t.judge s.iteration s.estimate (deltas s.iteration)).2⟩
  | .reset _ => ⟨0, .empty⟩

/-- The moments that marks lead through. -/
def course (s : Standing α) : List (Mark α) → List (Moment α)
  | [] => []
  | m :: ms =>
    let now := s.after deltas m
    ⟨m, now, m.tuning.temperature now.iteration⟩ :: now.course ms

theorem course_append (ms more : List (Mark α)) :
    ∀ s : Standing α, s.course deltas (ms ++ more)
      = s.course deltas ms ++ (ms.foldl (after deltas) s).course deltas more := by
  induction ms with
  | nil => intro s; rfl
  | cons m ms ih =>
      intro s
      exact congrArg (_ :: ·) (ih (s.after deltas m))

/-- The first marks decide on the first moments. -/
theorem take_course (k : Nat) :
    ∀ (ms : List (Mark α)) (s : Standing α),
      (s.course deltas ms).take k = s.course deltas (ms.take k) := by
  induction k with
  | zero => intro ms s; rfl
  | succ k ih =>
      intro ms s
      cases ms with
      | nil => rfl
      | cons m ms => exact congrArg (_ :: ·) (ih ms (s.after deltas m))

/-- **The moments from one standing to another follow from their marks.** -/
def Follows (s : Standing α) (moments : List (Moment α)) (s' : Standing α) : Prop :=
  moments = s.course deltas (moments.map (·.mark))
    ∧ s' = (moments.map (·.mark)).foldl (after deltas) s

variable {deltas}

theorem Follows.append {s s' s'' : Standing α} {moments more : List (Moment α)}
    (h : s.Follows deltas moments s') (k : s'.Follows deltas more s'') :
    s.Follows deltas (moments ++ more) s'' := by
  obtain ⟨hmoments, hs'⟩ := h
  obtain ⟨hmore, hs''⟩ := k
  refine ⟨?_, ?_⟩
  · rw [List.map_append, course_append, ← hs', ← hmoments, ← hmore]
  · rw [List.map_append, List.foldl_append, ← hs']
    exact hs''

/-- Moments that begin with the same marks begin alike. -/
theorem Follows.take_eq {s s₁ s₂ : Standing α} {moments moments' : List (Moment α)}
    (h : s.Follows deltas moments s₁) (h' : s.Follows deltas moments' s₂) {k : Nat}
    (same : (moments'.take k).map (·.mark) = (moments.take k).map (·.mark)) :
    moments'.take k = moments.take k := by
  rw [h.1, h'.1, take_course, take_course, ← List.map_take, ← List.map_take, same]

end Standing

/-! ## §3. The moments of a search -/

section
variable {α γ π σ μ : Type} [Scalar α] [Generator γ]

/-- The moment after an iteration. -/
def Iteration.moment (it : Iteration α γ π σ μ) : Moment α :=
  ⟨.iteration it.tuning.unseeded, it.after.annealer.standing, it.after.annealer.temperature⟩

namespace Search

/-- The moments of a command: those after its iterations, or that of the reset. -/
def momentsOf (s : Search α γ π σ) (problem : Problem α π σ μ) (c : Command α π σ) :
    List (Moment α) :=
  if c.isReset then
    let a := (s.perform problem c).1.annealer
    [⟨.reset a.tuning.unseeded, a.standing, a.temperature⟩]
  else (s.iterationsOf problem c).map (·.moment)

/-- The moments of a history, in order. -/
def moments (s : Search α γ π σ) (problem : Problem α π σ μ) :
    List (Command α π σ) → List (Moment α)
  | [] => []
  | c :: cs => s.momentsOf problem c ++ (s.perform problem c).1.moments problem cs

end Search

variable {problem : Problem α π σ μ} {deltas : UInt64 → α}

/-- **An iteration keeps to the course**, whatever it decides. -/
theorem Problem.Completes.follows {it : Iteration α γ π σ μ} (h : problem.Completes it)
    (hd : it.delta = deltas it.number) :
    it.before.annealer.standing.Follows deltas [it.moment] it.after.annealer.standing := by
  have hstanding : it.after.annealer.standing
      = it.before.annealer.standing.after deltas it.moment.mark := by
    unfold Annealer.standing
    rw [h.iteration_eq, h.estimate_eq, hd]
    rfl
  have htemperature : it.after.annealer.temperature
      = it.tuning.temperature it.after.annealer.standing.iteration := by
    unfold Annealer.temperature
    rw [h.tuning_eq]
    rfl
  refine ⟨?_, hstanding⟩
  unfold Iteration.moment
  rw [htemperature, hstanding]
  rfl

theorem Problem.Passes.follows {p q : Progress α γ π σ} {its : List (Iteration α γ π σ μ)}
    (h : problem.Passes p its q) (hd : ∀ it ∈ its, it.delta = deltas it.number) :
    p.annealer.standing.Follows deltas (its.map (·.moment)) q.annealer.standing := by
  induction h with
  | done p => exact ⟨rfl, rfl⟩
  | step first _ ih =>
      obtain ⟨hfirst, hrest⟩ := List.forall_mem_cons.mp hd
      exact (first.follows hfirst).append (ih hrest)

namespace Search

theorem perform_follows {s : Search α γ π σ} {c : Command α π σ}
    (hok : ∀ start n, c.request = some (start, n) →
      ∃ o, (s.run problem start n).2.result = .ok o)
    (hd : ∀ it ∈ s.iterationsOf problem c, it.delta = deltas it.number) :
    s.annealer.standing.Follows deltas (s.momentsOf problem c)
      (s.perform problem c).1.annealer.standing := by
  cases hreq : c.request with
  | some request =>
      obtain ⟨start, n⟩ := request
      have hc : c.isReset = false := by
        cases c <;> first | rfl | exact absurd hreq (by simp [Command.request])
      obtain ⟨q, hq, hafter⟩ := perform_passes hreq (hok start n hreq)
      unfold momentsOf
      rw [hafter, hc]
      exact hq.follows hd
  | none =>
      -- a command that neither runs nor resets has no moments and moves nothing on
      cases c with
      | run => exact absurd hreq (by simp [Command.request])
      | runBatch => exact absurd hreq (by simp [Command.request])
      | _ => exact ⟨rfl, rfl⟩

/-- **A history in which every run returns keeps to the course** that its marks lead to. -/
theorem performAll_follows {cs : List (Command α π σ)} :
    ∀ {s : Search α γ π σ}, (∀ r ∈ (s.performAll problem cs).2, ∃ o, r.result = .ok o) →
      (∀ it ∈ s.allIterations problem cs, it.delta = deltas it.number) →
      s.annealer.standing.Follows deltas (s.moments problem cs)
        (s.performAll problem cs).1.annealer.standing := by
  induction cs with
  | nil => intro s _ _; exact ⟨rfl, rfl⟩
  | cons c cs ih =>
      intro s hok hd
      obtain ⟨hrun, hrest⟩ := returns_of_performAll_cons hok
      obtain ⟨hdfirst, hdrest⟩ := List.forall_mem_append.mp hd
      exact (perform_follows hrun hdfirst).append (ih hrest hdrest)

/-- The iterations of a command are made under the tuning in force. -/
theorem tuning_of_mem_iterationsOf {s : Search α γ π σ} {c : Command α π σ}
    {it : Iteration α γ π σ μ} (h : it ∈ s.iterationsOf problem c) :
    it.tuning = s.annealer.tuning := by
  obtain ⟨start, n, -, h⟩ := mem_iterationsOf h
  obtain ⟨q, -, hq, -⟩ := s.annealer.run_passes problem s.flags (start.getD s.state) n
  obtain ⟨earlier, later, hsplit⟩ := List.append_of_mem h
  rw [hsplit] at hq
  exact hq.around.1.tuning_eq

/-- **A history without reset and setter has the same mark for each of its iterations.** -/
theorem marks_of_goesOn {cs : List (Command α π σ)} :
    ∀ {s : Search α γ π σ}, (∀ c ∈ cs, c.goesOn = true) →
      (s.moments problem cs).map (·.mark)
        = List.replicate (s.allIterations problem cs).length
            (.iteration s.annealer.tuning.unseeded) := by
  induction cs with
  | nil => intro s _; rfl
  | cons c cs ih =>
      intro s hcs
      obtain ⟨hc, hcs⟩ := List.forall_mem_cons.mp hcs
      have hreset : c.isReset = false := by cases c <;> first | rfl | cases hc
      have hfirst : (s.momentsOf problem c).map (·.mark)
          = List.replicate (s.iterationsOf problem c).length
              (.iteration s.annealer.tuning.unseeded) := by
        unfold momentsOf
        rw [hreset, if_neg Bool.false_ne_true, List.map_map, ← List.map_const']
        refine List.map_congr_left fun it hit => ?_
        exact congrArg (Mark.iteration ·.unseeded) (tuning_of_mem_iterationsOf hit)
      unfold moments allIterations
      rw [List.map_append, hfirst, ih hcs, s.perform_tuning problem hc, List.length_append,
        List.replicate_append_replicate]

end Search

end

/-! ## §4. Two searches -/

namespace Search

variable {α γ π σ μ γ' π' σ' μ' : Type} [Scalar α] [Generator γ] [Generator γ']

/-- **Learning does not depend on the draws.**  Two searches, on problems, with generators and
through histories of their own, start with the same counter and estimate; every run of theirs
returns, and their iterations propose the same difference at the same number.  Then

  * the moments of the first follow from its marks alone: its iterations and resets, and the
    tunings in force at them;
  * as far as the marks of the second are the same, it stands at each moment where the first
    does, with the same temperature;
  * if all of them are, both end with the same counter and estimate, and at the same temperature
    if they are then tuned alike;
  * in particular, two searches that are tuned alike from the start, and neither tuned again nor
    reset, go through the same moments for as many iterations as both complete. -/
theorem history_sameLearning (deltas : UInt64 → α)
    (s : Search α γ π σ) (problem : Problem α π σ μ) (cs : List (Command α π σ))
    (s' : Search α γ' π' σ') (problem' : Problem α π' σ' μ') (cs' : List (Command α π' σ'))
    (hok : ∀ r ∈ (s.performAll problem cs).2, ∃ o, r.result = .ok o)
    (hok' : ∀ r ∈ (s'.performAll problem' cs').2, ∃ o, r.result = .ok o)
    (hd : ∀ it ∈ s.allIterations problem cs, it.delta = deltas it.number)
    (hd' : ∀ it ∈ s'.allIterations problem' cs', it.delta = deltas it.number)
    (hstart : s'.annealer.standing = s.annealer.standing) :
    let moments := s.moments problem cs
    let moments' := s'.moments problem' cs'
    let after := (s.performAll problem cs).1.annealer
    let after' := (s'.performAll problem' cs').1.annealer
    moments = s.annealer.standing.course deltas (moments.map (·.mark))
    ∧ (∀ k, (moments'.take k).map (·.mark) = (moments.take k).map (·.mark) →
        moments'.take k = moments.take k)
    ∧ (moments'.map (·.mark) = moments.map (·.mark) →
        after'.iteration = after.iteration ∧ after'.estimate = after.estimate
          ∧ (after'.tuning.unseeded = after.tuning.unseeded →
              after'.temperature = after.temperature))
    ∧ ((∀ c ∈ cs, c.goesOn = true) → (∀ c ∈ cs', c.goesOn = true) →
        s'.annealer.tuning.unseeded = s.annealer.tuning.unseeded →
        ∀ k ≤ (s.allIterations problem cs).length, k ≤ (s'.allIterations problem' cs').length →
          moments'.take k = moments.take k) := by
  intro moments moments' after after'
  have hfollows : s.annealer.standing.Follows deltas moments after.standing :=
    performAll_follows hok hd
  have hfollows' : s.annealer.standing.Follows deltas moments' after'.standing :=
    hstart ▸ performAll_follows hok' hd'
  refine ⟨hfollows.1, fun k same => hfollows.take_eq hfollows' same, fun same => ?_, ?_⟩
  · have hends : after'.standing = after.standing := by
      rw [hfollows.2, hfollows'.2, same]
    have hcounter : after'.iteration = after.iteration := congrArg Standing.iteration hends
    refine ⟨hcounter, congrArg Standing.estimate hends, fun htuning => ?_⟩
    show after'.tuning.unseeded.temperature after'.iteration
      = after.tuning.unseeded.temperature after.iteration
    rw [hcounter, htuning]
  · intro hcs hcs' htuning k hk hk'
    refine hfollows.take_eq hfollows' ?_
    rw [List.map_take, List.map_take, marks_of_goesOn hcs, marks_of_goesOn hcs', htuning,
      List.take_replicate, List.take_replicate, Nat.min_eq_left hk, Nat.min_eq_left hk']

end Search

/-! ## §5. A walk and a lamp -/

/-- The problem proposes the difference that `deltas` gives for the iteration. -/
def Problem.Charges {α π σ μ : Type} (problem : Problem α π σ μ) (γ : Type) [Generator γ]
    (deltas : UInt64 → α) : Prop :=
  ∀ memory state iteration (g : γ) proposal,
    ((problem.choose memory state iteration).run g).1.result = .ok proposal →
      proposal.delta = deltas iteration

theorem Problem.Charges.delta_eq {α γ π σ μ : Type} [Scalar α] [Generator γ]
    {problem : Problem α π σ μ} {deltas : UInt64 → α} (h : problem.Charges γ deltas)
    {it : Iteration α γ π σ μ} (hc : problem.Completes it) : it.delta = deltas it.number := by
  have hanswer : (problem.propose it.before).2 = .ok it.proposal := by rw [hc.propose_eq]
  exact h _ _ _ _ _ hanswer

namespace Walk

/-- Steps up on an odd word and down on an even one, at a cost that grows with each step. -/
def toll : Problem (Binary64 .special) Unit Int Int where
  choose _ _ iteration := .draw fun w =>
    .done ⟨(), [], .ok ⟨if w % 2 = 1 then 1 else -1, Scalar.ofCount iteration⟩⟩
  apply _ x step := ⟨(), [], .ok (x + step)⟩

/-- A lamp that is switched on and off at the same cost. -/
def lamp : Problem (Binary64 .special) Unit Bool Unit :=
  .ofFunctions (fun _ _ iteration => ⟨(), [], .ok ⟨(), Scalar.ofCount iteration⟩⟩)
    (fun _ lit _ => ⟨(), [], .ok !lit⟩)

/-- A walk at an infinite temperature, from three. -/
def tolled : Search (Binary64 .special) SplitMix Unit Int :=
  ⟨.create () ⟨5.0, 0, .custom fun _ _ => 1 / 0, none⟩ ⟨1⟩ ⟨0⟩, ⟨#[false]⟩, 3⟩

/-- The lamp, tuned like the walk but for the seed. -/
def unlit : Search (Binary64 .special) Cycle Unit Bool :=
  ⟨.create () ⟨5.0, 0, .custom fun _ _ => 1 / 0, some 4⟩ (.ofWords #[0, 7]) ⟨0⟩, ⟨#[false]⟩, false⟩

theorem toll_neverFails : toll.NeverFails SplitMix where
  choose _ _ _ _ := ⟨_, rfl⟩
  apply _ _ _ := ⟨_, rfl⟩

theorem lamp_neverFails : lamp.NeverFails Cycle where
  choose _ _ _ _ := ⟨_, rfl⟩
  apply _ _ _ := ⟨_, rfl⟩

theorem toll_charges : toll.Charges SplitMix Scalar.ofCount := by
  intro memory state iteration g proposal h
  cases h
  rfl

theorem lamp_charges : lamp.Charges Cycle Scalar.ofCount := by
  intro memory state iteration g proposal h
  cases h
  rfl

/-- Five steps of the walk in one run. -/
def fiveSteps : List (Command (Binary64 .special) Unit Int) :=
  [.run none 5]

/-- Five switches of the lamp in three runs. -/
def fiveSwitches : List (Command (Binary64 .special) Unit Bool) :=
  [.run none 1, .run (some true) 3, .run none 1]

end Walk

/-- The walk and the lamp learn the same, step by step; it is the costs of their second and third
steps that they learn from. -/
theorem Search.history_sameLearning_lamp :
    (∀ r ∈ (Walk.tolled.performAll Walk.toll Walk.fiveSteps).2, ∃ o, r.result = .ok o)
    ∧ (∀ r ∈ (Walk.unlit.performAll Walk.lamp Walk.fiveSwitches).2, ∃ o, r.result = .ok o)
    ∧ (∀ it ∈ Walk.tolled.allIterations Walk.toll Walk.fiveSteps,
        it.delta = Scalar.ofCount it.number)
    ∧ (∀ it ∈ Walk.unlit.allIterations Walk.lamp Walk.fiveSwitches,
        it.delta = Scalar.ofCount it.number)
    ∧ Walk.unlit.annealer.standing = Walk.tolled.annealer.standing
    ∧ (Walk.unlit.moments Walk.lamp Walk.fiveSwitches).take 5
        = (Walk.tolled.moments Walk.toll Walk.fiveSteps).take 5
    ∧ (Walk.tolled.performAll Walk.toll Walk.fiveSteps).1.annealer.estimate.samples = 2 := by
  have hok := performAll_returns Walk.toll_neverFails Walk.fiveSteps Walk.tolled
  have hok' := performAll_returns Walk.lamp_neverFails Walk.fiveSwitches Walk.unlit
  have hd : ∀ it ∈ Walk.tolled.allIterations Walk.toll Walk.fiveSteps,
      it.delta = Scalar.ofCount it.number :=
    fun it hit => Walk.toll_charges.delta_eq (completes_of_mem_allIterations hit)
  have hd' : ∀ it ∈ Walk.unlit.allIterations Walk.lamp Walk.fiveSwitches,
      it.delta = Scalar.ofCount it.number :=
    fun it hit => Walk.lamp_charges.delta_eq (completes_of_mem_allIterations hit)
  have hlength : 5 ≤ (Walk.tolled.allIterations Walk.toll Walk.fiveSteps).length := by
    decide +kernel
  have hlength' : 5 ≤ (Walk.unlit.allIterations Walk.lamp Walk.fiveSwitches).length := by
    decide +kernel
  obtain ⟨-, -, -, hsame⟩ := history_sameLearning Scalar.ofCount Walk.tolled Walk.toll
    Walk.fiveSteps Walk.unlit Walk.lamp Walk.fiveSwitches hok hok' hd hd' rfl
  exact ⟨hok, hok', hd, hd', rfl, hsame (by decide) (by decide) rfl 5 hlength hlength',
    by decide +kernel⟩

end Annealing
