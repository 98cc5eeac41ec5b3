/-
  Annealing.Proofs.Words
  ──────────────────────
  **WHERE THE WORDS OF THE GENERATOR GO.**

  The problem and the acceptance test draw from one generator.  Each iteration
  takes the words that its proposal draws, then one more if its move is left to
  chance, and no other.  `Generator.after n` is a position in the sequence of
  words, and `Problem.Spends` leads from one position to another through a list of
  iterations; positions add up, so what a history takes is a sum over its
  iterations, in which neither scales nor decisions nor the lengths of runs occur.

    • `run_generator` — a computation takes as many words as it counts,
    • `judge_settle_generator` — a judgement takes one word or none,
    • `Passes.spends`, `performAll_spends` — what iterations and histories take.
-/
import Mathlib
import Annealing.Generator.Counted
import Annealing.Generator.SplitMix
import Annealing.Proofs.Judgement
import Annealing.Proofs.Learning

namespace Annealing

/-! ## §1. Positions -/

namespace Generator

variable {γ : Type} [Generator γ]

/-- The generator after `n` words. -/
def after : Nat → γ → γ
  | 0, g => g
  | n + 1, g => after n (next g).2

theorem after_add (m n : Nat) : ∀ g : γ, after (m + n) g = after n (after m g) := by
  induction m with
  | zero => intro g; rw [Nat.zero_add]; rfl
  | succ m ih =>
      intro g
      rw [Nat.add_right_comm]
      exact ih (next g).2

/-- What grows by one with each word counts the words. -/
theorem measure_after {measure : γ → Nat} (grows : ∀ g, measure (next g).2 = measure g + 1)
    (n : Nat) : ∀ g : γ, measure (after n g) = measure g + n := by
  induction n with
  | zero => intro g; rfl
  | succ n ih =>
      intro g
      show measure (after n (next g).2) = _
      rw [ih, grows]
      omega

end Generator

/-- How many words a computation takes from a generator. -/
def Draws.count {β γ : Type} [Generator γ] : Draws β → γ → Nat
  | .done _, _ => 0
  | .draw k, g => (k (Generator.next g).1).count (Generator.next g).2 + 1

theorem Draws.run_generator {β γ : Type} [Generator γ] :
    ∀ (d : Draws β) (g : γ), (d.run g).2 = Generator.after (d.count g) g
  | .done _, _ => rfl
  | .draw k, g => run_generator (k (Generator.next g).1) (Generator.next g).2

/-! ## §2. One iteration -/

namespace Iteration

variable {α γ π σ μ : Type} [Scalar α]

/-- How many words the problem draws for the proposal. -/
def proposalWords [Generator γ] (it : Iteration α γ π σ μ) (problem : Problem α π σ μ) : Nat :=
  (problem.choose it.before.annealer.memory it.before.state it.number).count
    it.before.annealer.generator

/-- Is the move left to chance?  It is if it worsens the cost and the temperature is
positive. -/
def LeftToChance (it : Iteration α γ π σ μ) : Prop :=
  ¬ it.delta ≤ 0 ∧ 0 < it.temperature

instance (it : Iteration α γ π σ μ) : Decidable it.LeftToChance :=
  inferInstanceAs (Decidable (_ ∧ _))

end Iteration

section
variable {α γ π σ μ : Type} [Scalar α] [Generator γ]

/-- **A judgement takes one word if it leaves the move to chance, and none otherwise**,
whatever the scale and the estimate. -/
theorem Tuning.judge_settle_generator (t : Tuning α) (i : UInt64) (e : ScaleEstimate α)
    (delta : α) (g : γ) :
    ((t.judge i e delta).1.settle g).2
      = Generator.after (if ¬ delta ≤ 0 ∧ 0 < t.temperature i then 1 else 0) g := by
  have h := t.judge_judges i e delta
  generalize (t.judge i e delta).1 = verdict at h ⊢
  generalize (t.judge i e delta).2 = e' at h
  cases h with
  | improving improves => rw [if_neg fun chance => chance.1 improves]; rfl
  | cold worsens cold => rw [if_neg fun chance => cold chance.2]; rfl
  | given worsens warm _ => rw [if_pos ⟨worsens, warm⟩]; rfl
  | learning worsens warm _ _ => rw [if_pos ⟨worsens, warm⟩]; rfl
  | frozen worsens warm _ _ => rw [if_pos ⟨worsens, warm⟩]; rfl

namespace Problem

variable {problem : Problem α π σ μ} {it : Iteration α γ π σ μ}

/-- Proposing takes the problem's own words. -/
theorem Completes.asked_generator (h : problem.Completes it) :
    it.asked.annealer.generator
      = Generator.after (it.proposalWords problem) it.before.annealer.generator := by
  rw [h.asked_eq]
  exact Draws.run_generator _ _

/-- Deciding takes one word more if the move is left to chance, and applying it takes none. -/
theorem Completes.after_generator (h : problem.Completes it) :
    it.after.annealer.generator
      = Generator.after (if it.LeftToChance then 1 else 0) it.asked.annealer.generator := by
  obtain ⟨r, hr, -, hgenerator⟩ := h.weigh_eq
  have hweighed : r = (it.asked.weigh it.delta).1 := by rw [hr]
  rw [hgenerator, hweighed, h.asked_eq]
  exact Tuning.judge_settle_generator it.tuning it.number it.before.annealer.estimate it.delta _

/-! ## §3. Many iterations -/

/-- **The words of a list of iterations.**  From the first position to the second, each
iteration takes the words of its proposal, and then one word if its move is left to chance. -/
inductive Spends (problem : Problem α π σ μ) : γ → List (Iteration α γ π σ μ) → γ → Prop where
  /-- No iteration takes no word. -/
  | nil (g : γ) : Spends problem g [] g
  /-- One iteration, then the others. -/
  | cons {it : Iteration α γ π σ μ} {its : List (Iteration α γ π σ μ)} {g : γ}
      (proposes : it.asked.annealer.generator
        = Generator.after (it.proposalWords problem) it.before.annealer.generator)
      (decides : it.after.annealer.generator
        = Generator.after (if it.LeftToChance then 1 else 0) it.asked.annealer.generator)
      (rest : Spends problem it.after.annealer.generator its g) :
      Spends problem it.before.annealer.generator (it :: its) g

namespace Spends

variable {g g' g'' : γ} {its more : List (Iteration α γ π σ μ)}

theorem append (h : problem.Spends g its g') (k : problem.Spends g' more g'') :
    problem.Spends g (its ++ more) g'' := by
  induction h with
  | nil g => exact k
  | cons proposes decides _ ih => exact .cons proposes decides (ih k)

/-- **What iterations take adds up.** -/
theorem eq_after (h : problem.Spends g its g') :
    g' = Generator.after
      ((its.map (·.proposalWords problem)).sum + its.countP (·.LeftToChance)) g := by
  induction h with
  | nil g => rfl
  | @cons it its g proposes decides _ ih =>
      rw [ih, decides, proposes, ← Generator.after_add, ← Generator.after_add, List.map_cons,
        List.sum_cons, List.countP_cons]
      congr 1
      by_cases hchance : it.LeftToChance
      · rw [if_pos hchance, if_pos (decide_eq_true hchance)]
        omega
      · rw [if_neg hchance, if_neg (by simpa using hchance)]
        omega

end Spends

/-- Iterations that follow each other hand on the generator. -/
theorem Passes.spends {p q : Progress α γ π σ} {its : List (Iteration α γ π σ μ)}
    (h : problem.Passes p its q) :
    problem.Spends p.annealer.generator its q.annealer.generator := by
  induction h with
  | done p => exact .nil _
  | step first _ ih => exact .cons first.asked_generator first.after_generator ih

end Problem

/-! ## §4. Histories -/

namespace Search

/-- Only runs take words. -/
theorem perform_generator_of_no_request (s : Search α γ π σ) (problem : Problem α π σ μ)
    {c : Command α π σ} (h : c.request = none) :
    (s.perform problem c).1.annealer.generator = s.annealer.generator := by
  cases c <;> simp only [Command.request, reduceCtorEq] at h <;> rfl

/-- **A history in which every run returns hands the generator from iteration to
iteration.** -/
theorem performAll_spends {problem : Problem α π σ μ} {cs : List (Command α π σ)} :
    ∀ {s : Search α γ π σ}, (∀ r ∈ (s.performAll problem cs).2, ∃ o, r.result = .ok o) →
      problem.Spends s.annealer.generator (s.allIterations problem cs)
        (s.performAll problem cs).1.annealer.generator := by
  induction cs with
  | nil => intro s _; exact .nil _
  | cons c cs ih =>
      intro s hok
      obtain ⟨hrun, hok⟩ := returns_of_performAll_cons hok
      rw [performAll_cons]
      refine Problem.Spends.append ?_ (ih hok)
      cases hreq : c.request with
      | none =>
          rw [perform_generator_of_no_request s problem hreq]
          unfold iterationsOf
          rw [hreq]
          exact .nil _
      | some request =>
          obtain ⟨start, n⟩ := request
          obtain ⟨q, hq, hafter⟩ := perform_passes hreq (hrun start n hreq)
          rw [hafter]
          exact hq.spends

/-- **Where the words go.**  In every history in which every run returns,

  * the generator is handed from iteration to iteration, and each takes the words of its
    proposal, then one word if its move worsens the cost at a positive temperature, and none
    otherwise;
  * so the whole history takes the words of all proposals and one for each move left to
    chance, and anything that counts words counts these;
  * a problem made of functions takes none of them. -/
theorem history_words (s : Search α γ π σ) (problem : Problem α π σ μ) (cs : List (Command α π σ))
    (hok : ∀ r ∈ (s.performAll problem cs).2, ∃ o, r.result = .ok o) :
    let its := s.allIterations problem cs
    let after := (s.performAll problem cs).1.annealer.generator
    let proposals := (its.map (·.proposalWords problem)).sum
    let chances := its.countP (·.LeftToChance)
    problem.Spends s.annealer.generator its after
    ∧ after = Generator.after (proposals + chances) s.annealer.generator
    ∧ (∀ measure : γ → Nat, (∀ g, measure (Generator.next g).2 = measure g + 1) →
        measure after = measure s.annealer.generator + (proposals + chances))
    ∧ ∀ choose apply, problem = .ofFunctions choose apply → proposals = 0 := by
  intro its after proposals chances
  have hspends : problem.Spends s.annealer.generator its after := performAll_spends hok
  have hafter := hspends.eq_after
  refine ⟨hspends, hafter, fun measure grows => ?_, ?_⟩
  · rw [hafter]
    exact Generator.measure_after grows _ _
  · rintro choose apply rfl
    refine List.sum_eq_zero fun n hn => ?_
    obtain ⟨it, -, rfl⟩ := List.mem_map.mp hn
    rfl

/-- A walk that draws its steps from a generator that counts its words. -/
def countedWalk : Search Float (Counted SplitMix) Unit Int :=
  ⟨.create () default (.start ⟨1⟩) ⟨0⟩, ⟨#[false]⟩, 3⟩

/-- A run, a reset, and a run at another scale. -/
def twoScales : List (Command Float Unit Int) :=
  [.run none 20, .reset, .setScale 2, .runBatch none]

/-- The count is one word for each step, and one for each step left to chance. -/
theorem history_words_countedWalk :
    (∀ r ∈ (countedWalk.performAll Walk.problem twoScales).2, ∃ o, r.result = .ok o)
    ∧ (countedWalk.performAll Walk.problem twoScales).1.annealer.generator.drawn
        = (countedWalk.allIterations Walk.problem twoScales).length
          + (countedWalk.allIterations Walk.problem twoScales).countP (·.LeftToChance) := by
  have hok := performAll_returns (Walk.problem_neverFails _) twoScales countedWalk
  obtain ⟨-, -, hcounts, -⟩ := history_words countedWalk Walk.problem twoScales hok
  have hone : ∀ it : Iteration Float (Counted SplitMix) Unit Int Int,
      it.proposalWords Walk.problem = 1 := fun _ => rfl
  refine ⟨hok, (hcounts (·.drawn) fun _ => rfl).trans ?_⟩
  simp only [hone, List.map_const', List.sum_replicate, smul_eq_mul, mul_one]
  exact Nat.zero_add _

end Search

end

end Annealing
