/-
  Annealing.Proofs.Lockstep
  ─────────────────────────
  **TWO SEARCHES IN LOCKSTEP.**

  Two searches, on problems that need not have anything in common, are compared
  iteration by iteration.  A relation between their points that every iteration
  preserves, failed ones too, is preserved by runs and histories.  What an
  iteration needs for that may be required of the points at which the searches
  begin one, their `attempts`, taken side by side or of the first search alone.

    • `advance_invariant` — what iterations that begin at attempts preserve,
    • `advance_paired`, `run_paired`, `performAll_paired` — the same of two loops,
      runs and histories, by what holds of their attempts side by side,
    • `run_related`, `performAll_related` — of two runs and of two histories, by
      what holds of the first one's.
-/
import Mathlib.Data.List.Forall2
import Annealing.Proofs.Learning

namespace Annealing

/-! ## §1. Attempts -/

namespace Problem

variable {α γ π σ μ : Type} [Scalar α] [Generator γ] {problem : Problem α π σ μ}

/-- The points at which the loop of a run begins an iteration, in order.  The problem may
fail in the last of them. -/
def attempts (problem : Problem α π σ μ) : Nat → Progress α γ π σ → List (Progress α γ π σ)
  | 0, _ => []
  | n + 1, p =>
    p :: match problem.iterate p with
      | (_, some _) => []
      | (q, none) => if q.isAborted then [] else attempts problem n q

theorem mem_attempts_self (n : Nat) (p : Progress α γ π σ) : p ∈ problem.attempts (n + 1) p :=
  List.mem_cons_self

/-- After an iteration that leaves the flag lowered, the loop goes on with its attempts. -/
theorem attempts_subset {n : Nat} {p q : Progress α γ π σ}
    (h : problem.iterate p = (q, none)) (lowered : q.isAborted = false) :
    problem.attempts n q ⊆ problem.attempts (n + 1) p := by
  intro x hx
  unfold attempts
  rw [h]
  simp only [lowered, Bool.false_eq_true, if_false]
  exact List.mem_cons_of_mem _ hx

/-- Every iteration that is completed was begun. -/
theorem before_mem_attempts {it : Iteration α γ π σ μ} (n : Nat) :
    ∀ {p : Progress α γ π σ}, it ∈ problem.trace n p → it.before ∈ problem.attempts n p := by
  induction n with
  | zero => intro p h; exact absurd h List.not_mem_nil
  | succ n ih =>
      intro p h
      unfold trace at h
      cases ho : problem.observe p with
      | none =>
          rw [ho] at h
          exact absurd h List.not_mem_nil
      | some first =>
          rw [ho] at h
          obtain ⟨hc, rfl⟩ := observe_eq_some_iff.mp ho
          rcases List.mem_cons.mp h with rfl | h
          · exact mem_attempts_self n _
          · cases hab : first.after.isAborted with
            | true =>
                rw [hab, if_pos rfl] at h
                exact absurd h List.not_mem_nil
            | false =>
                rw [hab, if_neg Bool.false_ne_true] at h
                exact attempts_subset hc.iterate_eq hab (ih h)

/-- **What the iterations that a loop begins preserve, the loop preserves**, whether or not
the problem fails in the last one. -/
theorem advance_invariant {J : Progress α γ π σ → Prop} (n : Nat) :
    ∀ {p : Progress α γ π σ},
      (∀ x ∈ problem.attempts n p, J x → J (problem.iterate x).1) →
      J p → J (problem.advance n p).1 := by
  induction n with
  | zero => intro p _ hp; exact hp
  | succ n ih =>
      intro p preserves hp
      have hfirst := preserves p (mem_attempts_self n p) hp
      rw [advance_succ]
      cases hi : problem.iterate p with
      | mk q failure =>
          rw [hi] at hfirst
          cases failure with
          | some reason => exact hfirst
          | none =>
              cases hab : q.isAborted with
              | true =>
                  simp only [hab, if_true]
                  exact hfirst
              | false =>
                  simp only [hab, Bool.false_eq_true, if_false]
                  exact ih (fun x hx => preserves x (attempts_subset hi hab hx)) hfirst

end Problem

namespace Annealer

variable {α γ π σ μ : Type} [Scalar α] [Generator γ]

/-- The attempts of a run. -/
def attempts (a : Annealer α γ π) (problem : Problem α π σ μ) (flags : FlagBoard) (state : σ)
    (n : UInt64) : List (Progress α γ π σ) :=
  problem.attempts (a.allowed n) (a.start flags state)

/-- A run leaves the annealer as its loop does, however it ends. -/
theorem run_annealer (a : Annealer α γ π) (problem : Problem α π σ μ) (flags : FlagBoard)
    (state : σ) (n : UInt64) :
    (a.run problem flags state n).annealer
      = (problem.advance (a.allowed n) (a.start flags state)).1.annealer := by
  cases hadv : problem.advance (a.allowed n) (a.start flags state) with
  | mk q stop =>
      cases stop with
      | reached => rw [run_of_reached hadv]; rfl
      | aborted => rw [run_of_aborted hadv]; rfl
      | failed reason => rw [run_of_failed hadv]

end Annealer

namespace Search

variable {α γ π σ μ : Type} [Scalar α] [Generator γ]

/-- The attempts of a command. -/
def attemptsOf (s : Search α γ π σ) (problem : Problem α π σ μ) (c : Command α π σ) :
    List (Progress α γ π σ) :=
  match c.request with
  | some (start, n) => s.annealer.attempts problem s.flags (start.getD s.state) n
  | none => []

/-- The attempts of a history, in order. -/
def attempts (s : Search α γ π σ) (problem : Problem α π σ μ) :
    List (Command α π σ) → List (Progress α γ π σ)
  | [] => []
  | c :: cs => s.attemptsOf problem c ++ (s.perform problem c).1.attempts problem cs

theorem attempts_append (problem : Problem α π σ μ) (earlier later : List (Command α π σ)) :
    ∀ s : Search α γ π σ, s.attempts problem (earlier ++ later)
      = s.attempts problem earlier ++ (s.performAll problem earlier).1.attempts problem later := by
  induction earlier with
  | nil => intro s; rfl
  | cons c earlier ih =>
      intro s
      show s.attemptsOf problem c
          ++ (s.perform problem c).1.attempts problem (earlier ++ later) = _
      rw [ih, ← List.append_assoc]
      rfl

theorem before_mem_attemptsOf {s : Search α γ π σ} {problem : Problem α π σ μ}
    {c : Command α π σ} {it : Iteration α γ π σ μ} (h : it ∈ s.iterationsOf problem c) :
    it.before ∈ s.attemptsOf problem c := by
  obtain ⟨start, n, hreq, h⟩ := mem_iterationsOf h
  unfold attemptsOf
  rw [hreq]
  exact Problem.before_mem_attempts _ h

theorem before_mem_attempts {problem : Problem α π σ μ} {it : Iteration α γ π σ μ}
    {cs : List (Command α π σ)} :
    ∀ {s : Search α γ π σ}, it ∈ s.allIterations problem cs →
      it.before ∈ s.attempts problem cs := by
  induction cs with
  | nil => intro s h; exact absurd h List.not_mem_nil
  | cons c cs ih =>
      intro s h
      rcases List.mem_append.mp h with h | h
      · exact List.mem_append_left _ (before_mem_attemptsOf h)
      · exact List.mem_append_right _ (ih h)

end Search

/-! ## §2. Two loops -/

section
variable {α γ π σ μ γ' π' σ' μ' : Type} [Scalar α] [Generator γ] [Generator γ']
  {problem : Problem α π σ μ} {problem' : Problem α π' σ' μ'}

/-- **What each pair of iterations preserves, two loops of the same length preserve**: they
begin as many iterations, side by side from related points, they end at related points and for
the same reason, and if the problem fails, it does so from related points.  The flags of related
points must read the same; `C` may be required of every pair of points at which the two loops
begin an iteration side by side. -/
theorem Problem.advance_paired {R C : Progress α γ π σ → Progress α γ' π' σ' → Prop}
    (flag : ∀ {p p'}, R p p' → p'.isAborted = p.isAborted)
    (step : ∀ {p p'}, C p p' → R p p' →
      R (problem.iterate p).1 (problem'.iterate p').1
        ∧ (problem'.iterate p').2 = (problem.iterate p).2) (n : Nat) :
    ∀ {p : Progress α γ π σ} {p' : Progress α γ' π' σ'},
      (∀ x ∈ (problem.attempts n p).zip (problem'.attempts n p'), C x.1 x.2) → R p p' →
      List.Forall₂ R (problem.attempts n p) (problem'.attempts n p')
        ∧ R (problem.advance n p).1 (problem'.advance n p').1
        ∧ (problem'.advance n p').2 = (problem.advance n p).2
        ∧ ∀ reason, (problem.advance n p).2 = .failed reason →
            ∃ x x', C x x' ∧ R x x' ∧ (problem.iterate x).2 = some reason := by
  induction n with
  | zero => intro p p' _ h; exact ⟨.nil, h, rfl, fun _ heq => nomatch heq⟩
  | succ n ih =>
      intro p p' hC h
      have hp : C p p' := hC (p, p') List.mem_cons_self
      obtain ⟨hnext, hfailure⟩ := step hp h
      rw [advance_succ, advance_succ]
      unfold attempts at hC ⊢
      cases hi : problem.iterate p with
      | mk q failure =>
          cases hi' : problem'.iterate p' with
          | mk q' failure' =>
              rw [hi, hi'] at hnext hfailure hC
              have hfail : failure' = failure := hfailure
              subst hfail
              cases failure' with
              | some reason =>
                  refine ⟨.cons h .nil, hnext, rfl, fun reason' heq => ⟨p, p', hp, h, ?_⟩⟩
                  cases heq
                  rw [hi]
              | none =>
                  have hflag : q'.isAborted = q.isAborted := flag hnext
                  cases hab : q.isAborted with
                  | true =>
                      simp only [hflag, hab, if_true]
                      exact ⟨.cons h .nil, hnext, trivial, fun _ heq => nomatch heq⟩
                  | false =>
                      simp only [hflag, hab, Bool.false_eq_true, if_false] at hC ⊢
                      obtain ⟨hattempts, hrest⟩ :=
                        ih (fun x hx => hC x (List.mem_cons_of_mem _ hx)) hnext
                      exact ⟨.cons h hattempts, hrest⟩

/-! ## §3. Two runs -/

/-- What a run reports in which the problem has failed. -/
def Progress.failure (p : Progress α γ π σ) (reason : String) : Report α γ π σ where
  annealer := p.annealer
  flags := p.flags
  events := []
  result := .error reason

/-- **Two runs in lockstep** report alike, if what they conclude from related points and how
they fail there, after an attempt from related points, is alike. -/
theorem Annealer.run_paired {R C : Progress α γ π σ → Progress α γ' π' σ' → Prop}
    {Q : Report α γ π σ → Report α γ' π' σ' → Prop}
    (flag : ∀ {p p'}, R p p' → p'.isAborted = p.isAborted)
    (step : ∀ {p p'}, C p p' → R p p' →
      R (problem.iterate p).1 (problem'.iterate p').1
        ∧ (problem'.iterate p').2 = (problem.iterate p).2)
    {a : Annealer α γ π} {a' : Annealer α γ' π'} {flags flags' : FlagBoard} {state : σ}
    {state' : σ'} {n : UInt64} (counter : a'.iteration = a.iteration)
    (hC : ∀ x ∈ (a.attempts problem flags state n).zip (a'.attempts problem' flags' state' n),
      C x.1 x.2)
    (h : R (a.start flags state) (a'.start flags' state'))
    (concludes : ∀ {p p'} aborted, R p p' → Q (a.conclude p aborted) (a'.conclude p' aborted))
    (fails : ∀ {p p'} reason, R p p' →
      (∃ x x', C x x' ∧ R x x' ∧ (problem.iterate x).2 = some reason) →
      Q (p.failure reason) (p'.failure reason)) :
    Q (a.run problem flags state n) (a'.run problem' flags' state' n) := by
  have hallowed : a'.allowed n = a.allowed n := by
    unfold allowed
    rw [counter]
  unfold attempts at hC
  rw [hallowed] at hC
  obtain ⟨-, hend, hstop, hfailed⟩ := Problem.advance_paired flag step (a.allowed n) hC h
  cases hadv : problem.advance (a.allowed n) (a.start flags state) with
  | mk q stop =>
      cases hadv' : problem'.advance (a.allowed n) (a'.start flags' state') with
      | mk q' stop' =>
          rw [hadv, hadv'] at hend hstop
          rw [hadv] at hfailed
          have hs : stop' = stop := hstop
          subst hs
          rw [← hallowed] at hadv'
          cases stop' with
          | reached =>
              rw [run_of_reached hadv, run_of_reached hadv']
              exact concludes false hend
          | aborted =>
              rw [run_of_aborted hadv, run_of_aborted hadv']
              exact concludes true hend
          | failed reason =>
              rw [run_of_failed hadv, run_of_failed hadv']
              exact fails reason hend (hfailed reason rfl)

/-- The same, with `C` required of the first run's points alone. -/
theorem Annealer.run_related {R : Progress α γ π σ → Progress α γ' π' σ' → Prop}
    {C : Progress α γ π σ → Prop} {Q : Report α γ π σ → Report α γ' π' σ' → Prop}
    (flag : ∀ {p p'}, R p p' → p'.isAborted = p.isAborted)
    (step : ∀ {p p'}, C p → R p p' →
      R (problem.iterate p).1 (problem'.iterate p').1
        ∧ (problem'.iterate p').2 = (problem.iterate p).2)
    {a : Annealer α γ π} {a' : Annealer α γ' π'} {flags flags' : FlagBoard} {state : σ}
    {state' : σ'} {n : UInt64} (counter : a'.iteration = a.iteration)
    (hC : ∀ p ∈ a.attempts problem flags state n, C p)
    (h : R (a.start flags state) (a'.start flags' state'))
    (concludes : ∀ {p p'} aborted, R p p' → Q (a.conclude p aborted) (a'.conclude p' aborted))
    (fails : ∀ {p p'} reason, R p p' →
      (∃ x x', C x ∧ R x x' ∧ (problem.iterate x).2 = some reason) →
      Q (p.failure reason) (p'.failure reason)) :
    Q (a.run problem flags state n) (a'.run problem' flags' state' n) :=
  run_paired (C := fun x _ => C x) flag step counter
    (fun x hx => hC x.1 (List.of_mem_zip hx).1) h concludes fails

/-! ## §4. Two histories -/

/-- **Two histories in parallel.**  Their commands are matched one by one, and `K` holds of each
pair where the two searches stand when they come to it. -/
inductive Search.Parallel (problem : Problem α π σ μ) (problem' : Problem α π' σ' μ')
    (K : Search α γ π σ → Search α γ' π' σ' → Command α π σ → Command α π' σ' → Prop) :
    Search α γ π σ → Search α γ' π' σ' → List (Command α π σ) → List (Command α π' σ') →
      Prop where
  /-- No commands. -/
  | nil (s : Search α γ π σ) (s' : Search α γ' π' σ') : Parallel problem problem' K s s' [] []
  /-- One command each, then the others. -/
  | cons {s : Search α γ π σ} {s' : Search α γ' π' σ'} {c : Command α π σ} {c' : Command α π' σ'}
      {cs : List (Command α π σ)} {cs' : List (Command α π' σ')} (first : K s s' c c')
      (rest : Parallel problem problem' K (s.perform problem c).1 (s'.perform problem' c').1
        cs cs') :
      Parallel problem problem' K s s' (c :: cs) (c' :: cs')

/-- Commands that match wherever the searches stand. -/
theorem Search.Parallel.of_forall₂ {K : Command α π σ → Command α π' σ' → Prop}
    {cs : List (Command α π σ)} {cs' : List (Command α π' σ')} (h : List.Forall₂ K cs cs') :
    ∀ (s : Search α γ π σ) (s' : Search α γ' π' σ'),
      Parallel problem problem' (fun _ _ => K) s s' cs cs' := by
  induction h with
  | nil => exact .nil
  | cons first _ ih => intro s s'; exact .cons first (ih _ _)

/-- **Two histories in lockstep**: what each pair of commands preserves, two histories in
parallel preserve, and their reports are related one by one. -/
theorem Search.performAll_related {S : Search α γ π σ → Search α γ' π' σ' → Prop}
    {C : Progress α γ π σ → Prop}
    {K : Search α γ π σ → Search α γ' π' σ' → Command α π σ → Command α π' σ' → Prop}
    {Q : Report α γ π σ → Report α γ' π' σ' → Prop}
    (step : ∀ {s s' c c'}, (∀ p ∈ s.attemptsOf problem c, C p) → S s s' → K s s' c c' →
      S (s.perform problem c).1 (s'.perform problem' c').1
        ∧ List.Forall₂ Q (s.perform problem c).2.toList (s'.perform problem' c').2.toList)
    {s : Search α γ π σ} {s' : Search α γ' π' σ'} {cs : List (Command α π σ)}
    {cs' : List (Command α π' σ')} (calls : Parallel problem problem' K s s' cs cs')
    (hC : ∀ p ∈ s.attempts problem cs, C p) (h : S s s') :
    S (s.performAll problem cs).1 (s'.performAll problem' cs').1
      ∧ List.Forall₂ Q (s.performAll problem cs).2 (s'.performAll problem' cs').2 := by
  induction calls with
  | nil s s' => exact ⟨h, .nil⟩
  | cons first _ ih =>
      obtain ⟨hthen, hreport⟩ := step (fun p hp => hC p (List.mem_append_left _ hp)) h first
      obtain ⟨hafter, hreports⟩ := ih (fun p hp => hC p (List.mem_append_right _ hp)) hthen
      rw [performAll_cons, performAll_cons]
      exact ⟨hafter, List.rel_append hreport hreports⟩

/-- What two lists pair, longer ones that begin with them pair too. -/
theorem zip_subset_zip_append {β δ : Type} (ys : List β) (ys' : List δ) :
    ∀ (xs : List β) (xs' : List δ), xs.zip xs' ⊆ (xs ++ ys).zip (xs' ++ ys')
  | [], _ => List.nil_subset _
  | _ :: _, [] => List.nil_subset _
  | _ :: xs, _ :: xs' => List.cons_subset_cons _ (zip_subset_zip_append ys ys' xs xs')

/-- The same with `C` required of the points side by side.  For that the searches must begin as
many iterations at each command. -/
theorem Search.performAll_paired {S : Search α γ π σ → Search α γ' π' σ' → Prop}
    {C : Progress α γ π σ → Progress α γ' π' σ' → Prop}
    {K : Command α π σ → Command α π' σ' → Prop} {Q : Report α γ π σ → Report α γ' π' σ' → Prop}
    (step : ∀ {s s' c c'},
      (∀ x ∈ (s.attemptsOf problem c).zip (s'.attemptsOf problem' c'), C x.1 x.2) → S s s' →
      K c c' →
      S (s.perform problem c).1 (s'.perform problem' c').1
        ∧ List.Forall₂ Q (s.perform problem c).2.toList (s'.perform problem' c').2.toList
        ∧ (s.attemptsOf problem c).length = (s'.attemptsOf problem' c').length)
    {cs : List (Command α π σ)} {cs' : List (Command α π' σ')} (calls : List.Forall₂ K cs cs') :
    ∀ {s : Search α γ π σ} {s' : Search α γ' π' σ'},
      (∀ x ∈ (s.attempts problem cs).zip (s'.attempts problem' cs'), C x.1 x.2) → S s s' →
      S (s.performAll problem cs).1 (s'.performAll problem' cs').1
        ∧ List.Forall₂ Q (s.performAll problem cs).2 (s'.performAll problem' cs').2 := by
  induction calls with
  | nil => intro s s' _ h; exact ⟨h, .nil⟩
  | @cons c c' cs cs' first _ ih =>
      intro s s' hC h
      unfold attempts at hC
      -- what the first commands begin comes first on both sides, so it is paired as in the whole
      have hfirst : (s.attemptsOf problem c).zip (s'.attemptsOf problem' c')
          ⊆ (s.attemptsOf problem c ++ (s.perform problem c).1.attempts problem cs).zip
              (s'.attemptsOf problem' c' ++ (s'.perform problem' c').1.attempts problem' cs') :=
        zip_subset_zip_append _ _ _ _
      obtain ⟨hthen, hreport, hlength⟩ := step (fun x hx => hC x (hfirst hx)) h first
      rw [List.zip_append hlength] at hC
      obtain ⟨hafter, hreports⟩ := ih (fun x hx => hC x (List.mem_append_right _ hx)) hthen
      rw [performAll_cons, performAll_cons]
      exact ⟨hafter, List.rel_append hreport hreports⟩

end

end Annealing
