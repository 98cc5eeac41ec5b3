/-
  Annealing.Proofs.Protocol
  ─────────────────────────
  **THE ORDER IN WHICH A PROBLEM IS ASKED.**

  A search asks for one proposal per iteration, numbers the iterations without a
  gap over all its runs, and has a move applied at once or never.  So the
  candidate that a run returns is the one it was given with exactly the applied
  moves carried out, and whatever the problem's two operations preserve, a search
  preserves.

  A history is looked at run by run: a `Session` is what one run was given, what
  it asked and what it reported.  Nothing is asked between runs.
-/
import Annealing.Proofs.Calls
import Annealing.Proofs.History
import Annealing.Generator.Cycle

namespace Annealing

/-! ## §1. Reading a list of questions -/

namespace Call

variable {α π σ μ : Type}

/-- The iteration a proposal is asked for. -/
def iteration? : Call α π σ μ → Option UInt64
  | .choose _ _ iteration _ => some iteration
  | .apply .. => none

/-- Is this a move being applied? -/
def isApply : Call α π σ μ → Bool
  | .choose .. => false
  | .apply .. => true

/-- The candidate as the questions leave it: the answer to the last applied move, or the
input. -/
def latest (input : σ) (calls : List (Call α π σ μ)) : σ :=
  calls.foldl (fun state call =>
    match call with
    | .apply _ _ _ (.ok state) => state
    | _ => state) input

/-- The moves of the questions, applied one after the other to the input. -/
def applyAll (problem : Problem α π σ μ) (input : σ) (calls : List (Call α π σ μ)) :
    Except String σ :=
  calls.foldlM (fun state call =>
    match call with
    | .choose .. => .ok state
    | .apply memory _ move _ => (problem.apply memory state move).result) input

end Call

/-! ## §2. Conversations -/

/-- **A conversation**: the questions of completed iterations, between two candidates.  A
proposal is asked for at the present candidate; then its move is applied, or the next
proposal is asked for. -/
inductive Conversation {α π σ μ : Type} (problem : Problem α π σ μ) :
    σ → List (Call α π σ μ) → σ → Prop where
  /-- No question. -/
  | silent (state : σ) : Conversation problem state [] state
  /-- A move is refused. -/
  | refused {memory : π} {state last : σ} {iteration : UInt64} {proposal : Proposal α μ}
      {calls : List (Call α π σ μ)} (rest : Conversation problem state calls last) :
      Conversation problem state (.choose memory state iteration (.ok proposal) :: calls) last
  /-- A move is applied. -/
  | applied {memory memory' : π} {state state' last : σ} {iteration : UInt64}
      {proposal : Proposal α μ} {calls : List (Call α π σ μ)}
      (answer : (problem.apply memory' state proposal.move).result = .ok state')
      (rest : Conversation problem state' calls last) :
      Conversation problem state
        (.choose memory state iteration (.ok proposal)
          :: .apply memory' state proposal.move (.ok state') :: calls) last

namespace Conversation

variable {α π σ μ : Type} {problem : Problem α π σ μ} {state last : σ}
  {calls : List (Call α π σ μ)}

/-- A proposal is asked for at the candidate that the last applied move has left. -/
theorem choose_latest (h : Conversation problem state calls last) :
    ∀ {earlier later : List (Call α π σ μ)} {m st i answer},
      calls = earlier ++ .choose m st i answer :: later → st = Call.latest state earlier := by
  -- the question is the first one of the conversation, or it is one of the rest
  induction h with
  | silent _ =>
      intro earlier later m st i answer heq
      exact absurd heq (by simp)
  | refused _ ih =>
      intro earlier later m st i answer heq
      cases earlier with
      | nil =>
          injection heq with hcall
          injection hcall with _ hst
          exact hst.symm
      | cons call earlier =>
          injection heq with hcall hrest
          subst hcall
          have hst := ih hrest
          exact hst
  | applied _ _ ih =>
      intro earlier later m st i answer heq
      -- two questions come before the rest, and the second proposes nothing
      match earlier with
      | [] =>
          injection heq with hcall
          injection hcall with _ hst
          exact hst.symm
      | [_] =>
          injection heq with _ hrest
          injection hrest with hcall
          exact absurd hcall (by simp)
      | _ :: _ :: earlier =>
          injection heq with hchoose hrest
          injection hrest with happly hrest
          subst hchoose happly
          have hst := ih hrest
          exact hst

/-- A move is applied right after the proposal it comes from, to the same candidate. -/
theorem apply_after_choose (h : Conversation problem state calls last) :
    ∀ {earlier later : List (Call α π σ μ)} {m st move answer},
      calls = earlier ++ .apply m st move answer :: later →
      ∃ before m' i delta, earlier = before ++ [.choose m' st i (.ok ⟨move, delta⟩)] := by
  induction h with
  | silent _ =>
      intro earlier later m st move answer heq
      exact absurd heq (by simp)
  | refused _ ih =>
      intro earlier later m st move answer heq
      cases earlier with
      | nil =>
          injection heq with hcall
          exact absurd hcall (by simp)
      | cons call earlier =>
          injection heq with hcall hrest
          obtain ⟨before, m', i, delta, rfl⟩ := ih hrest
          exact ⟨call :: before, m', i, delta, rfl⟩
  | applied _ _ ih =>
      intro earlier later m st move answer heq
      match earlier with
      | [] =>
          injection heq with hcall
          exact absurd hcall (by simp)
      | [_] =>
          -- the question is the second one: its move was proposed by the first
          injection heq with hchoose hrest
          injection hrest with happly
          injection happly with _ hst hmove
          subst hchoose hst hmove
          exact ⟨[], _, _, _, rfl⟩
      | choose :: apply :: earlier =>
          injection heq with _ hrest
          injection hrest with _ hrest
          obtain ⟨before, m', i, delta, rfl⟩ := ih hrest
          exact ⟨choose :: apply :: before, m', i, delta, rfl⟩

/-- The last candidate is the first with all moves applied to it. -/
theorem applyAll_eq (h : Conversation problem state calls last) :
    Call.applyAll problem state calls = .ok last := by
  induction h with
  | silent _ => rfl
  | refused _ ih => exact ih
  | @applied memory memory' state state' last iteration proposal calls answer _ ih =>
      show (problem.apply memory' state proposal.move).result >>= _ = _
      rw [answer]
      exact ih

end Conversation

/-! ## §3. The questions of a run -/

namespace Problem

variable {α γ π σ μ : Type} [Scalar α] [Generator γ] {problem : Problem α π σ μ}

/-- A completed iteration asks for one proposal, under its own number. -/
theorem Completes.callsOf_iteration? {it : Iteration α γ π σ μ} (h : problem.Completes it) :
    (problem.callsOf it.before).filterMap Call.iteration? = [it.number] := by
  cases h with
  | refused asks weighs =>
      unfold callsOf
      simp only [asks, weighs]
      rfl
  | applied asks weighs _ =>
      unfold callsOf
      simp only [asks, weighs]
      rfl

/-- It has a move applied exactly if the move is taken. -/
theorem Completes.callsOf_isApply {it : Iteration α γ π σ μ} (h : problem.Completes it) :
    (problem.callsOf it.before).countP (·.isApply) = if it.taken then 1 else 0 := by
  cases h with
  | refused asks weighs =>
      unfold callsOf
      simp only [asks, weighs]
      rfl
  | applied asks weighs _ =>
      unfold callsOf
      simp only [asks, weighs]
      rfl

/-- Its questions come before those of a conversation from the candidate it leaves. -/
theorem Completes.conversation {it : Iteration α γ π σ μ} (h : problem.Completes it)
    {calls : List (Call α π σ μ)} {last : σ}
    (rest : Conversation problem it.after.state calls last) :
    Conversation problem it.before.state (problem.callsOf it.before ++ calls) last := by
  cases h with
  | @refused p q r proposal asks weighs =>
      have hstate : r.count.state = p.state :=
        ((Progress.Keeps.propose asks).trans (.weigh weighs)).state
      unfold callsOf
      simp only [asks, weighs]
      exact .refused (hstate ▸ rest)
  | @applied p q r u proposal state asks weighs carries =>
      have hstate : r.state = p.state :=
        ((Progress.Keeps.propose asks).trans (.weigh weighs)).state
      have hanswer : (problem.apply r.annealer.memory r.state proposal.move).result = .ok state :=
        congrArg Prod.snd carries
      unfold callsOf
      simp only [asks, weighs, carries]
      rw [hstate] at hanswer ⊢
      exact .applied hanswer rest

/-- **The questions of completed iterations are a conversation.** -/
theorem Passes.conversation {p q : Progress α γ π σ} {its : List (Iteration α γ π σ μ)}
    (h : problem.Passes p its q) :
    Conversation problem p.state (its.flatMap fun it => problem.callsOf it.before) q.state := by
  induction h with
  | done p => exact .silent p.state
  | step first _ ih => exact first.conversation ih

/-- The iterations are numbered without a gap. -/
theorem Passes.numbers {p q : Progress α γ π σ} {its : List (Iteration α γ π σ μ)}
    (h : problem.Passes p its q)
    (hle : p.annealer.iteration.toNat + its.length < UInt64.size) :
    ((its.flatMap fun it => problem.callsOf it.before).filterMap Call.iteration?).map UInt64.toNat
      = List.range' p.annealer.iteration.toNat its.length := by
  induction h with
  | done p => rfl
  | @step it its q first rest ih =>
      rw [List.length_cons] at hle ⊢
      have hone := first.iteration_toNat (by omega)
      rw [List.flatMap_cons, List.filterMap_append, first.callsOf_iteration?,
        List.singleton_append, List.map_cons, ih (by omega), hone, List.range'_succ]
      rfl

/-- A move is applied in each iteration that takes it. -/
theorem Passes.countP_isApply {p q : Progress α γ π σ} {its : List (Iteration α γ π σ μ)}
    (h : problem.Passes p its q) :
    (its.flatMap fun it => problem.callsOf it.before).countP (·.isApply)
      = its.countP (·.taken) := by
  induction h with
  | done p => rfl
  | step first _ ih =>
      rw [List.flatMap_cons, List.countP_append, first.callsOf_isApply, ih, List.countP_cons,
        Nat.add_comm]

end Problem

/-! ## §4. What a problem preserves -/

/-- The problem preserves `I`, a property of its memory and the candidate: proposing
keeps it, and so does applying a move that was proposed. -/
structure Problem.Preserves {α π σ μ : Type} (problem : Problem α π σ μ) (γ : Type)
    [Generator γ] (I : π → σ → Prop) : Prop where
  choose : ∀ memory state iteration (g : γ), I memory state →
    I ((problem.choose memory state iteration).run g).1.memory state
  apply : ∀ memory state iteration (g : γ) proposal state', I memory state →
    let reply := ((problem.choose memory state iteration).run g).1
    reply.result = .ok proposal →
    (problem.apply reply.memory state proposal.move).result = .ok state' →
    I (problem.apply reply.memory state proposal.move).memory state'

namespace Problem

variable {α γ π σ μ : Type} [Scalar α] [Generator γ] {problem : Problem α π σ μ}
  {I : π → σ → Prop}

theorem Completes.preserves {it : Iteration α γ π σ μ} (h : problem.Completes it)
    (hI : problem.Preserves γ I) (hit : I it.before.annealer.memory it.before.state) :
    I it.after.annealer.memory it.after.state := by
  cases h with
  | @refused p q r proposal asks weighs =>
      have hq : q = (problem.propose p).1 := by rw [asks]
      have hr : r = (q.weigh proposal.delta).1 := by rw [weighs]
      subst hr hq
      exact hI.choose _ _ _ _ hit
  | @applied p q r u proposal state asks weighs carries =>
      have hanswer : (problem.propose p).2 = .ok proposal := by rw [asks]
      have hstate : (problem.carryOut r proposal.move).2 = .ok state := by rw [carries]
      have hq : q = (problem.propose p).1 := by rw [asks]
      have hr : r = (q.weigh proposal.delta).1 := by rw [weighs]
      have hu : u = (problem.carryOut r proposal.move).1 := by rw [carries]
      subst hu hr hq
      exact hI.apply _ _ _ _ proposal state hit hanswer hstate

theorem Passes.preserves {p q : Progress α γ π σ} {its : List (Iteration α γ π σ μ)}
    (h : problem.Passes p its q) (hI : problem.Preserves γ I)
    (hp : I p.annealer.memory p.state) : I q.annealer.memory q.state :=
  h.invariant (J := fun r => I r.annealer.memory r.state)
    (fun _ first hit => first.preserves hI hit) hp

end Problem

/-! ## §5. The runs of a history -/

/-- One run of a history: the candidate it was given, its questions, and its report. -/
structure Session (α γ π σ μ : Type) where
  /-- The candidate it was given. -/
  input : σ
  /-- Its questions, in order. -/
  calls : List (Call α π σ μ)
  /-- Its report. -/
  report : Report α γ π σ

/-- **A run in order**: proposals are asked for at the candidate that the last applied move
of the run has left, a move is applied right after it was proposed and to the candidate it
was proposed for, and the run returns what the applied moves make of its input, with the
numbers of applied moves and of proposals. -/
structure Session.Orderly {α γ π σ μ : Type} (session : Session α γ π σ μ)
    (problem : Problem α π σ μ) : Prop where
  latest : ∀ earlier later m st i answer,
    session.calls = earlier ++ .choose m st i answer :: later →
    st = Call.latest session.input earlier
  applied : ∀ earlier later m st move answer,
    session.calls = earlier ++ .apply m st move answer :: later →
    ∃ before m' i delta, earlier = before ++ [.choose m' st i (.ok ⟨move, delta⟩)]
  outcome : ∃ o, session.report.result = .ok o
    ∧ Call.applyAll problem session.input session.calls = .ok o.state
    ∧ o.accepted.toNat = session.calls.countP (·.isApply)
    ∧ o.iterations.toNat = (session.calls.filterMap Call.iteration?).length

namespace Search

variable {α γ π σ μ : Type} [Scalar α] [Generator γ]

/-- The session of a run from here. -/
def session (s : Search α γ π σ) (problem : Problem α π σ μ) (start : Option σ)
    (n : UInt64) : Session α γ π σ μ where
  input := start.getD s.state
  calls := s.annealer.calls problem s.flags (start.getD s.state) n
  report := (s.run problem start n).2

/-- The sessions of a history, in order. -/
def sessions (s : Search α γ π σ) (problem : Problem α π σ μ) :
    List (Command α π σ) → List (Session α γ π σ μ)
  | [] => []
  | c :: cs =>
    match c.request with
    | some (start, n) => s.session problem start n :: (s.perform problem c).1.sessions problem cs
    | none => (s.perform problem c).1.sessions problem cs

/-- The numbers of all proposals of a history, in order. -/
def numbers (s : Search α γ π σ) (problem : Problem α π σ μ) (cs : List (Command α π σ)) :
    List UInt64 :=
  ((s.sessions problem cs).flatMap (·.calls)).filterMap Call.iteration?

/-- The sessions of a history are its runs. -/
theorem sessions_report (problem : Problem α π σ μ) (cs : List (Command α π σ)) :
    ∀ s : Search α γ π σ,
      (s.sessions problem cs).map (·.report) = (s.performAll problem cs).2 := by
  induction cs with
  | nil => intro s; rfl
  | cons c cs ih =>
      intro s
      rw [performAll_cons]
      unfold sessions
      cases hc : c.request with
      | none =>
          rw [perform_of_no_request s problem hc]
          exact ih _
      | some request =>
          obtain ⟨start, n⟩ := request
          rw [perform_of_request s problem hc]
          exact congrArg (_ :: ·) (ih _)

/-- A run that returns is in order. -/
theorem session_orderly {s : Search α γ π σ} {problem : Problem α π σ μ} {start : Option σ}
    {n : UInt64} {o : Outcome α σ} (ho : (s.run problem start n).2.result = .ok o) :
    (s.session problem start n).Orderly problem := by
  have hrun : (s.annealer.run problem s.flags (start.getD s.state) n).result = .ok o := ho
  obtain ⟨q, hq, hends, -, hout⟩ := Annealer.run_eq_conclude hrun
  -- the questions of the run are those of its iterations, and these are a conversation
  have hcalls : (s.session problem start n).calls = _ := Annealer.calls_of_ok hrun
  have hconv := hq.conversation
  rw [← hcalls] at hconv
  have hnumbers := congrArg List.length (hq.numbers (by
    have hlt := s.annealer.iteration_add_allowed_lt n
    have hle := hends.length_le
    change s.annealer.iteration.toNat + _ < _
    omega))
  rw [List.length_map, List.length_range', ← hcalls] at hnumbers
  refine ⟨fun _ _ _ _ _ _ => hconv.choose_latest, fun _ _ _ _ _ _ => hconv.apply_after_choose,
    o, ho, ?_, ?_, ?_⟩
  · rw [hout]
    exact hconv.applyAll_eq
  · rw [hout, Annealer.outcome_accepted_toNat hq hends.length_le, hcalls, hq.countP_isApply]
  · rw [hout, Annealer.outcome_iterations_toNat hq hends.length_le, hnumbers]

/-- A run that returns numbers its proposals from the counter on, and the counter counts
them. -/
theorem session_numbers {s : Search α γ π σ} {problem : Problem α π σ μ} {start : Option σ}
    {n : UInt64} {o : Outcome α σ} (ho : (s.run problem start n).2.result = .ok o) :
    let numbers := (s.session problem start n).calls.filterMap Call.iteration?
    numbers.map UInt64.toNat = List.range' s.annealer.iteration.toNat numbers.length
      ∧ (s.run problem start n).1.annealer.iteration.toNat
          = s.annealer.iteration.toNat + numbers.length := by
  have hrun : (s.annealer.run problem s.flags (start.getD s.state) n).result = .ok o := ho
  obtain ⟨q, hq, hends, hreport, -⟩ := Annealer.run_eq_conclude hrun
  have hcalls : (s.session problem start n).calls = _ := Annealer.calls_of_ok hrun
  have hlt := s.annealer.iteration_add_allowed_lt n
  have hle := hends.length_le
  have hnumbers := hq.numbers (by change s.annealer.iteration.toNat + _ < _; omega)
  have hlen := congrArg List.length hnumbers
  rw [List.length_map, List.length_range'] at hlen
  intro numbers
  have heq : numbers = _ := congrArg (List.filterMap Call.iteration?) hcalls
  rw [heq, hnumbers, hlen]
  refine ⟨rfl, ?_⟩
  show (s.annealer.run problem s.flags (start.getD s.state) n).annealer.iteration.toNat = _
  rw [hreport]
  exact Annealer.iteration_toNat_of_passes hq hle

/-- **A history numbers its proposals without a gap.** -/
theorem numbers_eq_range' (problem : Problem α π σ μ) {cs : List (Command α π σ)} :
    ∀ {s : Search α γ π σ}, (∀ c ∈ cs, c.isReset = false) →
      (∀ r ∈ (s.performAll problem cs).2, ∃ o, r.result = .ok o) →
      (s.numbers problem cs).map UInt64.toNat
          = List.range' s.annealer.iteration.toNat (s.numbers problem cs).length
        ∧ (s.performAll problem cs).1.annealer.iteration.toNat
            = s.annealer.iteration.toNat + (s.numbers problem cs).length := by
  induction cs with
  | nil => intro s _ _; exact ⟨rfl, rfl⟩
  | cons c cs ih =>
      intro s hcs hok
      obtain ⟨hc, hcs⟩ := List.forall_mem_cons.mp hcs
      obtain ⟨hrun, hok⟩ := returns_of_performAll_cons hok
      obtain ⟨hnumbers, hcount⟩ := ih hcs hok
      rw [performAll_cons]
      cases hreq : c.request with
      | none =>
          -- nothing is asked and the counter stays
          rw [s.perform_iteration_of_no_request problem hreq hc] at hnumbers hcount
          have heq : s.numbers problem (c :: cs)
              = (s.perform problem c).1.numbers problem cs := by
            unfold numbers
            rw [sessions, hreq]
          rw [heq]
          exact ⟨hnumbers, hcount⟩
      | some request =>
          obtain ⟨start, n⟩ := request
          obtain ⟨o, ho⟩ := hrun start n hreq
          -- the first run's numbers end where the counter then stands
          obtain ⟨hfirst, hthen⟩ := session_numbers ho
          have heq : s.numbers problem (c :: cs)
              = (s.session problem start n).calls.filterMap Call.iteration?
                ++ (s.perform problem c).1.numbers problem cs := by
            unfold numbers
            rw [sessions, hreq, List.flatMap_cons, List.filterMap_append]
          rw [perform_of_request s problem hreq] at hnumbers hcount heq ⊢
          rw [hthen] at hnumbers hcount
          rw [heq, List.map_append, hfirst, hnumbers, List.length_append,
            List.range'_append_1]
          exact ⟨rfl, by rw [hcount, Nat.add_assoc]⟩

/-- In a history in which every run returns, every run is in order. -/
theorem sessions_orderly (problem : Problem α π σ μ) {cs : List (Command α π σ)} :
    ∀ {s : Search α γ π σ}, (∀ r ∈ (s.performAll problem cs).2, ∃ o, r.result = .ok o) →
      ∀ session ∈ s.sessions problem cs, session.Orderly problem := by
  induction cs with
  | nil => intro s _ session h; exact absurd h List.not_mem_nil
  | cons c cs ih =>
      intro s hok session hsession
      obtain ⟨hrun, hok⟩ := returns_of_performAll_cons hok
      unfold sessions at hsession
      cases hreq : c.request with
      | none =>
          rw [hreq] at hsession
          exact ih hok session hsession
      | some request =>
          obtain ⟨start, n⟩ := request
          obtain ⟨o, ho⟩ := hrun start n hreq
          rw [hreq] at hsession
          rcases List.mem_cons.mp hsession with rfl | hsession
          · exact session_orderly ho
          · exact ih hok session hsession

/-- A run that returns, and starts from the present candidate, preserves what the problem
preserves. -/
theorem run_preserves {s : Search α γ π σ} {problem : Problem α π σ μ} {I : π → σ → Prop}
    {n : UInt64} {o : Outcome α σ} (hI : problem.Preserves γ I)
    (ho : (s.run problem none n).2.result = .ok o) (hs : I s.annealer.memory s.state) :
    I (s.run problem none n).1.annealer.memory (s.run problem none n).1.state := by
  obtain ⟨q, hq, -, hreport, -⟩ :=
    Annealer.run_eq_conclude (show (s.annealer.run problem s.flags s.state n).result = _ from ho)
  have hthen : (s.run problem none n).1 = ⟨q.annealer, q.flags, q.state⟩ := by
    unfold run
    rw [show s.annealer.run problem s.flags (none.getD s.state) n = _ from hreport]
    rfl
  rw [hthen]
  exact hq.preserves hI hs

/-- **A history that hands each returned candidate to the next run preserves what the
problem preserves.** -/
theorem performAll_preserves {problem : Problem α π σ μ} {I : π → σ → Prop}
    (hI : problem.Preserves γ I) {cs : List (Command α π σ)} :
    ∀ {s : Search α γ π σ}, (∀ c ∈ cs, c.handsOver = true) →
      (∀ r ∈ (s.performAll problem cs).2, ∃ o, r.result = .ok o) →
      I s.annealer.memory s.state →
      I (s.performAll problem cs).1.annealer.memory (s.performAll problem cs).1.state := by
  induction cs with
  | nil => intro s _ _ hs; exact hs
  | cons c cs ih =>
      intro s hcs hok hs
      obtain ⟨hc, hcs⟩ := List.forall_mem_cons.mp hcs
      obtain ⟨hrun, hok⟩ := returns_of_performAll_cons hok
      rw [performAll_cons]
      refine ih hcs hok ?_
      cases c with
      | run start n =>
          cases start with
          | none =>
              obtain ⟨o, ho⟩ := hrun none n rfl
              exact run_preserves hI ho hs
          | some start => exact absurd hc (by simp [Command.handsOver])
      | runBatch start =>
          cases start with
          | none =>
              obtain ⟨o, ho⟩ := hrun none Annealer.batchSize rfl
              exact run_preserves hI ho hs
          | some start => exact absurd hc (by simp [Command.handsOver])
      | amend change => exact absurd hc (by simp [Command.handsOver])
      | reset => exact hs
      | abort => exact hs
      | raise handle => exact hs
      | setBudget budget => exact hs
      | setScale scale => exact hs
      | setSchedule schedule => exact hs

/-- **The protocol.**  In every history without a reset in which every run returns:

  * the proposals are numbered on from the counter, without a gap over all runs, and the
    counter counts them;
  * every run is in order;
  * if each run starts from the candidate the last one returned, then whatever the problem
    preserves is preserved. -/
theorem history_protocol (s : Search α γ π σ) (problem : Problem α π σ μ)
    (cs : List (Command α π σ)) (hcs : ∀ c ∈ cs, c.isReset = false)
    (hok : ∀ r ∈ (s.performAll problem cs).2, ∃ o, r.result = .ok o) :
    let after := (s.performAll problem cs).1
    let numbers := s.numbers problem cs
    numbers.map UInt64.toNat = List.range' s.annealer.iteration.toNat numbers.length
    ∧ after.annealer.iteration.toNat = s.annealer.iteration.toNat + numbers.length
    ∧ (s.sessions problem cs).map (·.report) = (s.performAll problem cs).2
    ∧ (∀ session ∈ s.sessions problem cs, session.Orderly problem)
    ∧ ∀ I : π → σ → Prop, problem.Preserves γ I → (∀ c ∈ cs, c.handsOver = true) →
        I s.annealer.memory s.state → I after.annealer.memory after.state := by
  obtain ⟨hnumbers, hcount⟩ := numbers_eq_range' problem hcs hok
  refine ⟨hnumbers, hcount, sessions_report problem cs s, sessions_orderly problem hok, ?_⟩
  intro I hI hhands hs
  exact performAll_preserves hI hhands hok hs

/-- A cold walk with seven iterations behind it. -/
def coldWalk : Search Float Cycle Unit Int where
  annealer :=
    { Annealer.create () ⟨10, 0, .custom fun _ _ => 0, none⟩ (.ofWords #[]) ⟨0⟩ with
      iteration := 7 }
  flags := ⟨#[false]⟩
  state := 2

/-- Two runs, the second from another candidate and cut short by the flag. -/
def twoRuns : List (Command Float Unit Int) :=
  [.run none 2, .setScale 1, .abort, .run (some 5) 9]

/-- The second run goes on with the first one's numbers and from its own candidate. -/
theorem history_protocol_coldWalk :
    (∀ c ∈ twoRuns, c.isReset = false)
      ∧ (∀ r ∈ (coldWalk.performAll Walk.alternating twoRuns).2, ∃ o, r.result = .ok o)
      ∧ (coldWalk.performAll Walk.alternating twoRuns).1.annealer.iteration.toNat
          = 7 + (coldWalk.numbers Walk.alternating twoRuns).length
      ∧ (∀ session ∈ coldWalk.sessions Walk.alternating twoRuns,
          session.Orderly Walk.alternating)
      ∧ coldWalk.numbers Walk.alternating twoRuns = [7, 8, 9] := by
  have hreset : ∀ c ∈ twoRuns, c.isReset = false := by decide
  have hok := performAll_returns (Walk.alternating_neverFails Cycle) twoRuns coldWalk
  obtain ⟨-, hcount, -, horderly, -⟩ := history_protocol coldWalk _ twoRuns hreset hok
  exact ⟨hreset, hok, hcount, horderly, by decide +kernel⟩

end Search

end Annealing
