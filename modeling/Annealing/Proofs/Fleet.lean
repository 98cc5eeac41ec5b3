/-
  Annealing.Proofs.Fleet
  ──────────────────────
  **MANY SEARCHES AND HANDLES ON ONE BOARD.**

  Callers make handles and copy them, make searches, give a search another handle
  or take the one it has, raise flags, and give commands to the searches, in any
  order.  A handle is a name: whoever holds it reads and moves the flag that
  everyone else reads who holds it too.

  All that such a history does to the board is a log of signals.  A flag is raised
  if the last signal to it raised it, and nothing else is to be known about it.

    • `isAborted_performAll` — every reading, from the log,
    • `perform_call` — what a call of one search does to the fleet,
    • `Sound.performAll` — every handle that is held has a flag on the board.
-/
import Mathlib.Data.List.Induction
import Mathlib.Logic.Function.Basic
import Annealing.Proofs.Boards

namespace Annealing

/-! ## §1. A log of signals -/

namespace Signal

/-- What a handle reads after a signal, when it read `old` before. -/
def reading (k : AbortHandle) (old : Bool) (signal : Signal) : Bool :=
  if k = signal.handle then signal.raises else old

/-- **The last signal to the flag of `k` raises it.** -/
def LastRaises (k : AbortHandle) (log : List Signal) : Prop :=
  ∃ earlier later, log = earlier ++ .raise k :: later ∧ ∀ s ∈ later, s.handle ≠ k

theorem not_lastRaises_nil (k : AbortHandle) : ¬ LastRaises k [] := by
  rintro ⟨earlier, later, h, -⟩
  exact absurd h.symm (List.append_ne_nil_of_right_ne_nil earlier (List.cons_ne_nil _ later))

theorem lastRaises_concat (k : AbortHandle) (log : List Signal) (signal : Signal) :
    LastRaises k (log ++ [signal])
      ↔ signal = .raise k ∨ signal.handle ≠ k ∧ LastRaises k log := by
  constructor
  · rintro ⟨earlier, later, h, others⟩
    rcases List.eq_nil_or_concat later with rfl | ⟨later, last, rfl⟩
    · exact .inl (List.append_inj_right' h rfl |> List.singleton_inj.mp)
    · rw [List.concat_eq_append] at h others
      have h' : log ++ [signal] = (earlier ++ .raise k :: later) ++ [last] := by
        rw [h, List.append_assoc, List.cons_append]
      obtain ⟨rfl, hlast⟩ := List.append_inj' h' rfl
      obtain rfl := List.singleton_inj.mp hlast
      exact .inr ⟨others _ (by simp), earlier, later, rfl,
        fun s hs => others s (List.mem_append_left _ hs)⟩
  · rintro (rfl | ⟨hsignal, earlier, later, rfl, others⟩)
    · exact ⟨log, [], rfl, fun s hs => absurd hs List.not_mem_nil⟩
    · refine ⟨earlier, later ++ [signal], by simp, fun s hs => ?_⟩
      rcases List.mem_append.mp hs with hs | hs
      · exact others s hs
      · rw [List.mem_singleton.mp hs]
        exact hsignal

/-- **A handle that reads nothing at first reads what the last signal to it says.** -/
theorem foldl_reading_iff (k : AbortHandle) (log : List Signal) :
    log.foldl (reading k) false = true ↔ LastRaises k log := by
  induction log using List.reverseRecOn with
  | nil => exact ⟨fun h => absurd h (by simp), fun h => absurd h (not_lastRaises_nil k)⟩
  | append_singleton log signal ih =>
      rw [List.foldl_concat, lastRaises_concat, ← ih]
      unfold reading
      cases signal with
      | raise h =>
          by_cases hk : k = h
          · subst hk
            simp [handle, raises]
          · simp [handle, hk, Ne.symm hk]
      | lower h =>
          by_cases hk : k = h
          · subst hk
            simp [handle, raises]
          · simp [handle, hk, Ne.symm hk]

end Signal

namespace FlagBoard

/-- The signals that reach a flag of the board. -/
def reached (board : FlagBoard) (signals : List Signal) : List Signal :=
  signals.filter fun s => decide (s.handle.index < board.raised.size)

/-- **What a handle reads after some signals** is what those that reach a flag say. -/
theorem isAborted_heedAll (k : AbortHandle) (signals : List Signal) :
    ∀ board : FlagBoard, (board.heedAll signals).isAborted k
      = (board.reached signals).foldl (Signal.reading k) (board.isAborted k) := by
  induction signals with
  | nil => intro board; rfl
  | cons signal signals ih =>
      intro board
      have hsame : (board.heed signal).reached signals = board.reached signals := by
        unfold reached
        rw [size_heed]
      show ((board.heed signal).heedAll signals).isAborted k = _
      rw [ih, isAborted_heed, hsame]
      unfold reached
      by_cases hplace : signal.handle.index < board.raised.size
      · rw [List.filter_cons_of_pos (by simpa using hplace), List.foldl_cons]
        congr 1
        unfold Signal.reading
        by_cases hk : k = signal.handle
        · rw [if_pos ⟨hk, hk ▸ hplace⟩, if_pos hk]
        · rw [if_neg fun h => hk h.1, if_neg hk]
      · rw [List.filter_cons_of_neg (by simpa using hplace)]
        rw [if_neg fun h : k = signal.handle ∧ _ => hplace (h.1 ▸ h.2)]

/-- Signals that do not reach a flag leave it alone. -/
theorem isAborted_heedAll_of_avoids {board : FlagBoard} {signals : List Signal} {k : AbortHandle}
    (avoids : ∀ s ∈ board.reached signals, s.handle ≠ k) :
    (board.heedAll signals).isAborted k = board.isAborted k := by
  rw [isAborted_heedAll]
  generalize board.reached signals = signals at avoids
  induction signals with
  | nil => rfl
  | cons signal signals ih =>
      obtain ⟨hfirst, hrest⟩ := List.forall_mem_cons.mp avoids
      rw [List.foldl_cons]
      unfold Signal.reading at ih ⊢
      rw [if_neg (Ne.symm hfirst)]
      exact ih hrest

end FlagBoard

/-! ## §2. Fleets -/

/-- A search of a fleet, without the flags, and what its runs have told so far. -/
structure Member (α γ π σ : Type) where
  /-- The annealer. -/
  annealer : Annealer α γ π
  /-- The candidate that its next run starts from. -/
  state : σ
  /-- The log and the result of each run. -/
  told : List (List (Event α) × Except String (Outcome α σ))

namespace Member

/-- The search that a member is on a board. -/
def search {α γ π σ : Type} (m : Member α γ π σ) (flags : FlagBoard) : Search α γ π σ :=
  ⟨m.annealer, flags, m.state⟩

variable {α γ π σ μ : Type} [Scalar α] [Generator γ]

/-- Carry out a command on a board. -/
def obey (m : Member α γ π σ) (flags : FlagBoard) (problem : Problem α π σ μ)
    (c : Command α π σ) : Member α γ π σ × FlagBoard :=
  let after := (m.search flags).perform problem c
  (⟨after.1.annealer, after.1.state, m.told ++ after.2.toList.map fun r => (r.events, r.result)⟩,
    after.1.flags)

/-- **On another board, on which its flag reads alike, a member does the same**, and sends the
same signals. -/
theorem obey_onBoard (m : Member α γ π σ) {flags board : FlagBoard}
    (alike : flags.Alike m.annealer.abort board m.annealer.abort) (problem : Problem α π σ μ)
    (c : Command α π σ) :
    m.obey board problem c = ((m.obey flags problem c).1,
      board.heedAll ((m.search flags).signalsOf problem c)) := by
  have h := Search.perform_onBoard (s := m.search flags) alike problem c
  have hsearch : (m.search flags).onBoard board = m.search board := rfl
  rw [hsearch] at h
  unfold obey
  rw [h]
  cases (m.search flags).perform problem c with
  | mk s report => cases report <;> rfl

theorem obey_abort (m : Member α γ π σ) (flags : FlagBoard) (problem : Problem α π σ μ)
    (c : Command α π σ) : (m.obey flags problem c).1.annealer.abort = m.annealer.abort :=
  (m.search flags).perform_abort problem c

end Member

/-- **A fleet**: the flags, the handles that callers hold under some names, and the searches
under theirs.  Searches of different names may be of different types. -/
structure Fleet (ι α : Type) (γ π σ : ι → Type) where
  /-- All flags. -/
  flags : FlagBoard
  /-- The callers' handles. -/
  handles : Nat → Option AbortHandle
  /-- The searches. -/
  members : ∀ j, Option (Member α (γ j) (π j) (σ j))

/-- What callers do with a fleet. -/
inductive Action (ι α : Type) (γ π σ : ι → Type) where
  /-- Make a flag, and hold its handle under a name. -/
  | newHandle (x : Nat)
  /-- Hold the handle of a name under another one too. -/
  | copyHandle (x y : Nat)
  /-- Raise the flag of a handle. -/
  | raise (x : Nat)
  /-- Make a search with a flag of its own. -/
  | create (j : ι) (memory : π j) (tuning : Tuning α) (generator : γ j) (state : σ j)
  /-- Give a search another handle. -/
  | adopt (j : ι) (x : Nat)
  /-- Take the handle of a search. -/
  | take (x : Nat) (j : ι)
  /-- Give a search a command. -/
  | command (j : ι) (c : Command α (π j) (σ j))

namespace Action

variable {ι α : Type} {γ π σ : ι → Type}

/-- The search that an action is a call of, if it is one. -/
def caller : Action ι α γ π σ → Option ι
  | .adopt j _ => some j
  | .command j _ => some j
  | _ => none

variable [DecidableEq ι]

/-- The calls of one search among some actions. -/
def callsOf (i : ι) (as : List (Action ι α γ π σ)) : List (Action ι α γ π σ) :=
  as.filter fun a => decide (a.caller = some i)

theorem mem_callsOf {a : Action ι α γ π σ} {i : ι} {as : List (Action ι α γ π σ)} :
    a ∈ callsOf i as ↔ a ∈ as ∧ a.caller = some i := by
  unfold callsOf
  rw [List.mem_filter, decide_eq_true_eq]

theorem callsOf_cons_self {a : Action ι α γ π σ} {i : ι} (ha : a.caller = some i)
    (as : List (Action ι α γ π σ)) : callsOf i (a :: as) = a :: callsOf i as :=
  List.filter_cons_of_pos (decide_eq_true ha)

theorem callsOf_cons_of_ne {a : Action ι α γ π σ} {i j : ι} (ha : a.caller = some i)
    (hij : j ≠ i) (as : List (Action ι α γ π σ)) : callsOf j (a :: as) = callsOf j as :=
  List.filter_cons_of_neg (by simp [ha, Ne.symm hij])

end Action

namespace Fleet

variable {ι α : Type} {γ π σ μ : ι → Type}

/-- The fleet without handles and searches. -/
def empty : Fleet ι α γ π σ := ⟨.empty, fun _ => none, fun _ => none⟩

/-- What a search reports when it is asked for its flag. -/
def isAborted (f : Fleet ι α γ π σ) (j : ι) : Option Bool :=
  (f.members j).map fun m => f.flags.isAborted m.annealer.abort

/-- Every handle that a caller or a search holds has its place on the board. -/
structure Sound (f : Fleet ι α γ π σ) : Prop where
  handles : ∀ x h, f.handles x = some h → h.index < f.flags.raised.size
  members : ∀ j m, f.members j = some m → m.annealer.abort.index < f.flags.raised.size

namespace Sound

theorem empty : (Fleet.empty : Fleet ι α γ π σ).Sound where
  handles _ _ h := by cases h
  members _ _ h := by cases h

variable {f : Fleet ι α γ π σ}

/-- The board may grow. -/
theorem grow (s : f.Sound) {flags : FlagBoard}
    (hle : f.flags.raised.size ≤ flags.raised.size) :
    ({ f with flags } : Fleet ι α γ π σ).Sound where
  handles x h hx := Nat.lt_of_lt_of_le (s.handles x h hx) hle
  members j m hj := Nat.lt_of_lt_of_le (s.members j m hj) hle

theorem updateHandle (s : f.Sound) (x : Nat) {o : Option AbortHandle}
    (placed : ∀ h, o = some h → h.index < f.flags.raised.size) :
    ({ f with handles := Function.update f.handles x o } : Fleet ι α γ π σ).Sound where
  handles y h hy := by
    change Function.update f.handles x o y = some h at hy
    by_cases hxy : y = x
    · subst hxy
      rw [Function.update_self] at hy
      exact placed h hy
    · rw [Function.update_of_ne hxy] at hy
      exact s.handles y h hy
  members := s.members

theorem updateMember [DecidableEq ι] (s : f.Sound) {j : ι} {m : Member α (γ j) (π j) (σ j)}
    (placed : m.annealer.abort.index < f.flags.raised.size) :
    ({ f with members := Function.update f.members j (some m) } : Fleet ι α γ π σ).Sound where
  handles := s.handles
  members k n hk := by
    change Function.update f.members j (some m) k = some n at hk
    by_cases hkj : k = j
    · subst hkj
      rw [Function.update_self] at hk
      obtain rfl := Option.some.inj hk
      exact placed
    · rw [Function.update_of_ne hkj] at hk
      exact s.members k n hk

end Sound

variable [DecidableEq ι] [Scalar α] [∀ j, Generator (γ j)]

/-- The fleet after an action.  An action on a name that stands for nothing does nothing. -/
def perform (f : Fleet ι α γ π σ) (problem : ∀ j, Problem α (π j) (σ j) (μ j)) :
    Action ι α γ π σ → Fleet ι α γ π σ
  | .newHandle x =>
    { f with
      flags := f.flags.create.2
      handles := Function.update f.handles x (some f.flags.create.1) }
  | .copyHandle x y => { f with handles := Function.update f.handles x (f.handles y) }
  | .raise x =>
    match f.handles x with
    | some h => { f with flags := f.flags.abort h }
    | none => f
  | .create j memory tuning generator state =>
    { f with
      flags := f.flags.create.2
      members := Function.update f.members j
        (some ⟨.create memory tuning generator f.flags.create.1, state, []⟩) }
  | .adopt j x =>
    match f.handles x, f.members j with
    | some h, some m =>
      { f with
        members := Function.update f.members j
          (some { m with annealer := m.annealer.withAbortHandle h }) }
    | _, _ => f
  | .take x j =>
    match f.members j with
    | some m => { f with handles := Function.update f.handles x (some m.annealer.abort) }
    | none => f
  | .command j c =>
    match f.members j with
    | some m =>
      { f with
        flags := (m.obey f.flags (problem j) c).2
        members := Function.update f.members j (some (m.obey f.flags (problem j) c).1) }
    | none => f

/-- The fleet after some actions. -/
def performAll (f : Fleet ι α γ π σ) (problem : ∀ j, Problem α (π j) (σ j) (μ j))
    (as : List (Action ι α γ π σ)) : Fleet ι α γ π σ :=
  as.foldl (fun f a => f.perform problem a) f

/-! ## §3. What is reported -/

/-- **The signals of an action.**  A reset signals to the flag that the search then holds,
and a run signals what its problem fires. -/
def signalsOf (f : Fleet ι α γ π σ) (problem : ∀ j, Problem α (π j) (σ j) (μ j)) :
    Action ι α γ π σ → List Signal
  | .raise x => (f.handles x).toList.map .raise
  | .command j c =>
    match f.members j with
    | some m => (m.search f.flags).signalsOf (problem j) c
    | none => []
  | _ => []

/-- **The log of a history**: the signals that reach a flag, in order. -/
def log (f : Fleet ι α γ π σ) (problem : ∀ j, Problem α (π j) (σ j) (μ j)) :
    List (Action ι α γ π σ) → List Signal
  | [] => []
  | a :: as => f.flags.reached (f.signalsOf problem a) ++ (f.perform problem a).log problem as

variable {f : Fleet ι α γ π σ} {problem : ∀ j, Problem α (π j) (σ j) (μ j)}

section
variable {j : ι} {x : Nat} {h : AbortHandle} {m : Member α (γ j) (π j) (σ j)}

theorem perform_raise (hx : f.handles x = some h) :
    f.perform problem (.raise x) = { f with flags := f.flags.abort h } := by
  simp only [perform, hx]

theorem perform_raise_of_none (hx : f.handles x = none) : f.perform problem (.raise x) = f := by
  simp only [perform, hx]

theorem perform_take (hj : f.members j = some m) :
    f.perform problem (.take x j)
      = { f with handles := Function.update f.handles x (some m.annealer.abort) } := by
  simp only [perform, hj]

theorem perform_take_of_none (hj : f.members j = none) : f.perform problem (.take x j) = f := by
  simp only [perform, hj]

theorem perform_adopt (hx : f.handles x = some h) (hj : f.members j = some m) :
    f.perform problem (.adopt j x)
      = { f with
          members := Function.update f.members j
            (some { m with annealer := m.annealer.withAbortHandle h }) } := by
  simp only [perform, hx, hj]

theorem perform_adopt_of_none (hnone : f.handles x = none ∨ f.members j = none) :
    f.perform problem (.adopt j x) = f := by
  rcases hnone with hx | hj
  · simp only [perform, hx]
  · cases hx : f.handles x <;> simp only [perform, hx, hj]

/-- A command does to the flags what its signals say. -/
theorem perform_command (hj : f.members j = some m) (c : Command α (π j) (σ j)) :
    f.perform problem (.command j c)
      = { f with
          flags := f.flags.heedAll (f.signalsOf problem (.command j c))
          members := Function.update f.members j (some (m.obey f.flags (problem j) c).1) } := by
  have hobey := m.obey_onBoard (.refl f.flags _) (problem j) c
  simp only [perform, signalsOf, hj]
  rw [congrArg Prod.snd hobey]

theorem perform_command_of_none (problem : ∀ j, Problem α (π j) (σ j) (μ j))
    (hj : f.members j = none) (c : Command α (π j) (σ j)) :
    f.perform problem (.command j c) = f ∧ f.signalsOf problem (.command j c) = [] := by
  simp only [perform, signalsOf, hj]
  exact ⟨trivial, trivial⟩

end

/-- What a call does that is not done to its search. -/
theorem perform_call {a : Action ι α γ π σ} {i : ι} (ha : a.caller = some i)
    (f : Fleet ι α γ π σ) (problem : ∀ j, Problem α (π j) (σ j) (μ j)) :
    (f.perform problem a).handles = f.handles
      ∧ (f.perform problem a).flags = f.flags.heedAll (f.signalsOf problem a)
      ∧ ∀ k, k ≠ i → (f.perform problem a).members k = f.members k := by
  cases a with
  | adopt j x =>
      obtain rfl : j = i := Option.some.inj ha
      cases hx : f.handles x with
      | none =>
          rw [perform_adopt_of_none (.inl hx)]
          exact ⟨rfl, rfl, fun _ _ => rfl⟩
      | some h =>
          cases hj : f.members j with
          | none =>
              rw [perform_adopt_of_none (.inr hj)]
              exact ⟨rfl, rfl, fun _ _ => rfl⟩
          | some m =>
              rw [perform_adopt hx hj]
              exact ⟨rfl, rfl, fun k hk => Function.update_of_ne hk _ _⟩
  | command j c =>
      obtain rfl : j = i := Option.some.inj ha
      cases hj : f.members j with
      | none =>
          obtain ⟨hsame, hnone⟩ := perform_command_of_none problem hj c
          rw [hsame, hnone]
          exact ⟨rfl, rfl, fun _ _ => rfl⟩
      | some m =>
          rw [perform_command hj]
          exact ⟨rfl, rfl, fun k hk => Function.update_of_ne hk _ _⟩
  | _ => cases ha

/-- An action does to every flag what its signals say. -/
theorem isAborted_perform (f : Fleet ι α γ π σ) (problem : ∀ j, Problem α (π j) (σ j) (μ j))
    (a : Action ι α γ π σ) (k : AbortHandle) :
    (f.perform problem a).flags.isAborted k
      = (f.flags.reached (f.signalsOf problem a)).foldl (Signal.reading k)
          (f.flags.isAborted k) := by
  cases a with
  | newHandle x => exact f.flags.isAborted_create k
  | create j => exact f.flags.isAborted_create k
  | copyHandle x y => rfl
  | adopt j x =>
      rw [(perform_call rfl f problem).2.1]
      exact FlagBoard.isAborted_heedAll k _ f.flags
  | take x j =>
      cases hj : f.members j with
      | none =>
          rw [perform_take_of_none hj]
          rfl
      | some m =>
          rw [perform_take hj]
          rfl
  | raise x =>
      show _ = (f.flags.reached ((f.handles x).toList.map .raise)).foldl _ _
      cases hx : f.handles x with
      | none =>
          rw [perform_raise_of_none hx]
          rfl
      | some h =>
          rw [perform_raise hx]
          exact FlagBoard.isAborted_heedAll k [.raise h] f.flags
  | command j c =>
      rw [(perform_call rfl f problem).2.1]
      exact FlagBoard.isAborted_heedAll k _ f.flags

/-- **Every reading after a history is read off its log.** -/
theorem isAborted_performAll (problem : ∀ j, Problem α (π j) (σ j) (μ j))
    (as : List (Action ι α γ π σ)) (k : AbortHandle) :
    ∀ f : Fleet ι α γ π σ, (f.performAll problem as).flags.isAborted k
      = (f.log problem as).foldl (Signal.reading k) (f.flags.isAborted k) := by
  induction as with
  | nil => intro f; rfl
  | cons a as ih =>
      intro f
      show ((f.perform problem a).performAll problem as).flags.isAborted k
        = (f.flags.reached (f.signalsOf problem a)
            ++ (f.perform problem a).log problem as).foldl _ _
      rw [ih, isAborted_perform, List.foldl_append]

/-! ## §4. Every handle has a flag -/

/-- **No action makes a handle without a flag.** -/
theorem Sound.perform (s : f.Sound) (problem : ∀ j, Problem α (π j) (σ j) (μ j))
    (a : Action ι α γ π σ) : (f.perform problem a).Sound := by
  have hlt : f.flags.create.1.index < f.flags.create.2.raised.size := by
    rw [FlagBoard.size_create]
    exact Nat.lt_succ_self _
  have hgrow := s.grow (f.flags.size_create ▸ Nat.le_succ _ : _ ≤ f.flags.create.2.raised.size)
  cases a with
  | newHandle x => exact hgrow.updateHandle x fun h hh => Option.some.inj hh ▸ hlt
  | create j => exact hgrow.updateMember hlt
  | copyHandle x y => exact s.updateHandle x (s.handles y)
  | adopt j x =>
      cases hx : f.handles x with
      | none => rwa [perform_adopt_of_none (.inl hx)]
      | some h =>
          cases hj : f.members j with
          | none => rwa [perform_adopt_of_none (.inr hj)]
          | some m =>
              rw [perform_adopt hx hj]
              exact s.updateMember (s.handles x h hx)
  | take x j =>
      cases hj : f.members j with
      | none => rwa [perform_take_of_none hj]
      | some m =>
          rw [perform_take hj]
          exact s.updateHandle x fun h hh => Option.some.inj hh ▸ s.members j m hj
  | raise x =>
      cases hx : f.handles x with
      | none => rwa [perform_raise_of_none hx]
      | some h =>
          rw [perform_raise hx]
          exact s.grow (Nat.le_of_eq (f.flags.size_abort h).symm)
  | command j c =>
      cases hj : f.members j with
      | none => rwa [(perform_command_of_none problem hj c).1]
      | some m =>
          rw [perform_command hj]
          have hsize := f.flags.size_heedAll (f.signalsOf problem (.command j c))
          refine (s.grow (Nat.le_of_eq hsize.symm)).updateMember ?_
          rw [m.obey_abort, hsize]
          exact s.members j m hj

theorem Sound.performAll (problem : ∀ j, Problem α (π j) (σ j) (μ j))
    (as : List (Action ι α γ π σ)) :
    ∀ {f : Fleet ι α γ π σ}, f.Sound → (f.performAll problem as).Sound := by
  induction as with
  | nil => intro f s; exact s
  | cons a as ih => intro f s; exact ih (s.perform problem a)

end Fleet

end Annealing
