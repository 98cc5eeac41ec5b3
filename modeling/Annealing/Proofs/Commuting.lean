/-
  Annealing.Proofs.Commuting
  ──────────────────────────
  **SEARCHES THAT SHARE A FLAG, AND SEARCHES THAT DO NOT.**

  A search looks at one flag, that of the handle it holds.  A fleet in which this
  flag reads the same is the same to it, whatever else was done there.  So an abort
  through another handle does not concern it, and neither do the calls of another
  search that signal to other flags only.

    • `Agrees.call`, `Agrees.other` — what a call does to two fleets that agree on
      a search,
    • `performAll_interleaved` — the calls of two searches, neither of which signals
      to a flag of the other, do to each what its own calls do alone,
    • `Sound.obeys`, `Sound.obeys_adopted` — a search obeys the flag of the handle it
      holds, and that of another handle once it is given that,
    • `history_flags` — who shares a flag, reads it and obeys it, after any history.
-/
import Annealing.Proofs.Fleet
import Annealing.Proofs.Stopping

namespace Annealing.Fleet

/-! ## §1. Fleets that agree on a search -/

section
variable {ι α : Type} {γ π σ : ι → Type}

/-- The handle that a search holds. -/
def holding (f : Fleet ι α γ π σ) (j : ι) : List AbortHandle :=
  (f.members j).toList.map (·.annealer.abort)

/-- **Two fleets agree on a search**, as far as it can tell: it is the same in both, the flags
`hs` read the same, and so many flags and the same handles are there. -/
structure Agrees (f w : Fleet ι α γ π σ) (j : ι) (hs : List AbortHandle) : Prop where
  handles : w.handles = f.handles
  member : w.members j = f.members j
  size : w.flags.raised.size = f.flags.raised.size
  reads : ∀ h ∈ hs, w.flags.isAborted h = f.flags.isAborted h

namespace Agrees

theorem refl (f : Fleet ι α γ π σ) (j : ι) (hs : List AbortHandle) : f.Agrees f j hs :=
  ⟨rfl, rfl, rfl, fun _ _ => rfl⟩

theorem alike {f w : Fleet ι α γ π σ} {j : ι} {hs : List AbortHandle} (agrees : f.Agrees w j hs)
    {h : AbortHandle} (hh : h ∈ hs) : f.flags.Alike h w.flags h where
  raised := agrees.reads h hh
  placed := by rw [agrees.size]

/-- Two fleets that agree on a search and on the flag it holds report the same of it. -/
theorem isAborted_eq {f w : Fleet ι α γ π σ} {j : ι} {hs : List AbortHandle}
    (agrees : f.Agrees w j hs) (held : f.holding j ⊆ hs) : w.isAborted j = f.isAborted j := by
  unfold isAborted
  rw [agrees.member]
  unfold holding at held
  cases hj : f.members j with
  | none => rfl
  | some m =>
      rw [hj] at held
      exact congrArg some (agrees.reads _ (held (List.mem_singleton_self _)))

end Agrees

end

variable {ι α : Type} {γ π σ μ : ι → Type} [DecidableEq ι] [Scalar α] [∀ j, Generator (γ j)]
  {f : Fleet ι α γ π σ} {problem : ∀ j, Problem α (π j) (σ j) (μ j)}

namespace Agrees

variable {w : Fleet ι α γ π σ} {i j : ι} {hs : List AbortHandle} {a : Action ι α γ π σ}

/-- A search that obeys one of the flags `hs` does the same in both fleets, and sends the same
signals. -/
theorem perform_eq (agrees : f.Agrees w i hs) (problem : ∀ j, Problem α (π j) (σ j) (μ j))
    (ha : a.caller = some i) (held : ∀ m, f.members i = some m → m.annealer.abort ∈ hs) :
    (w.perform problem a).members i = (f.perform problem a).members i
      ∧ (w.perform problem a).flags = w.flags.heedAll (f.signalsOf problem a) := by
  have hmember := agrees.member
  cases a with
  | adopt j x =>
      obtain rfl : j = i := Option.some.inj ha
      have hhandle := congrFun agrees.handles x
      cases hx : f.handles x with
      | none =>
          rw [perform_adopt_of_none (.inl hx), perform_adopt_of_none (.inl (hhandle.trans hx))]
          exact ⟨hmember, rfl⟩
      | some h =>
          cases hj : f.members j with
          | none =>
              rw [perform_adopt_of_none (.inr hj), perform_adopt_of_none (.inr (hmember.trans hj))]
              exact ⟨hmember, rfl⟩
          | some m =>
              rw [perform_adopt hx hj, perform_adopt (hhandle.trans hx) (hmember.trans hj)]
              refine ⟨?_, rfl⟩
              show Function.update w.members j _ j = Function.update f.members j _ j
              rw [Function.update_self, Function.update_self]
  | command j c =>
      obtain rfl : j = i := Option.some.inj ha
      cases hj : f.members j with
      | none =>
          obtain ⟨hsame, hnone⟩ := perform_command_of_none problem hj c
          rw [hsame, hnone, (perform_command_of_none problem (hmember.trans hj) c).1]
          exact ⟨hmember, rfl⟩
      | some m =>
          have hobey := m.obey_onBoard (agrees.alike (held m hj)) (problem j) c
          simp only [perform, signalsOf, hj, hmember]
          rw [hobey, Function.update_self, Function.update_self]
          exact ⟨rfl, rfl⟩
  | _ => cases ha

/-- **A call keeps two fleets in agreement on its search**, when both carry it out. -/
theorem call (agrees : f.Agrees w i hs) (ha : a.caller = some i)
    (held : ∀ m, f.members i = some m → m.annealer.abort ∈ hs) :
    (f.perform problem a).Agrees (w.perform problem a) i hs := by
  obtain ⟨hhandles, hflags, -⟩ := perform_call ha f problem
  obtain ⟨hmember, hflags'⟩ := agrees.perform_eq problem ha held
  exact {
    handles := by rw [(perform_call ha w problem).1, hhandles, agrees.handles]
    member := hmember
    size := by rw [hflags, hflags', FlagBoard.size_heedAll, FlagBoard.size_heedAll, agrees.size]
    reads := fun h hh => by
      rw [hflags, hflags']
      exact ((agrees.alike hh).heedAll _).raised }

/-- **A call of another search keeps two fleets in agreement**, when one carries it out and its
signals spare the flags `ks`. -/
theorem other {v : Fleet ι α γ π σ} {ks : List AbortHandle} (agrees : f.Agrees w i hs)
    (others : v.Agrees w j ks) (hij : j ≠ i) (ha : a.caller = some i)
    (held : ∀ m, f.members i = some m → m.annealer.abort ∈ hs)
    (spares : ∀ s ∈ f.flags.reached (f.signalsOf problem a), s.handle ∉ ks) :
    v.Agrees (w.perform problem a) j ks := by
  obtain ⟨hhandles, -, hmembers⟩ := perform_call ha w problem
  have hflags := (agrees.perform_eq problem ha held).2
  exact {
    handles := hhandles.trans others.handles
    member := (hmembers j hij).trans others.member
    size := by rw [hflags, FlagBoard.size_heedAll, others.size]
    reads := fun h hh => by
      have havoids : ∀ s ∈ w.flags.reached (f.signalsOf problem a), s.handle ≠ h := by
        unfold FlagBoard.reached
        rw [agrees.size]
        exact fun s hs heq => spares s hs (heq ▸ hh)
      rw [hflags, FlagBoard.isAborted_heedAll_of_avoids havoids]
      exact others.reads h hh }

end Agrees

/-! ## §2. The calls of two searches -/

/-- The handles that a search holds in the course of some actions. -/
def held (f : Fleet ι α γ π σ) (problem : ∀ j, Problem α (π j) (σ j) (μ j)) (j : ι) :
    List (Action ι α γ π σ) → List AbortHandle
  | [] => f.holding j
  | a :: as => f.holding j ++ (f.perform problem a).held problem j as

/-- **The calls of one search spare another**: carried out alone, they send no signal to a flag
that the other holds at any time when its calls are carried out alone. -/
def Spares (f : Fleet ι α γ π σ) (problem : ∀ j, Problem α (π j) (σ j) (μ j)) (i j : ι)
    (calls : List (Action ι α γ π σ)) : Prop :=
  ∀ s ∈ f.log problem (Action.callsOf i calls), s.handle ∉ f.held problem j (Action.callsOf j calls)

theorem mem_held (problem : ∀ j, Problem α (π j) (σ j) (μ j)) {j : ι}
    {m : Member α (γ j) (π j) (σ j)} (as : List (Action ι α γ π σ))
    (h : f.members j = some m) : m.annealer.abort ∈ f.held problem j as := by
  have hholding : m.annealer.abort ∈ f.holding j := by
    unfold holding
    rw [h]
    exact List.mem_singleton_self _
  cases as with
  | nil => exact hholding
  | cons a as => exact List.mem_append_left _ hholding

theorem holding_performAll_subset (problem : ∀ j, Problem α (π j) (σ j) (μ j)) (j : ι)
    (as : List (Action ι α γ π σ)) :
    ∀ f : Fleet ι α γ π σ, (f.performAll problem as).holding j ⊆ f.held problem j as := by
  induction as with
  | nil => intro f; exact List.Subset.refl _
  | cons a as ih =>
      intro f
      exact List.Subset.trans (ih _) (List.subset_append_right _ _)

/-- On the way through some calls of two searches: `f` has carried out those of `i` alone, and
`w` those of both.  The flags `hs` are all that `i` holds from here on when it is alone, and it
spares the flags `ks`. -/
structure Alone (f w : Fleet ι α γ π σ) (problem : ∀ j, Problem α (π j) (σ j) (μ j)) (i : ι)
    (calls : List (Action ι α γ π σ)) (hs ks : List AbortHandle) : Prop where
  agrees : f.Agrees w i hs
  held : f.held problem i (Action.callsOf i calls) ⊆ hs
  spares : ∀ s ∈ f.log problem (Action.callsOf i calls), s.handle ∉ ks

namespace Alone

variable {g w : Fleet ι α γ π σ} {i j : ι} {a : Action ι α γ π σ}
  {calls : List (Action ι α γ π σ)} {hs ks : List AbortHandle}

theorem own (h : f.Alone w problem i (a :: calls) hs ks) (ha : a.caller = some i) :
    (f.perform problem a).Alone (w.perform problem a) problem i calls hs ks := by
  obtain ⟨agrees, held, spares⟩ := h
  rw [Action.callsOf_cons_self ha] at held spares
  exact {
    agrees := agrees.call ha fun m hm => held (mem_held problem _ hm)
    held := List.Subset.trans (List.subset_append_right _ _) held
    spares := fun s hs => spares s (List.mem_append_right _ hs) }

theorem other (h : f.Alone w problem i (a :: calls) hs ks)
    (others : g.Alone w problem j (a :: calls) ks hs) (hji : j ≠ i) (ha : a.caller = some i) :
    g.Alone (w.perform problem a) problem j calls ks hs := by
  obtain ⟨agrees, held, spares⟩ := h
  obtain ⟨agrees', held', spares'⟩ := others
  rw [Action.callsOf_cons_self ha] at held spares
  rw [Action.callsOf_cons_of_ne ha hji] at held' spares'
  exact {
    agrees := agrees.other agrees' hji ha (fun m hm => held (mem_held problem _ hm))
      fun s hs => spares s (List.mem_append_left _ hs)
    held := held'
    spares := spares' }

end Alone

/-- **Calls of two searches that spare each other**, in any order, do to each of them what its
own calls do alone. -/
theorem agrees_performAll {i j : ι} (hij : i ≠ j) {hs ks : List AbortHandle}
    {calls : List (Action ι α γ π σ)} :
    ∀ {f g w : Fleet ι α γ π σ}, (∀ a ∈ calls, a.caller = some i ∨ a.caller = some j) →
      f.Alone w problem i calls hs ks → g.Alone w problem j calls ks hs →
      (f.performAll problem (Action.callsOf i calls)).Agrees (w.performAll problem calls) i hs
        ∧ (g.performAll problem (Action.callsOf j calls)).Agrees (w.performAll problem calls)
            j ks := by
  induction calls with
  | nil => intro f g w _ h h'; exact ⟨h.agrees, h'.agrees⟩
  | cons a calls ih =>
      intro f g w callers h h'
      obtain ⟨hcaller, hcallers⟩ := List.forall_mem_cons.mp callers
      rcases hcaller with ha | ha
      · rw [Action.callsOf_cons_self ha, Action.callsOf_cons_of_ne ha hij.symm]
        exact ih hcallers (h.own ha) (h.other h' hij.symm ha)
      · rw [Action.callsOf_cons_self ha, Action.callsOf_cons_of_ne ha hij]
        exact ih hcallers (h'.other h hij ha) (h'.own ha)

/-- **Two searches that spare each other commute.** -/
theorem performAll_interleaved (f : Fleet ι α γ π σ)
    (problem : ∀ j, Problem α (π j) (σ j) (μ j)) {i j : ι} (hij : i ≠ j)
    {calls : List (Action ι α γ π σ)}
    (callers : ∀ a ∈ calls, a.caller = some i ∨ a.caller = some j)
    (spares : f.Spares problem i j calls) (spares' : f.Spares problem j i calls) :
    ∀ k, k = i ∨ k = j →
      (f.performAll problem calls).members k
          = (f.performAll problem (Action.callsOf k calls)).members k
        ∧ (f.performAll problem calls).isAborted k
          = (f.performAll problem (Action.callsOf k calls)).isAborted k := by
  obtain ⟨hi, hj⟩ := agrees_performAll hij callers
    (⟨.refl f i _, List.Subset.refl _, spares⟩ : f.Alone f problem i calls _ _)
    ⟨.refl f j _, List.Subset.refl _, spares'⟩
  rintro k (rfl | rfl)
  · exact ⟨hi.member, hi.isAborted_eq (holding_performAll_subset problem k _ f)⟩
  · exact ⟨hj.member, hj.isAborted_eq (holding_performAll_subset problem k _ f)⟩

/-! ## §3. Another handle -/

/-- A command leaves a search the handle it has. -/
theorem abort_perform_command {P : AbortHandle → Prop} {j : ι}
    (held : ∀ m, f.members j = some m → P m.annealer.abort) (c : Command α (π j) (σ j)) :
    ∀ m, (f.perform problem (.command j c)).members j = some m → P m.annealer.abort := by
  intro m hm
  cases hj : f.members j with
  | none =>
      rw [(perform_command_of_none problem hj c).1] at hm
      exact held m hm
  | some m₀ =>
      rw [perform_command hj] at hm
      change Function.update f.members j _ j = some m at hm
      rw [Function.update_self] at hm
      rw [← Option.some.inj hm, m₀.obey_abort]
      exact held m₀ hj

/-- Two fleets that agree on a search and the flag it holds still do after some commands to it. -/
theorem Agrees.performAll_command {j : ι} {h : AbortHandle}
    (problem : ∀ j, Problem α (π j) (σ j) (μ j)) {cs : List (Command α (π j) (σ j))} :
    ∀ {f w : Fleet ι α γ π σ}, f.Agrees w j [h] →
      (∀ m, f.members j = some m → m.annealer.abort = h) →
      (f.performAll problem (cs.map (.command j))).Agrees
        (w.performAll problem (cs.map (.command j))) j [h] := by
  induction cs with
  | nil => intro f w agrees _; exact agrees
  | cons c cs ih =>
      intro f w agrees held
      exact ih (agrees.call rfl fun m hm => held m hm ▸ List.mem_singleton_self _)
        (abort_perform_command (P := (· = h)) held c)

/-- **The search obeys the flag of `h`, and no other.**  An abort through any handle of this flag
stops it: it reads as aborted, and its next run makes one iteration, if one is allowed.  An abort
through another handle changes nothing for it, now or later. -/
structure Obeys (f : Fleet ι α γ π σ) (problem : ∀ j, Problem α (π j) (σ j) (μ j)) (j : ι)
    (h : AbortHandle) : Prop where
  shared : ∀ y, f.handles y = some h →
    let raised := f.perform problem (.raise y)
    raised.isAborted j = some true
      ∧ ∀ m, raised.members j = some m → ∀ state n o,
        (m.annealer.run (problem j) raised.flags state n).result = .ok o →
          o.iterations.toNat = min 1 (m.annealer.allowed n)
  other : ∀ y k, f.handles y = some k → k ≠ h →
    let raised := f.perform problem (.raise y)
    raised.isAborted j = f.isAborted j
      ∧ ∀ cs : List (Command α (π j) (σ j)),
        (raised.performAll problem (cs.map (.command j))).members j
          = (f.performAll problem (cs.map (.command j))).members j

/-- **A search obeys the flag of the handle it holds.** -/
theorem Sound.obeys (sound : f.Sound) (problem : ∀ j, Problem α (π j) (σ j) (μ j)) {j : ι}
    {m : Member α (γ j) (π j) (σ j)} (hj : f.members j = some m) :
    f.Obeys problem j m.annealer.abort where
  shared y hy := by
    rw [perform_raise hy]
    have hflag : (f.flags.abort m.annealer.abort).isAborted m.annealer.abort = true :=
      FlagBoard.isAborted_abort_self (sound.members j m hj)
    refine ⟨?_, fun m' hm' state n o ho => ?_⟩
    · unfold isAborted
      rw [hj]
      exact congrArg some hflag
    · obtain rfl : m = m' := Option.some.inj (hj.symm.trans hm')
      exact (Annealer.run_of_raised hflag ho).1
  other y k hy hk := by
    rw [perform_raise hy]
    have agrees : f.Agrees { f with flags := f.flags.abort k } j [m.annealer.abort] := {
      handles := rfl
      member := rfl
      size := f.flags.size_abort k
      reads := fun h hh => by
        obtain rfl := List.mem_singleton.mp hh
        exact f.flags.isAborted_abort_of_ne (Ne.symm hk) }
    have held : ∀ m', f.members j = some m' → m'.annealer.abort = m.annealer.abort := by
      intro m' hm'
      obtain rfl : m = m' := Option.some.inj (hj.symm.trans hm')
      rfl
    refine ⟨agrees.isAborted_eq ?_, fun cs => (agrees.performAll_command problem held).member⟩
    unfold holding
    rw [hj]
    exact List.Subset.refl _

/-- A search that is given another handle obeys that one's flag. -/
theorem Sound.obeys_adopted (sound : f.Sound) (problem : ∀ j, Problem α (π j) (σ j) (μ j)) {j : ι}
    {x : Nat} {h : AbortHandle} {m : Member α (γ j) (π j) (σ j)} (hx : f.handles x = some h)
    (hj : f.members j = some m) :
    let adopted := f.perform problem (.adopt j x)
    adopted.flags = f.flags ∧ adopted.handles = f.handles
      ∧ adopted.members j = some { m with annealer := m.annealer.withAbortHandle h }
      ∧ adopted.Obeys problem j h := by
  intro adopted
  have hadopted : adopted = { f with
      members := Function.update f.members j
        (some { m with annealer := m.annealer.withAbortHandle h }) } := perform_adopt hx hj
  have hmember : adopted.members j
      = some { m with annealer := m.annealer.withAbortHandle h } := by
    rw [hadopted]
    exact Function.update_self _ _ _
  have hobeys := (sound.perform problem (.adopt j x)).obeys problem hmember
  exact ⟨by rw [hadopted], by rw [hadopted], hmember, hobeys⟩

/-! ## §4. Problems that share nothing -/

/-- Commands to a search under another flag send no signal to that of `k`. -/
theorem handle_ne_of_mem_log {i : ι} {k : AbortHandle}
    (never : (problem i).NeverFires (γ i) k) {as : List (Action ι α γ π σ)} :
    ∀ {f : Fleet ι α γ π σ}, (∀ a ∈ as, ∃ c, a = .command i c ∧ c ≠ .raise k) →
      (∀ m, f.members i = some m → m.annealer.abort ≠ k) →
      ∀ s ∈ f.log problem as, s.handle ≠ k := by
  induction as with
  | nil => intro f _ _ s hs; exact absurd hs List.not_mem_nil
  | cons a as ih =>
      intro f commands apart s hs
      obtain ⟨⟨c, rfl, hc⟩, hrest⟩ := List.forall_mem_cons.mp commands
      rcases List.mem_append.mp hs with hs | hs
      · have hmem : s ∈ f.signalsOf problem (.command i c) := List.mem_of_mem_filter hs
        cases hi : f.members i with
        | none =>
            rw [(perform_command_of_none problem hi c).2] at hmem
            exact absurd hmem List.not_mem_nil
        | some m =>
            simp only [signalsOf, hi] at hmem
            have hapart : (m.search f.flags).annealer.abort ≠ k := apart m hi
            exact Search.handle_ne_of_neverFires never hapart hc s hmem
      · exact ih hrest (abort_perform_command (P := (· ≠ k)) apart c) s hs

/-- Under commands a search holds the handle it has. -/
theorem eq_of_mem_held {j : ι} {k : AbortHandle} (problem : ∀ j, Problem α (π j) (σ j) (μ j))
    {as : List (Action ι α γ π σ)} :
    ∀ {f : Fleet ι α γ π σ}, (∀ a ∈ as, ∃ c, a = .command j c) →
      (∀ m, f.members j = some m → m.annealer.abort = k) →
      ∀ h ∈ f.held problem j as, h = k := by
  have hholding : ∀ {f : Fleet ι α γ π σ}, (∀ m, f.members j = some m → m.annealer.abort = k) →
      ∀ h ∈ f.holding j, h = k := by
    intro f held h hh
    obtain ⟨m, hm, rfl⟩ := List.mem_map.mp hh
    exact held m (Option.mem_toList.mp hm)
  induction as with
  | nil => intro f _ held; exact hholding held
  | cons a as ih =>
      intro f commands held h hh
      obtain ⟨⟨c, rfl⟩, hrest⟩ := List.forall_mem_cons.mp commands
      rcases List.mem_append.mp hh with hh | hh
      · exact hholding held h hh
      · exact ih hrest (abort_perform_command (P := (· = k)) held c) h hh

/-- **Commands to two searches under different flags** spare the second one, if the problem of
the first never fires its flag, and the first is never told to raise it. -/
theorem spares_of_neverFires {i j : ι} {m : Member α (γ i) (π i) (σ i)}
    {n : Member α (γ j) (π j) (σ j)} {calls : List (Action ι α γ π σ)}
    (hi : f.members i = some m) (hj : f.members j = some n)
    (apart : m.annealer.abort ≠ n.annealer.abort)
    (never : (problem i).NeverFires (γ i) n.annealer.abort)
    (commands : ∀ a ∈ calls, a.caller = some i →
      ∃ c, a = .command i c ∧ c ≠ .raise n.annealer.abort)
    (commands' : ∀ a ∈ calls, a.caller = some j → ∃ c, a = .command j c) :
    f.Spares problem i j calls := by
  intro s hs hheld
  have hmine : ∀ a ∈ Action.callsOf i calls,
      ∃ c, a = .command i c ∧ c ≠ .raise n.annealer.abort := by
    intro a ha
    obtain ⟨ha, hcaller⟩ := Action.mem_callsOf.mp ha
    exact commands a ha hcaller
  have htheirs : ∀ a ∈ Action.callsOf j calls, ∃ c, a = .command j c := by
    intro a ha
    obtain ⟨ha, hcaller⟩ := Action.mem_callsOf.mp ha
    exact commands' a ha hcaller
  refine handle_ne_of_mem_log never hmine ?_ s hs (eq_of_mem_held problem htheirs ?_ _ hheld)
  · intro m' hm'
    rw [hi] at hm'
    exact Option.some.inj hm' ▸ apart
  · intro n' hn'
    rw [hj] at hn'
    exact Option.some.inj hn' ▸ rfl

/-! ## §5. The law -/

/-- **Shared flags.**  After every history of a fleet:

  * a handle reads as aborted, whoever holds it, if and only if the last signal to its flag
    raised it; the signals are the aborts, the resets of the searches that then held the flag,
    and what problems have fired in runs;
  * the same goes for a search and the handle it holds;
  * a search obeys the flag of the handle it holds, and no other; so it does if it has just been
    given another handle, by which it is not changed otherwise;
  * the calls of two searches that spare each other commute: in any order they leave each
    search, and all that it has told and reports, as its own calls do alone;
  * commands to two searches under different flags spare the second one if the problem of the
    first never fires its flag, and the first is never told to raise it. -/
theorem history_flags (problem : ∀ j, Problem α (π j) (σ j) (μ j))
    (earlier : List (Action ι α γ π σ)) :
    let f := (empty : Fleet ι α γ π σ).performAll problem earlier
    let log := (empty : Fleet ι α γ π σ).log problem earlier
    (∀ h, f.flags.isAborted h = true ↔ Signal.LastRaises h log)
    ∧ (∀ j m, f.members j = some m →
        (f.isAborted j = some true ↔ Signal.LastRaises m.annealer.abort log))
    ∧ (∀ j m, f.members j = some m → f.Obeys problem j m.annealer.abort)
    ∧ (∀ j x h m, f.handles x = some h → f.members j = some m →
        let adopted := f.perform problem (.adopt j x)
        adopted.flags = f.flags ∧ adopted.handles = f.handles
        ∧ adopted.members j = some { m with annealer := m.annealer.withAbortHandle h }
        ∧ adopted.Obeys problem j h)
    ∧ (∀ i j, i ≠ j → ∀ calls : List (Action ι α γ π σ),
        (∀ a ∈ calls, a.caller = some i ∨ a.caller = some j) →
        f.Spares problem i j calls → f.Spares problem j i calls →
        ∀ k, k = i ∨ k = j →
          (f.performAll problem calls).members k
              = (f.performAll problem (Action.callsOf k calls)).members k
            ∧ (f.performAll problem calls).isAborted k
              = (f.performAll problem (Action.callsOf k calls)).isAborted k)
    ∧ ∀ i j m n, f.members i = some m → f.members j = some n →
        m.annealer.abort ≠ n.annealer.abort →
        (problem i).NeverFires (γ i) n.annealer.abort →
        ∀ calls : List (Action ι α γ π σ),
        (∀ a ∈ calls, a.caller = some i →
          ∃ c, a = .command i c ∧ c ≠ .raise n.annealer.abort) →
        (∀ a ∈ calls, a.caller = some j → ∃ c, a = .command j c) →
        f.Spares problem i j calls := by
  intro f log
  have hreads : ∀ h, f.flags.isAborted h = true ↔ Signal.LastRaises h log := by
    intro h
    show ((empty : Fleet ι α γ π σ).performAll problem earlier).flags.isAborted h = true ↔ _
    rw [isAborted_performAll, ← Signal.foldl_reading_iff]
    rfl
  have sound : f.Sound := Sound.empty.performAll problem earlier
  refine ⟨hreads, ?_, fun j m hj => sound.obeys problem hj,
    fun j x h m hx hj => sound.obeys_adopted problem hx hj, ?_, ?_⟩
  · intro j m hj
    unfold isAborted
    rw [hj, ← hreads]
    exact ⟨Option.some.inj, congrArg some⟩
  · intro i j hij calls callers spares spares'
    exact f.performAll_interleaved problem hij callers spares spares'
  · intro i j m n hi hj apart never calls commands commands'
    exact spares_of_neverFires hi hj apart never commands commands'

/-! ## §6. Two walks -/

/-- What is done with two walks that draw nothing. -/
abbrev WalkAction : Type := Action Bool Float (fun _ => Cycle) (fun _ => Unit) (fun _ => Int)

/-- Two walks, and handles of both; the first obeys a flag that was there before it, and the one
that it came with is raised. -/
def twoWalks : List WalkAction :=
  let cold : Tuning Float := ⟨10, 0, .custom fun _ _ => 0, none⟩
  [.newHandle 0, .create false () cold (.ofWords #[]) 2, .create true () cold (.ofWords #[]) 5,
    .take 1 false, .adopt false 0, .raise 1]

/-- Runs of both walks, one of them stopped and begun anew. -/
def walkCalls : List WalkAction :=
  [.command false (.run none 2), .command true .abort, .command false (.run none 2),
    .command true (.run none 3), .command true .reset, .command true (.run none 2)]

/-- The walks, when they are made. -/
def walks : Fleet Bool Float (fun _ => Cycle) (fun _ => Unit) (fun _ => Int) :=
  empty.performAll (fun _ => Walk.alternating) twoWalks

/-- All calls of the walks are commands, and none of them names a handle. -/
theorem walkCalls_command (k : AbortHandle) {a : WalkAction} (ha : a ∈ walkCalls) {j : Bool}
    (hj : a.caller = some j) : ∃ c, a = .command j c ∧ c ≠ .raise k := by
  simp only [walkCalls, List.mem_cons, List.not_mem_nil, or_false] at ha
  rcases ha with rfl | rfl | rfl | rfl | rfl | rfl <;> cases hj <;>
    exact ⟨_, rfl, fun h => by cases h⟩

/-- The abort through the flag that the first walk came with does not stop it; it goes on beside
the other one as it would alone. -/
theorem history_flags_twoWalks :
    (walks.isAborted false, walks.isAborted true, walks.handles 1)
        = (some false, some false, some ⟨1⟩)
    ∧ Signal.LastRaises ⟨1⟩ ((empty : Fleet Bool Float _ _ _).log
        (fun _ => Walk.alternating) twoWalks)
    ∧ walks.Spares (fun _ => Walk.alternating) false true walkCalls
    ∧ walks.Spares (fun _ => Walk.alternating) true false walkCalls
    ∧ (walks.performAll (fun _ => Walk.alternating) walkCalls).members false
        = (walks.performAll (fun _ => Walk.alternating)
            (Action.callsOf false walkCalls)).members false
    ∧ ((walks.performAll (fun _ => Walk.alternating) walkCalls).members false).map
        (·.annealer.iteration) = some 4 := by
  obtain ⟨hreads, -, -, -, hcommute, hspares⟩ :=
    history_flags (fun _ : Bool => Walk.alternating) twoWalks
  have hstart : (empty : Fleet Bool Float _ _ _).performAll (fun _ => Walk.alternating) twoWalks
      = walks := rfl
  rw [hstart] at hreads hcommute hspares
  have never : ∀ k, Walk.alternating.NeverFires Cycle k := fun k =>
    ⟨fun _ _ _ _ => List.not_mem_nil, fun _ _ _ => List.not_mem_nil⟩
  have hfirst : (walks.members false).map (·.annealer.abort) = some ⟨0⟩ := by decide +kernel
  have hsecond : (walks.members true).map (·.annealer.abort) = some ⟨2⟩ := by decide +kernel
  obtain ⟨m, hm, hm0⟩ := Option.map_eq_some_iff.mp hfirst
  obtain ⟨n, hn, hn2⟩ := Option.map_eq_some_iff.mp hsecond
  have hspare := hspares false true m n hm hn (by rw [hm0, hn2]; decide) (never _) walkCalls
    (fun a ha hj => walkCalls_command _ ha hj)
    fun a ha hj => (walkCalls_command ⟨0⟩ ha hj).imp fun _ => And.left
  have hspare' := hspares true false n m hn hm (by rw [hm0, hn2]; decide) (never _) walkCalls
    (fun a ha hj => walkCalls_command _ ha hj)
    fun a ha hj => (walkCalls_command ⟨0⟩ ha hj).imp fun _ => And.left
  have hsame := hcommute false true (by decide) walkCalls (by decide) hspare hspare' false
    (.inl rfl)
  exact ⟨by decide +kernel, (hreads ⟨1⟩).mp (by decide +kernel), hspare, hspare', hsame.1,
    by decide +kernel⟩

end Annealing.Fleet
