/-
  Annealing.Proofs.Averages
  ─────────────────────────
  **THE ESTIMATE IS AN AVERAGE.**

  Every sample moves the mean a little, by a weight that falls as the samples grow
  in number.  In exact arithmetic the weights are such that all samples count
  alike: the mean is their average.  So it does not depend on their order, it lies
  between the least and the greatest of them, and it is never below the sample
  that the average difference suggests, which it equals only if all differences
  are the same.  The sample of a difference is `c` over the difference; nothing of
  this depends on what `c` is, as long as it is positive.

    • `average_sub_div_average` — by how much an average of quotients exceeds the
      quotient by the average,
    • `runningScale_eq_average` — the running mean is the average,
    • `history_average` — so it is at every point of every history.
-/
import Mathlib
import Annealing.Generator.Cycle
import Annealing.Proofs.Exact
import Annealing.Proofs.Lessons

namespace Annealing

noncomputable section

/-! ## §1. Averages -/

/-- The average of a list of numbers. -/
def average (xs : List ℝ) : ℝ :=
  xs.sum / xs.length

section
variable {xs : List ℝ}

theorem length_pos_real (hne : xs ≠ []) : (0 : ℝ) < xs.length :=
  Nat.cast_pos.mpr (List.length_pos_iff.mpr hne)

theorem average_perm {ys : List ℝ} (h : xs.Perm ys) : average xs = average ys := by
  unfold average
  rw [h.sum_eq, h.length_eq]

/-- **One more number moves the average by its share.** -/
theorem average_concat (xs : List ℝ) (x : ℝ) :
    average (xs ++ [x])
      = x * (1 / ((xs.length + 1 : ℕ) : ℝ)) + average xs * (1 - 1 / ((xs.length + 1 : ℕ) : ℝ)) := by
  unfold average
  rw [List.sum_append, List.sum_singleton, List.length_append, List.length_singleton]
  rcases xs.eq_nil_or_concat with rfl | ⟨_, _, rfl⟩
  · simp
  · push_cast
    field_simp
    ring

/-- What bounds the numbers bounds their average. -/
theorem le_average {low : ℝ} (hne : xs ≠ []) (h : ∀ x ∈ xs, low ≤ x) : low ≤ average xs := by
  unfold average
  rw [le_div_iff₀ (length_pos_real hne), mul_comm, ← nsmul_eq_mul]
  exact List.card_nsmul_le_sum xs low h

theorem average_le {high : ℝ} (hne : xs ≠ []) (h : ∀ x ∈ xs, x ≤ high) : average xs ≤ high := by
  unfold average
  rw [div_le_iff₀ (length_pos_real hne), mul_comm, ← nsmul_eq_mul]
  exact List.sum_le_card_nsmul xs high h

theorem average_of_eq {x : ℝ} (hne : xs ≠ []) (h : ∀ y ∈ xs, y = x) : average xs = x :=
  le_antisymm (average_le hne fun y hy => (h y hy).le) (le_average hne fun y hy => (h y hy).ge)

/-- **An average lies between the least and the greatest of the numbers.** -/
theorem average_between (hne : xs ≠ []) :
    ∃ low ∈ xs, ∃ high ∈ xs, (∀ x ∈ xs, low ≤ x ∧ x ≤ high)
      ∧ low ≤ average xs ∧ average xs ≤ high := by
  have hsome : xs.toFinset.Nonempty := List.toFinset_nonempty_iff xs |>.mpr hne
  obtain ⟨low, hlow, hleast⟩ := xs.toFinset.exists_min_image id hsome
  obtain ⟨high, hhigh, hgreatest⟩ := xs.toFinset.exists_max_image id hsome
  simp only [List.mem_toFinset, id] at hlow hleast hhigh hgreatest
  exact ⟨low, hlow, high, hhigh, fun x hx => ⟨hleast x hx, hgreatest x hx⟩,
    le_average hne hleast, average_le hne hgreatest⟩

end

/-! ## §2. The average of quotients and the quotient by the average -/

section
variable {c : ℝ} {deltas : List ℝ}

theorem average_pos (hne : deltas ≠ []) (hpos : ∀ d ∈ deltas, 0 < d) : 0 < average deltas :=
  div_pos (List.sum_pos deltas hpos hne) (length_pos_real hne)

/-- How far a difference is from another one, as a share. -/
def spread (m d : ℝ) : ℝ :=
  (d - m) ^ 2 / (d * m ^ 2)

/-- A quotient exceeds its tangent by the spread. -/
theorem inv_eq_tangent_add_spread {m d : ℝ} (hm : m ≠ 0) (hd : d ≠ 0) :
    1 / d = 2 / m - d / m ^ 2 + spread m d := by
  unfold spread
  field_simp
  ring

/-- **By how much the average of quotients exceeds the quotient by the average**: by the
average spread, as the tangents average out. -/
theorem average_sub_div_average (c : ℝ) (hne : deltas ≠ []) (hpos : ∀ d ∈ deltas, 0 < d) :
    average (deltas.map (c / ·)) - c / average deltas
      = c * average (deltas.map (spread (average deltas))) := by
  have hm := (average_pos hne hpos).ne'
  have hn := (length_pos_real hne).ne'
  have htangents : ∀ {ds : List ℝ} (m : ℝ), m ≠ 0 → (∀ d ∈ ds, 0 < d) →
      (ds.map (c / ·)).sum
        = c * (2 / m * ds.length - ds.sum / m ^ 2 + (ds.map (spread m)).sum) := by
    intro ds m hm
    induction ds with
    | nil => intro _; simp
    | cons d ds ih =>
        intro hds
        obtain ⟨hd, hds⟩ := List.forall_mem_cons.mp hds
        rw [List.map_cons, List.sum_cons, ih hds, List.map_cons, List.sum_cons, List.sum_cons,
          List.length_cons, div_eq_mul_one_div c d, inv_eq_tangent_add_spread hm hd.ne']
        push_cast
        ring
  have hsum : deltas.sum = average deltas * deltas.length := by
    unfold average
    rw [div_mul_cancel₀ _ hn]
  generalize average deltas = m at hm hsum ⊢
  unfold average
  rw [List.length_map, List.length_map, htangents m hm hpos, hsum]
  field_simp
  ring

theorem spread_nonneg (hpos : ∀ d ∈ deltas, 0 < d) (m : ℝ) :
    ∀ x ∈ deltas.map (spread m), 0 ≤ x := by
  intro x hx
  obtain ⟨d, hd, rfl⟩ := List.mem_map.mp hx
  exact div_nonneg (sq_nonneg _) (mul_nonneg (hpos d hd).le (sq_nonneg _))

/-- The average sample of equal differences is their common one. -/
theorem average_of_constant {d : ℝ} (c : ℝ) (hne : deltas ≠ [])
    (hsame : ∀ d' ∈ deltas, d' = d) : average (deltas.map (c / ·)) = c / d := by
  refine average_of_eq (by simpa using hne) fun x hx => ?_
  obtain ⟨d', hd', rfl⟩ := List.mem_map.mp hx
  rw [hsame d' hd']

variable (hc : 0 < c) (hne : deltas ≠ []) (hpos : ∀ d ∈ deltas, 0 < d)
include hc hne hpos

theorem div_average_le : c / average deltas ≤ average (deltas.map (c / ·)) := by
  have hspread : 0 ≤ average (deltas.map (spread (average deltas))) :=
    le_average (by simpa using hne) (spread_nonneg hpos _)
  have hgap := average_sub_div_average c hne hpos
  have := mul_nonneg hc.le hspread
  linarith

/-- **The two are equal only if all differences are.** -/
theorem average_eq_div_average_iff :
    average (deltas.map (c / ·)) = c / average deltas ↔ ∀ d ∈ deltas, ∀ d' ∈ deltas, d = d' := by
  constructor
  · intro heq
    -- the spread is zero on average, and it is nowhere negative
    have hgap := average_sub_div_average c hne hpos
    rw [heq, sub_self] at hgap
    have hzero : (deltas.map (spread (average deltas))).sum = 0 := by
      have hspread := (mul_eq_zero.mp hgap.symm).resolve_left hc.ne'
      unfold average at hspread
      rw [List.length_map] at hspread
      exact (div_eq_zero_iff.mp hspread).resolve_right (length_pos_real hne).ne'
    have hcenter : ∀ d ∈ deltas, d = average deltas := by
      intro d hd
      have hd0 : spread (average deltas) d = 0 :=
        List.all_zero_of_le_zero_le_of_sum_eq_zero (spread_nonneg hpos _) hzero
          (List.mem_map_of_mem hd)
      have hsquare := (div_eq_zero_iff.mp hd0).resolve_right
        (mul_pos (hpos d hd) (pow_pos (average_pos hne hpos) 2)).ne'
      exact sub_eq_zero.mp (pow_eq_zero_iff two_ne_zero |>.mp hsquare)
    intro d hd d' hd'
    rw [hcenter d hd, hcenter d' hd']
  · intro hsame
    obtain ⟨d, hd⟩ := List.exists_mem_of_ne_nil deltas hne
    have hconstant : ∀ d' ∈ deltas, d' = d := fun d' hd' => hsame d' hd' d hd
    rw [average_of_eq hne hconstant, average_of_constant c hne hconstant]

end

/-! ## §3. The running mean -/

/-- The real numbers with this function for a logarithm. -/
def RealsWith (_log : ℝ → ℝ) : Type := ℝ

instance (log : ℝ → ℝ) : Scalar (RealsWith log) :=
  { (inferInstance : Scalar ℝ) with log := log }

/-- With the natural logarithm these are the real numbers as they are. -/
example : (inferInstance : Scalar (RealsWith Real.log)) = (inferInstance : Scalar ℝ) := rfl

namespace RealsWith

variable {log : ℝ → ℝ}

/-- The number itself. -/
def real (x : RealsWith log) : ℝ := x

theorem fold_real (e : ScaleEstimate (RealsWith log)) (d : RealsWith log) :
    (e.fold d).mean.real
      = -log 0.7 / d.real * (1 / ((e.samples + 1).toNat : ℝ))
        + e.mean.real * (1 - 1 / ((e.samples + 1).toNat : ℝ)) := rfl

/-- **The running mean is the average of the samples.** -/
theorem runningScale_eq_average {deltas : List (RealsWith log)}
    (hfew : deltas.length < UInt64.size) :
    (ScaleEstimate.runningScale deltas).real
      = average ((deltas.map real).map (-log 0.7 / ·)) := by
  induction deltas using List.reverseRecOn with
  | nil => exact (zero_div _).symm
  | append_singleton deltas d ih =>
      rw [List.length_append, List.length_singleton] at hfew
      have hcount : (UInt64.ofNat deltas.length + 1).toNat = deltas.length + 1 := by
        rw [UInt64.toNat_add, UInt64.toNat_one, UInt64.toNat_ofNat_of_lt' (by omega)]
        exact Nat.mod_eq_of_lt hfew
      have hfold : ScaleEstimate.runningScale (deltas ++ [d])
          = ((ScaleEstimate.ofDeltas deltas).fold d).mean := by
        rw [ScaleEstimate.fold_ofDeltas]
        rfl
      rw [hfold, fold_real, List.map_append, List.map_append, List.map_singleton,
        List.map_singleton, average_concat, List.length_map, List.length_map]
      unfold ScaleEstimate.ofDeltas
      simp only [hcount, ih (by omega)]

end RealsWith

/-- Taking in cost differences one after another makes the estimate of their list. -/
theorem foldl_fold {α : Type} [Scalar α] (deltas : List α) :
    deltas.foldl ScaleEstimate.fold .empty = ScaleEstimate.ofDeltas deltas := by
  induction deltas using List.reverseRecOn with
  | nil => rfl
  | append_singleton deltas d ih =>
      rw [List.foldl_append, ih]
      exact ScaleEstimate.fold_ofDeltas deltas d

namespace RealsWith

variable {log : ℝ → ℝ}

/-- **The order of the differences does not matter.** -/
theorem foldl_mean_of_perm {deltas order : List (RealsWith log)}
    (hperm : (order.map real).Perm (deltas.map real)) (hfew : deltas.length < UInt64.size) :
    (order.foldl ScaleEstimate.fold .empty).mean = (ScaleEstimate.ofDeltas deltas).mean := by
  have hlength := hperm.length_eq
  rw [List.length_map, List.length_map] at hlength
  rw [foldl_fold]
  calc (ScaleEstimate.runningScale order).real
      = average ((order.map real).map (-log 0.7 / ·)) := runningScale_eq_average (by omega)
    _ = average ((deltas.map real).map (-log 0.7 / ·)) := average_perm (hperm.map _)
    _ = (ScaleEstimate.runningScale deltas).real := (runningScale_eq_average hfew).symm

/-! ## §4. Constant differences -/

/-- A sample that is the mean already leaves it, whatever its weight. -/
theorem fold_real_of_eq {e : ScaleEstimate (RealsWith log)} {d : RealsWith log}
    (h : e.mean.real = -log 0.7 / d.real) : (e.fold d).mean.real = -log 0.7 / d.real := by
  rw [fold_real, h]
  ring

/-- The first sample is the mean. -/
theorem empty_fold_real (d : RealsWith log) :
    ((ScaleEstimate.empty : ScaleEstimate (RealsWith log)).fold d).mean.real
      = -log 0.7 / d.real := by
  have hone : ((ScaleEstimate.empty : ScaleEstimate (RealsWith log)).samples + 1).toNat = 1 := rfl
  have hzero : (ScaleEstimate.empty : ScaleEstimate (RealsWith log)).mean.real = 0 := rfl
  rw [fold_real, hone, hzero]
  simp

/-- **Under the scale that a difference suggests**, it is accepted with the target probability
at temperature 1, and with a root of it at others. -/
theorem acceptance_real {k d temperature : RealsWith log} (hlog : log 0.7 = Real.log 0.7)
    (hd : d.real ≠ 0) (hk : k.real = -log 0.7 / d.real) :
    (Tuning.acceptance k d temperature).real = (0.7 : ℝ) ^ (1 / temperature.real) := by
  have hexponent : -k.real * d.real / temperature.real = Real.log 0.7 * (1 / temperature.real) := by
    rw [hk, hlog]
    field_simp
  rw [Real.rpow_def_of_pos (by norm_num), ← hexponent]
  rfl

/-- A difference is judged under the scale that it suggests itself if that is the estimate, or
if it is the first to be taken in. -/
theorem judge_real {t : Tuning (RealsWith log)} {i : UInt64} {e : ScaleEstimate (RealsWith log)}
    {d : RealsWith log} (hlog : log 0.7 = Real.log 0.7) (hd : 0 < d.real)
    (hwarm : 0 < (t.temperature i).real) (hscale : ¬ 0 < t.scale.real)
    (hmean : e.mean.real = -log 0.7 / d.real ∨ e = .empty ∧ t.inLearningWindow i = true) :
    ∃ p, (t.judge i e d).1 = .chance p
      ∧ p.real = (0.7 : ℝ) ^ (1 / (t.temperature i).real) := by
  have hjudges := t.judge_judges i e d
  generalize (t.judge i e d).1 = v at hjudges ⊢
  generalize (t.judge i e d).2 = e' at hjudges
  cases hjudges with
  | improving improves => exact absurd improves (not_le.mpr hd)
  | cold _ cold => exact absurd hwarm cold
  | given _ _ given => exact absurd given hscale
  | learning _ _ _ _ =>
      refine ⟨_, rfl, acceptance_real hlog hd.ne' ?_⟩
      rcases hmean with hmean | ⟨rfl, -⟩
      · exact fold_real_of_eq hmean
      · exact empty_fold_real d
  | frozen _ _ _ outside =>
      refine ⟨_, rfl, acceptance_real hlog hd.ne' ?_⟩
      rcases hmean with hmean | ⟨-, inside⟩
      · exact hmean
      · exact absurd (inside.symm.trans outside) (by simp)

end RealsWith

/-! ## §5. Every history -/

namespace Search

variable {γ π σ μ : Type} [Generator γ] {log : ℝ → ℝ}

/-- **The estimate is an average.**  In exact arithmetic, and with any logarithm that is negative
at the target probability, take a point that a run of `n` iterations comes to after a history
of a new search.  The runs of the history may have failed, as long as the samples can be
counted.  Let `deltas` be the cost differences taught since the last reset, up to this point;
each suggests a sample, `c` over the difference.

  * The differences are positive, and the estimate counts them.  If there is one,
  * the estimate is the average of the samples, and the same for every order of them;
  * it lies between the least and the greatest sample;
  * it is at least the sample that the average difference suggests, and equal to it if and only
    if all differences are equal.
  * If all are equal, to `d`, the estimate is the sample of `d`; and then `d` is accepted, with
    the natural logarithm and without a given scale, with probability `0.7 ^ (1 / temperature)`,
    however many came before it, or if it is the first and in the learning window. -/
theorem history_average (hlog : log 0.7 < 0) (problem : Problem (RealsWith log) π σ μ)
    (memory : π) (tuning : Tuning (RealsWith log)) (generator : γ) (abort : AbortHandle)
    (flags : FlagBoard) (state : σ) (cs : List (Command (RealsWith log) π σ))
    (start : Option σ) (n : UInt64) :
    let first : Search (RealsWith log) γ π σ :=
      ⟨.create memory tuning generator abort, flags, state⟩
    let s := (first.performAll problem cs).1
    let reports := (first.performAll problem cs).2
    ∀ its q, problem.Passes (s.annealer.start s.flags (start.getD s.state)) its q →
      its.length ≤ s.annealer.allowed n →
      let deltas := (first.taught problem [] cs ++ lessons its).map (·.real)
      let c := -log 0.7
      let samples := deltas.map (c / ·)
      let e := q.annealer.estimate
      (∀ r ∈ reports, ∃ o, r.result = .ok o) ∨ deltas.length < UInt64.size →
      ((∀ d ∈ deltas, 0 < d) ∧ e.samples.toNat = deltas.length)
      ∧ (deltas ≠ [] →
          e.mean.real = average samples
          ∧ (∀ order : List (RealsWith log), (order.map (·.real)).Perm deltas →
              (order.foldl ScaleEstimate.fold .empty).mean = e.mean)
          ∧ (∃ low ∈ samples, ∃ high ∈ samples, (∀ x ∈ samples, low ≤ x ∧ x ≤ high)
              ∧ low ≤ e.mean.real ∧ e.mean.real ≤ high)
          ∧ c / average deltas ≤ e.mean.real
          ∧ (e.mean.real = c / average deltas ↔ ∀ d ∈ deltas, ∀ d' ∈ deltas, d = d'))
      ∧ ∀ d : RealsWith log, 0 < d.real → (∀ d' ∈ deltas, d' = d.real) →
          (deltas ≠ [] → e.mean.real = c / d.real)
          ∧ (log 0.7 = Real.log 0.7 → 0 < q.annealer.temperature.real →
              ¬ 0 < q.annealer.tuning.scale.real →
              deltas ≠ [] ∨ q.annealer.inLearningWindow = true →
              ∃ p, (q.annealer.tuning.judge q.annealer.iteration e d).1 = .chance p
                ∧ p.real = (0.7 : ℝ) ^ (1 / q.annealer.temperature.real)) := by
  intro first s reports its q hq hle deltas c samples e hcounted
  have hc : 0 < c := neg_pos.mpr hlog
  -- what the history and the run have taught is what the estimate is made of
  have hs : s.annealer.estimate = .ofDeltas (first.taught problem [] cs) :=
    performAll_estimate_taught (s := first) rfl
  have he : e = .ofDeltas (first.taught problem [] cs ++ lessons its) := hq.estimate_ofDeltas hs
  have hfew : (first.taught problem [] cs ++ lessons its).length < UInt64.size := by
    rcases hcounted with hok | hfew
    · have hnothing : first.annealer.HasLearned problem ([] : List (Iteration _ γ π σ μ)) :=
        .nil rfl rfl
      exact length_taught_lt hnothing hok hle
    · rwa [List.length_map] at hfew
  have hpos : ∀ d ∈ deltas, 0 < d := by
    intro x hx
    obtain ⟨d, hd, rfl⟩ := List.mem_map.mp hx
    refine not_le.mp ?_
    rcases List.mem_append.mp hd with hd | hd
    · exact worsens_of_mem_taught (s := first) (fun _ h => absurd h List.not_mem_nil) d hd
    · exact worsens_of_mem_lessons hd
  have hmean : e.mean.real = average samples := by
    rw [he]
    exact RealsWith.runningScale_eq_average hfew
  have hconstant : ∀ d : RealsWith log, (∀ d' ∈ deltas, d' = d.real) → deltas ≠ [] →
      e.mean.real = c / d.real := by
    intro d hd hne
    rw [hmean]
    exact average_of_constant c hne hd
  refine ⟨⟨hpos, ?_⟩, fun hne => ⟨hmean, ?_, ?_, ?_, ?_⟩, fun d hd hsame =>
    ⟨hconstant d hsame, ?_⟩⟩
  · rw [he, List.length_map]
    exact UInt64.toNat_ofNat_of_lt' hfew
  · intro order hperm
    rw [he]
    exact RealsWith.foldl_mean_of_perm hperm hfew
  · rw [hmean]
    exact average_between (by simpa [samples] using hne)
  · rw [hmean]
    exact div_average_le hc hne hpos
  · rw [hmean]
    exact average_eq_div_average_iff hc hne hpos
  · intro hnatural hwarm hscale hsome
    refine RealsWith.judge_real hnatural hd hwarm hscale ?_
    by_cases hne : deltas = []
    · refine .inr ⟨?_, hsome.resolve_left (not_not.mpr hne)⟩
      rw [he, List.map_eq_nil_iff.mp hne]
      rfl
    · exact .inl (hconstant d hsame hne)

end Search

/-! ## §6. A price that rises -/

namespace Walk

/-- A problem that has one candidate.  Its memory counts the proposals, and each costs one more
than the one before. -/
def rising : Problem (RealsWith Real.log) Nat Unit Unit where
  choose asked _ _ := .done ⟨asked + 1, [], .ok ⟨(), ((asked + 1 : ℕ) : ℝ)⟩⟩
  apply asked _ _ := ⟨asked, [], .ok ()⟩

/-- A search at temperature two. -/
def tepid : Search (RealsWith Real.log) Cycle Nat Unit :=
  ⟨.create 0 { (default : Tuning (RealsWith Real.log)) with schedule := .custom fun _ _ => (2 : ℝ) }
    (.ofWords #[1, 5]) ⟨0⟩, ⟨#[false]⟩, ()⟩

/-- Its budget is raised so far that the learning window never ends. -/
def endless : List (Command (RealsWith Real.log) Nat Unit) :=
  [.setBudget ((10 : ℝ) ^ 20)]

variable {γ : Type} [Generator γ] {it : Iteration (RealsWith Real.log) γ Nat Unit Unit}

theorem rising_neverFails : rising.NeverFails Cycle where
  choose _ _ _ _ := ⟨_, rfl⟩
  apply _ _ _ := ⟨_, rfl⟩

/-- An iteration asks for one proposal. -/
theorem rising_memory (h : rising.Completes it) :
    it.after.annealer.memory = it.before.annealer.memory + 1 := by
  have hasked : it.asked.annealer.memory = it.before.annealer.memory + 1 := by
    rw [h.asked_eq]
    rfl
  rw [← hasked]
  cases h with
  | @refused p q r proposal _ weighs =>
      have hr : r = (q.weigh proposal.delta).1 := by rw [weighs]
      rw [hr]
      rfl
  | @applied p q r u proposal state _ weighs carries =>
      have hr : r = (q.weigh proposal.delta).1 := by rw [weighs]
      have hu : u = (rising.carryOut r proposal.move).1 := by rw [carries]
      rw [hu, hr]
      rfl

/-- In the endless window every proposal is learned from. -/
theorem rising_lesson {p : Progress (RealsWith Real.log) γ Nat Unit}
    (ht : p.annealer.tuning = (tepid.performAll rising endless).1.annealer.tuning) :
    rising.lessonAt p = some ((p.annealer.memory + 1 : ℕ) : ℝ) := by
  rw [Problem.lessonAt_of_propose (Prod.ext rfl rfl) false p]
  have hworsens : (0 : ℝ) < ((p.annealer.memory + 1 : ℕ) : ℝ) := by positivity
  have hcount : (p.annealer.iteration.toNat : ℝ) ≤ 2 ^ 64 := by
    exact_mod_cast p.annealer.iteration.toNat_lt_size.le
  have hwindow : (p.annealer.iteration.toNat : ℝ) ≤ 0.4 * (10 : ℝ) ^ 20 :=
    hcount.trans (by norm_num)
  refine if_pos ⟨⟨not_le.mpr hworsens, ?_, ?_⟩, ?_⟩
  · show 0 < p.annealer.tuning.temperature p.annealer.iteration
    rw [ht]
    exact two_pos (α := ℝ)
  · show ¬ 0 < p.annealer.tuning.scale
    rw [ht]
    exact lt_irrefl (0 : ℝ)
  · show Scalar.ofCount p.annealer.iteration ≤ 0.4 * p.annealer.tuning.budget
    rw [ht]
    exact hwindow

end Walk

/-- Two iterations learn from the prices one and two.  The estimate is the average of their
samples, and more than the average price suggests. -/
theorem Search.history_average_rising :
    let s := (Walk.tepid.performAll Walk.rising Walk.endless).1
    let c := -Real.log 0.7
    Real.log 0.7 < 0
    ∧ ∃ its q, Walk.rising.Passes (s.annealer.start s.flags s.state) its q
      ∧ its.length ≤ s.annealer.allowed 2
      ∧ (Walk.tepid.taught Walk.rising [] Walk.endless ++ lessons its).map (·.real)
          = [(1 : ℝ), 2]
      ∧ q.annealer.estimate.samples.toNat = 2
      ∧ q.annealer.estimate.mean.real = average [c / 1, c / 2]
      ∧ c / average [1, 2] < q.annealer.estimate.mean.real := by
  intro s c
  have hlog : Real.log 0.7 < 0 := Real.log_neg (by norm_num) (by norm_num)
  -- two iterations, one after the other
  obtain ⟨first, hfirst, hbefore, -⟩ := Problem.completes_of_iterate
    (Prod.ext rfl (Walk.rising_neverFails.iterate_eq (s.annealer.start s.flags s.state)))
  obtain ⟨second, hsecond, hnext, -⟩ := Problem.completes_of_iterate
    (Prod.ext rfl (Walk.rising_neverFails.iterate_eq first.after))
  have hpasses : Walk.rising.Passes (s.annealer.start s.flags s.state) [first, second]
      second.after := by
    rw [← hbefore]
    refine .step hfirst ?_
    rw [← hnext]
    exact .step hsecond (.done _)
  have htuning : first.before.annealer.tuning = s.annealer.tuning := by rw [hbefore]; rfl
  have hmemory : first.before.annealer.memory = 0 := by rw [hbefore]; rfl
  have hone : first.lesson = some ((0 + 1 : ℕ) : ℝ) := by
    rw [← hfirst.lessonAt_before, Walk.rising_lesson htuning, hmemory]
  have htwo : second.lesson = some ((1 + 1 : ℕ) : ℝ) := by
    rw [← hsecond.lessonAt_before, hnext,
      Walk.rising_lesson (hfirst.tuning_eq.trans htuning), Walk.rising_memory hfirst, hmemory]
  have hdeltas : (Walk.tepid.taught Walk.rising [] Walk.endless
      ++ lessons [first, second]).map (·.real) = [(1 : ℝ), 2] := by
    have hnone : Walk.tepid.taught Walk.rising [] Walk.endless = [] := rfl
    have hlessons : lessons [first, second] = [((0 + 1 : ℕ) : ℝ), ((1 + 1 : ℕ) : ℝ)] := by
      unfold lessons
      rw [List.filterMap_cons_some hone, List.filterMap_cons_some htwo, List.filterMap_nil]
      rfl
    rw [hnone, hlessons]
    show [((0 + 1 : ℕ) : ℝ), ((1 + 1 : ℕ) : ℝ)] = [1, 2]
    norm_num
  have hallowed : s.annealer.allowed 2 = 2 := rfl
  have hok : ∀ r ∈ (Walk.tepid.performAll Walk.rising Walk.endless).2,
      ∃ o, r.result = .ok o := performAll_returns Walk.rising_neverFails _ _
  have h := history_average hlog Walk.rising 0 Walk.tepid.annealer.tuning
    (Cycle.ofWords #[1, 5]) ⟨0⟩ ⟨#[false]⟩ () Walk.endless none 2 [first, second] second.after
    hpasses hallowed.ge (.inl hok)
  have hstart : (⟨.create 0 Walk.tepid.annealer.tuning (.ofWords #[1, 5]) ⟨0⟩, ⟨#[false]⟩, ()⟩
      : Search (RealsWith Real.log) Cycle Nat Unit) = Walk.tepid := rfl
  rw [hstart] at h
  simp only [hdeltas] at h
  obtain ⟨⟨-, hsamples⟩, hsome, -⟩ := h
  obtain ⟨hmean, -, -, hle, heq⟩ := hsome (by simp)
  refine ⟨hlog, [first, second], second.after, hpasses, hallowed.ge, hdeltas, hsamples, hmean,
    lt_of_le_of_ne hle fun hsame => ?_⟩
  exact absurd (heq.mp hsame.symm 1 (by simp) 2 (by simp)) (by norm_num)

end

end Annealing
