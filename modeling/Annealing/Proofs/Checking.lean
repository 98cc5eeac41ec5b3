/-
  Annealing.Proofs.Checking
  ─────────────────────────
  **WHAT THE CHECK OF A TUNING SAYS.**

  The guards of the check ask whether a number is NaN, finite, or below zero.
  Together they cut the doubles into four kinds of tunings: those that pass, and
  those with each of the three faults.  Two results are compared as their numbers
  are, and NaN is not equal to itself: so equality of results is symmetric and
  transitive, but a result that carries NaN differs from itself.

    • `Binary64.beq_iff` — doubles are equal if each is at most the other,
    • `check_cases` — what the check finds first,
    • `check_classifies` — which tunings pass, and which fault the others have,
    • `sameResult_iff` — when two results are the same.
-/
import Annealing.Proofs.Binary64.Bits
import Annealing.Proofs.Binary64.Special
import Annealing.Tuning.Check

namespace Annealing

/-! ## §1. Doubles that are compared -/

namespace Binary64

open Float.Model Float.Model.UnpackedFloat

theorem beq_iff_rank (a b : UnpackedFloat) :
    a.beq b = true ↔ a ≠ .notANumber ∧ b ≠ .notANumber ∧ rank a = rank b := by
  rcases a with (_ | _) | _ | s | ⟨(_ | _), m, e, hm⟩ <;>
    rcases b with (_ | _) | _ | s' | ⟨(_ | _), m', e', hm'⟩
  all_goals
    simp [UnpackedFloat.beq, UnpackedFloat.compare, rank, Ordering.then_eq_eq]
  all_goals decide

/-- **Doubles are equal if each is at most the other.** -/
theorem beq_iff (x y : Float) : (x == y) = true ↔ x ≤ y ∧ y ≤ x := by
  rw [le_iff, le_iff, le_iff_rank, le_iff_rank]
  refine (beq_iff_rank (parts x) (parts y)).trans ?_
  rw [le_antisymm_iff]
  tauto

theorem le_self_iff (x : Float) : x ≤ x ↔ x.isNaN = false := by
  rw [le_iff, le_iff_rank]
  show _ ↔ (parts x).isNaN = false
  cases parts x <;> simp [UnpackedFloat.isNaN]

theorem parts_infinity : parts (1 / 0) = .infinity .positive := rfl

/-- What is neither NaN nor at most zero, and finite, lies between zero and infinity. -/
theorem between_iff (x : Float) :
    0 < x ∧ x < 1 / 0 ↔ ¬ (x.isNaN = true ∨ x ≤ 0) ∧ x.isFinite = true := by
  rw [lt_iff, lt_iff, le_iff, parts_zero, parts_infinity]
  show _ ↔ ¬ ((parts x).isNaN = true ∨ _) ∧ (parts x).isFinite = true
  rcases parts x with (_ | _) | _ | s | ⟨(_ | _), m, e, hm⟩
  all_goals
    simp [UnpackedFloat.lt, UnpackedFloat.le, UnpackedFloat.compare, UnpackedFloat.isNaN,
      UnpackedFloat.isFinite]

theorem eq_infinity_iff (x : Float) :
    x = 1 / 0 ↔ ¬ (x.isNaN = true ∨ x ≤ 0) ∧ x.isFinite = false := by
  rw [le_iff, parts_zero, show x = 1 / 0 ↔ parts x = .infinity .positive from
    ⟨fun h => h ▸ rfl, fun h => parts_injective h⟩]
  show _ ↔ ¬ ((parts x).isNaN = true ∨ _) ∧ (parts x).isFinite = false
  rcases parts x with (_ | _) | _ | s | ⟨(_ | _), m, e, hm⟩
  all_goals
    simp [UnpackedFloat.le, UnpackedFloat.compare, UnpackedFloat.isNaN, UnpackedFloat.isFinite]

/-- What is finite and not below zero lies between zero, which counts, and infinity. -/
theorem from_zero_iff (x : Float) :
    0 ≤ x ∧ x < 1 / 0 ↔ ¬ (x.isFinite = false ∨ x < 0) := by
  rw [lt_iff, lt_iff, le_iff, parts_zero, parts_infinity]
  show _ ↔ ¬ ((parts x).isFinite = false ∨ _)
  rcases parts x with (_ | _) | _ | s | ⟨(_ | _), m, e, hm⟩
  all_goals
    simp [UnpackedFloat.lt, UnpackedFloat.le, UnpackedFloat.compare, UnpackedFloat.isFinite]

theorem isFinite_eq_false_iff (x : Float) :
    x.isFinite = false ↔ x.isNaN = true ∨ x.isInf = true := by
  show (parts x).isFinite = false ↔ (parts x).isNaN = true ∨ (parts x).isInf = true
  cases parts x <;> simp [UnpackedFloat.isFinite, UnpackedFloat.isNaN, UnpackedFloat.isInf]

end Binary64

/-! ## §2. What the check finds -/

namespace Tuning

section
variable {α : Type} [Scalar α] (t : Tuning α)

/-- **The guards, in order**: a fault of the budget is found before one of the scale. -/
theorem check_iff :
    (t.check = .ok () ↔ (¬ (Scalar.isNaN t.budget = true ∨ t.budget ≤ 0)
        ∧ Scalar.isFinite t.budget = true) ∧ ¬ (Scalar.isFinite t.scale = false ∨ t.scale < 0))
      ∧ (∀ x, t.check = .error (.nonPositiveBudget x) ↔
          (Scalar.isNaN t.budget = true ∨ t.budget ≤ 0) ∧ t.budget = x)
      ∧ (∀ x, t.check = .error (.nonFiniteBudget x) ↔
          (¬ (Scalar.isNaN t.budget = true ∨ t.budget ≤ 0)
            ∧ Scalar.isFinite t.budget = false) ∧ t.budget = x)
      ∧ ∀ x, t.check = .error (.invalidScale x) ↔
          (¬ (Scalar.isNaN t.budget = true ∨ t.budget ≤ 0) ∧ Scalar.isFinite t.budget = true)
            ∧ (Scalar.isFinite t.scale = false ∨ t.scale < 0) ∧ t.scale = x := by
  unfold check
  simp only [Bool.or_eq_true, decide_eq_true_eq, Bool.not_eq_true']
  split_ifs <;> simp [*]

end

/-! ## §3. When two results are the same -/

/-- **Results are the same if both pass, or both have faults of one kind about equal numbers.** -/
theorem sameResult_iff (r s : Except (TuningFault Float) Unit) :
    sameResult r s = true ↔ r = .ok () ∧ s = .ok ()
      ∨ ∃ fault ∈ [TuningFault.nonPositiveBudget, .nonFiniteBudget, .invalidScale],
          ∃ x y, r = .error (fault x) ∧ s = .error (fault y) ∧ (x == y) = true := by
  rcases r with (x | x | x) | _ <;> rcases s with (y | y | y) | _
  all_goals simp [sameResult, BEq.beq, instBEqTuningFault.beq]

theorem sameResult_symm {r s : Except (TuningFault Float) Unit} (h : sameResult r s = true) :
    sameResult s r = true := by
  rw [sameResult_iff] at h ⊢
  obtain ⟨hr, hs⟩ | ⟨fault, kind, x, y, hr, hs, hxy⟩ := h
  · exact .inl ⟨hs, hr⟩
  · rw [Binary64.beq_iff] at hxy
    exact .inr ⟨fault, kind, y, x, hs, hr, (Binary64.beq_iff y x).mpr hxy.symm⟩

theorem sameResult_trans {r s u : Except (TuningFault Float) Unit} (h : sameResult r s = true)
    (h' : sameResult s u = true) : sameResult r u = true := by
  rw [sameResult_iff] at h h' ⊢
  obtain ⟨hr, hs⟩ | ⟨fault, kind, x, y, hr, hs, hxy⟩ := h <;>
    obtain ⟨hs', hu⟩ | ⟨fault', kind', y', z, hs', hu, hyz⟩ := h' <;>
    rw [hs] at hs'
  · exact .inl ⟨hr, hu⟩
  · cases hs'
  · cases hs'
  · -- the result in the middle has one kind and one number
    obtain ⟨rfl, rfl⟩ : fault = fault' ∧ y = y' := by
      simp only [List.mem_cons, List.not_mem_nil, or_false] at kind kind'
      rcases kind with rfl | rfl | rfl <;> rcases kind' with rfl | rfl | rfl <;> cases hs' <;>
        exact ⟨rfl, rfl⟩
    rw [Binary64.beq_iff] at hxy hyz
    refine .inr ⟨fault, kind, x, z, hr, hu, (Binary64.beq_iff x z).mpr ?_⟩
    exact ⟨Binary64.le_transitive hxy.1 hyz.1, Binary64.le_transitive hyz.2 hxy.2⟩

/-- **A result is the same as itself, unless it carries NaN.** -/
theorem sameResult_self_iff (r : Except (TuningFault Float) Unit) :
    sameResult r r = true ↔ ∀ fault, r = .error fault → fault.value.isNaN = false := by
  have hself : ∀ x : Float, (x == x) = true ↔ x.isNaN = false := fun x => by
    rw [Binary64.beq_iff, and_self, Binary64.le_self_iff]
  rcases r with fault | _
  · have hvalue : sameResult (.error fault) (.error fault) = (fault.value == fault.value) := by
      cases fault <;> rfl
    rw [hvalue, hself]
    exact ⟨fun h _ hfault => Except.error.inj hfault ▸ h, fun h => h fault rfl⟩
  · exact iff_of_true rfl fun fault h => nomatch h

/-! ## §4. Tunings of doubles -/

section
variable (t : Tuning Float)

theorem check_ok_iff :
    t.check = .ok () ↔ (0 < t.budget ∧ t.budget < 1 / 0) ∧ 0 ≤ t.scale ∧ t.scale < 1 / 0 := by
  rw [Binary64.between_iff, Binary64.from_zero_iff]
  exact t.check_iff.1

theorem check_nonPositiveBudget_iff (x : Float) : t.check = .error (.nonPositiveBudget x) ↔
    (t.budget.isNaN = true ∨ t.budget ≤ 0) ∧ t.budget = x :=
  t.check_iff.2.1 x

theorem check_nonFiniteBudget_iff (x : Float) :
    t.check = .error (.nonFiniteBudget x) ↔ t.budget = 1 / 0 ∧ t.budget = x := by
  rw [Binary64.eq_infinity_iff]
  exact t.check_iff.2.2.1 x

theorem check_invalidScale_iff (x : Float) : t.check = .error (.invalidScale x) ↔
    (0 < t.budget ∧ t.budget < 1 / 0)
      ∧ (t.scale.isNaN = true ∨ t.scale.isInf = true ∨ t.scale < 0) ∧ t.scale = x := by
  rw [Binary64.between_iff, ← or_assoc, ← Binary64.isFinite_eq_false_iff]
  exact t.check_iff.2.2.2 x

/-- **Only NaN makes the result of a check differ from itself.** -/
theorem check_differs_iff : sameResult t.check t.check = false ↔
    t.budget.isNaN = true ∨ (0 < t.budget ∧ t.budget < 1 / 0) ∧ t.scale.isNaN = true := by
  have hcarries : sameResult t.check t.check = false
      ↔ ∃ fault, t.check = .error fault ∧ fault.value.isNaN = true := by
    rw [← Bool.not_eq_true, sameResult_self_iff]
    push Not
    simp only [ne_eq, Bool.not_eq_false]
  rw [hcarries]
  constructor
  · rintro ⟨x | x | x, hcheck, hnan⟩
    · obtain ⟨-, rfl⟩ := (t.check_nonPositiveBudget_iff x).mp hcheck
      exact .inl hnan
    · obtain ⟨hinfinity, rfl⟩ := (t.check_nonFiniteBudget_iff x).mp hcheck
      rw [hinfinity] at hnan
      cases hnan
    · obtain ⟨hbudget, -, rfl⟩ := (t.check_invalidScale_iff x).mp hcheck
      exact .inr ⟨hbudget, hnan⟩
  · rintro (hnan | ⟨hbudget, hnan⟩)
    · exact ⟨_, (t.check_nonPositiveBudget_iff t.budget).mpr ⟨.inl hnan, rfl⟩, hnan⟩
    · exact ⟨_, (t.check_invalidScale_iff t.scale).mpr ⟨hbudget, .inl hnan, rfl⟩, hnan⟩

/-- **The check cuts the tunings into four kinds**, whatever their schedule and seed; equality of
its results is symmetric and transitive, and fails on itself for NaN alone. -/
theorem check_classifies :
    ((t.check = .ok () ↔ (0 < t.budget ∧ t.budget < 1 / 0) ∧ 0 ≤ t.scale ∧ t.scale < 1 / 0)
        ∧ (∀ x, t.check = .error (.nonPositiveBudget x) ↔
            (t.budget.isNaN = true ∨ t.budget ≤ 0) ∧ t.budget = x)
        ∧ (∀ x, t.check = .error (.nonFiniteBudget x) ↔ t.budget = 1 / 0 ∧ t.budget = x)
        ∧ (∀ x, t.check = .error (.invalidScale x) ↔ (0 < t.budget ∧ t.budget < 1 / 0)
            ∧ (t.scale.isNaN = true ∨ t.scale.isInf = true ∨ t.scale < 0) ∧ t.scale = x)
        ∧ ({ t with budget := -0 }).check = .error (.nonPositiveBudget (-0))
        ∧ (({ t with scale := -0 }).check = .ok () ↔ 0 < t.budget ∧ t.budget < 1 / 0))
      ∧ (∀ r s : Except (TuningFault Float) Unit, sameResult r s = true ↔ r = .ok () ∧ s = .ok ()
          ∨ ∃ fault ∈ [TuningFault.nonPositiveBudget, .nonFiniteBudget, .invalidScale],
              ∃ x y, r = .error (fault x) ∧ s = .error (fault y) ∧ (x == y) = true)
      ∧ (∀ r s : Except (TuningFault Float) Unit, sameResult r s = true → sameResult s r = true)
      ∧ (∀ r s u : Except (TuningFault Float) Unit,
          sameResult r s = true → sameResult s u = true → sameResult r u = true)
      ∧ (∀ r : Except (TuningFault Float) Unit,
          sameResult r r = true ↔ ∀ fault, r = .error fault → fault.value.isNaN = false)
      ∧ (sameResult t.check t.check = false ↔ t.budget.isNaN = true
          ∨ (0 < t.budget ∧ t.budget < 1 / 0) ∧ t.scale.isNaN = true) := by
  have hzero : (-0 : Float) ≤ 0 := by decide +kernel
  have hzero' : (0 : Float) ≤ -0 ∧ (-0 : Float) < 1 / 0 := by decide +kernel
  refine ⟨⟨t.check_ok_iff, t.check_nonPositiveBudget_iff, t.check_nonFiniteBudget_iff,
    t.check_invalidScale_iff, ?_, ?_⟩, sameResult_iff, fun _ _ => sameResult_symm,
    fun _ _ _ => sameResult_trans, sameResult_self_iff, t.check_differs_iff⟩
  · exact (check_nonPositiveBudget_iff _ _).mpr ⟨.inr hzero, rfl⟩
  · rw [check_ok_iff]
    exact and_iff_left hzero'

end

end Tuning

end Annealing
