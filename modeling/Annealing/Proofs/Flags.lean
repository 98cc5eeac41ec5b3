/-
  Annealing.Proofs.Flags
  ──────────────────────
  **RAISED FLAGS STAY RAISED.**

  Raising any flags on a board leaves every raised flag raised; only `clear`
  lowers one.  A handle without a place on the board names no flag: it never
  reads as raised, and raising it changes nothing.

  Two handles, perhaps on two boards, are `Alike` if they read alike and go on
  to do so as long as both flags are raised and lowered together.
-/
import Annealing.Flags

namespace Annealing.FlagBoard

/-! ## §1. One board -/

/-- What a handle reads after one flag has been raised. -/
theorem isAborted_abort (board : FlagBoard) (h k : AbortHandle) :
    (board.abort h).isAborted k
      = (board.isAborted k || (decide (k = h) && decide (h.index < board.raised.size))) := by
  obtain ⟨i⟩ := h
  obtain ⟨j⟩ := k
  simp only [isAborted, abort, Array.getD_eq_getD_getElem?, Array.getElem?_setIfInBounds,
    AbortHandle.mk.injEq]
  by_cases hij : i = j
  · subst hij
    by_cases hi : i < board.raised.size <;> simp [hi]
  · rw [if_neg hij]
    simp [Ne.symm hij]

/-- A flag that has been raised reads as raised, if it has its place. -/
theorem isAborted_abort_self {board : FlagBoard} {h : AbortHandle}
    (placed : h.index < board.raised.size) : (board.abort h).isAborted h = true := by
  simp [isAborted_abort, placed]

theorem isAborted_abort_of_ne (board : FlagBoard) {h k : AbortHandle} (hk : k ≠ h) :
    (board.abort h).isAborted k = board.isAborted k := by
  simp [isAborted_abort, hk]

theorem isAborted_abort_of_isAborted {board : FlagBoard} {k : AbortHandle}
    (hk : board.isAborted k = true) (h : AbortHandle) :
    (board.abort h).isAborted k = true := by
  rw [isAborted_abort, hk, Bool.true_or]

/-- **Raising flags lowers none.** -/
theorem isAborted_abortAll_of_isAborted {k : AbortHandle} (hs : List AbortHandle) :
    ∀ {board : FlagBoard}, board.isAborted k = true →
      (board.abortAll hs).isAborted k = true := by
  induction hs with
  | nil => intro board hk; exact hk
  | cons h hs ih =>
      intro board hk
      show ((board.abort h).abortAll hs).isAborted k = true
      exact ih (isAborted_abort_of_isAborted hk h)

theorem size_abort (board : FlagBoard) (h : AbortHandle) :
    (board.abort h).raised.size = board.raised.size :=
  Array.size_setIfInBounds

theorem size_abortAll (hs : List AbortHandle) :
    ∀ board : FlagBoard, (board.abortAll hs).raised.size = board.raised.size := by
  induction hs with
  | nil => intro board; rfl
  | cons h hs ih =>
      intro board
      show ((board.abort h).abortAll hs).raised.size = _
      rw [ih, size_abort]

/-- What a handle reads after some flags have been raised. -/
theorem isAborted_abortAll (hs : List AbortHandle) (k : AbortHandle) :
    ∀ board : FlagBoard, (board.abortAll hs).isAborted k
      = (board.isAborted k || (decide (k ∈ hs) && decide (k.index < board.raised.size))) := by
  induction hs with
  | nil => intro board; simp [abortAll]
  | cons h hs ih =>
      intro board
      show ((board.abort h).abortAll hs).isAborted k = _
      rw [ih, isAborted_abort, size_abort]
      by_cases hk : k = h
      · subst hk
        by_cases hplace : k.index < board.raised.size <;> simp [hplace]
      · simp [hk]

theorem size_clear (board : FlagBoard) (h : AbortHandle) :
    (board.clear h).raised.size = board.raised.size :=
  Array.size_setIfInBounds

/-- What a handle reads after one flag has been lowered. -/
theorem isAborted_clear (board : FlagBoard) (h k : AbortHandle) :
    (board.clear h).isAborted k = (board.isAborted k && !decide (k = h)) := by
  obtain ⟨i⟩ := h
  obtain ⟨j⟩ := k
  simp only [isAborted, clear, Array.getD_eq_getD_getElem?, Array.getElem?_setIfInBounds,
    AbortHandle.mk.injEq]
  by_cases hij : i = j
  · subst hij
    by_cases hi : i < board.raised.size <;> simp [hi]
  · rw [if_neg hij]
    simp [Ne.symm hij]

/-- A flag that has been lowered reads as lowered. -/
theorem isAborted_clear_self (board : FlagBoard) (h : AbortHandle) :
    (board.clear h).isAborted h = false := by
  simp [isAborted_clear]

/-- A handle without a place on the board reads as lowered. -/
theorem isAborted_of_size_le {board : FlagBoard} {k : AbortHandle}
    (h : board.raised.size ≤ k.index) : board.isAborted k = false := by
  unfold isAborted
  rw [Array.getD_eq_getD_getElem?, Array.getElem?_eq_none h]
  rfl

theorem size_create (board : FlagBoard) : board.create.2.raised.size = board.raised.size + 1 :=
  Array.size_push false

/-- A new flag is not raised, and the others read as before. -/
theorem isAborted_create (board : FlagBoard) (k : AbortHandle) :
    board.create.2.isAborted k = board.isAborted k := by
  by_cases hk : board.raised.size ≤ k.index
  · rw [isAborted_of_size_le hk]
    simp only [isAborted, create, Array.getD_eq_getD_getElem?, Array.getElem?_push]
    by_cases hnew : k.index = board.raised.size
    · rw [if_pos hnew]
      rfl
    · rw [if_neg hnew, Array.getElem?_eq_none hk]
      rfl
  · simp only [isAborted, create, Array.getD_eq_getD_getElem?, Array.getElem?_push]
    rw [if_neg (by omega)]

/-! ## §2. Two boards -/

/-- The flag of `h` on one board and that of `h'` on another read the same, and both have a
place on their board or neither has. -/
structure Alike (board : FlagBoard) (h : AbortHandle) (board' : FlagBoard) (h' : AbortHandle) :
    Prop where
  raised : board'.isAborted h' = board.isAborted h
  placed : h'.index < board'.raised.size ↔ h.index < board.raised.size

namespace Alike

variable {board board' : FlagBoard} {h h' : AbortHandle}

theorem abort (a : board.Alike h board' h') {k k' : AbortHandle} (same : k' = h' ↔ k = h) :
    (board.abort k).Alike h (board'.abort k') h' where
  raised := by
    rw [isAborted_abort, isAborted_abort, a.raised]
    by_cases hk : k = h
    · -- both are raised, if they have a place
      have hk' := same.mpr hk
      subst hk hk'
      simp [a.placed]
    · rw [decide_eq_false (Ne.symm hk), decide_eq_false (Ne.symm (mt same.mp hk))]
      simp
  placed := by
    rw [size_abort, size_abort]
    exact a.placed

/-- **Raising flags keeps two handles alike** if either both are among those raised or
neither. -/
theorem abortAll (a : board.Alike h board' h') {hs hs' : List AbortHandle}
    (same : h' ∈ hs' ↔ h ∈ hs) : (board.abortAll hs).Alike h (board'.abortAll hs') h' where
  raised := by
    rw [isAborted_abortAll, isAborted_abortAll, a.raised]
    simp [same, a.placed]
  placed := by
    rw [size_abortAll, size_abortAll]
    exact a.placed

theorem clear (a : board.Alike h board' h') : (board.clear h).Alike h (board'.clear h') h' where
  raised := by rw [isAborted_clear_self, isAborted_clear_self]
  placed := by
    rw [size_clear, size_clear]
    exact a.placed

theorem refl (board : FlagBoard) (h : AbortHandle) : board.Alike h board h :=
  ⟨rfl, .rfl⟩

end Alike

end Annealing.FlagBoard
