/-
  Annealing.Flags
  ───────────────
  **STOP REQUESTS THAT SEVERAL PARTIES SHARE.**

  A flag is raised to ask a running search to stop, and stays raised until a
  reset lowers it.  Handles name flags: copies of a handle share its flag, and
  two annealers built on one handle obey the same request.  All flags stand on
  one board.
-/
namespace Annealing

/-- The name of one flag on a board. -/
structure AbortHandle where
  /-- The flag's position on its board. -/
  index : Nat
  deriving Repr, DecidableEq

/-- All flags, each raised or not. -/
structure FlagBoard where
  /-- The flags in order of creation; `true` is raised. -/
  raised : Array Bool
  deriving Repr, DecidableEq

namespace FlagBoard

/-- The board without flags. -/
def empty : FlagBoard := ⟨#[]⟩

/-- A new flag, not raised, and its handle. -/
def create (board : FlagBoard) : AbortHandle × FlagBoard :=
  (⟨board.raised.size⟩, ⟨board.raised.push false⟩)

/-- Is the handle's flag raised? -/
def isAborted (board : FlagBoard) (h : AbortHandle) : Bool :=
  board.raised.getD h.index false

/-- Raise the handle's flag. -/
def abort (board : FlagBoard) (h : AbortHandle) : FlagBoard :=
  ⟨board.raised.setIfInBounds h.index true⟩

/-- Lower the handle's flag. -/
def clear (board : FlagBoard) (h : AbortHandle) : FlagBoard :=
  ⟨board.raised.setIfInBounds h.index false⟩

/-- Raise the flags of a list of handles. -/
def abortAll (board : FlagBoard) (hs : List AbortHandle) : FlagBoard :=
  hs.foldl abort board

end FlagBoard

end Annealing
