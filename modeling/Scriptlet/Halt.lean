import Scriptlet.Error

/-!
# Stopping

Simplifying and running a program are given a number of steps. They end before the
result is reached either by an error or because the steps are used up, and the two
are told apart: with more steps an error stays the same error.
-/

namespace Scriptlet

/-- Why there is no result. -/
inductive Halt
  | error (e : Error)
  /-- The steps that were given are used up. -/
  | exhausted
  deriving DecidableEq, Repr

end Scriptlet
