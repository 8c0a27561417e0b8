import Mathlib.Init

/-!
# Atomic writes

`internal/atomicfile`: a write replaces the file whole, or leaves the old one in place.  One whose
directory does not sync is in place and answered with an error.
-/

set_option autoImplicit false

namespace Iceslab.Agent

inductive Outcome
  | done
  | failed
  | landed
deriving DecidableEq

/-- The new content is in place. -/
def Outcome.lands (o : Outcome) : Bool := o ≠ .failed

end Iceslab.Agent
