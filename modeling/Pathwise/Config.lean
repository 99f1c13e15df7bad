/-!
# Configuration

Bounds and choices of an analysis. The bounds trade precision for an end: the
first one to be passed ends a run as too complex.
-/

namespace Pathwise

/-- Bounds and choices of an analysis. -/
structure Config where
  /-- Flows with more branching instructions are not analysed. -/
  maxBranches : Nat
  /-- How many states are explored at one branching instruction. -/
  maxStatesPerBranch : Nat
  /-- How long a run may take by the clock, in milliseconds. The analysis itself has
  no clock: whoever runs it enforces the limit. -/
  timeLimitMs : Nat
  /-- Whether the clock is ignored. -/
  deterministic : Bool
  /-- How many states the contracts of one call may make. -/
  contractLimit : Nat
  /-- Whether a path ends where it dereferences a value known to be null. -/
  stopOnNullDereference : Bool
  /-- The longest string constant that a concatenation makes, in 16-bit units. -/
  maxStringLength : Nat
  deriving DecidableEq, Repr

/-- The configuration unless another is asked for. -/
def Config.usual : Config where
  maxBranches := 80
  maxStatesPerBranch := 300
  timeLimitMs := 10000
  deterministic := false
  contractLimit := 100
  stopOnNullDereference := false
  maxStringLength := 1024

instance : Inhabited Config := ⟨.usual⟩

end Pathwise
