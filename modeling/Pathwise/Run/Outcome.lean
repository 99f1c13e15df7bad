/-!
# Outcomes

How a run of the analysis ended. Only `ok` promises that every path was explored.
-/

namespace Pathwise

/-- How a run ended. -/
inductive Outcome where
  /-- Every feasible path was explored. -/
  | ok
  /-- A bound was passed. -/
  | tooComplex
  /-- The run was cancelled, or the flow is not well shaped. -/
  | aborted
  /-- There was nothing to analyse. -/
  | notApplicable
  deriving DecidableEq, Repr

/-- An outcome as it is printed. -/
def Outcome.text : Outcome → String
  | ok => "OK"
  | tooComplex => "TOO_COMPLEX"
  | aborted => "ABORTED"
  | notApplicable => "NOT_APPLICABLE"

end Pathwise
