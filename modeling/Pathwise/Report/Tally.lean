import Pathwise.Ordered.Map
import Pathwise.Report.Problem
import Pathwise.Run.Outcome

/-!
# Tallies

A problem is checked on every path that comes to its place. A tally counts the verdicts; the
severity of a problem follows from which of them occurred at all, so the order in which paths
were explored has no influence on it.
-/

namespace Pathwise

/-- How bad a problem is. -/
inductive Severity where
  /-- Every path that comes to it fails. -/
  | definite
  /-- Some path fails, or a value declared to be nullable may. -/
  | possible
  deriving DecidableEq, Repr

/-- How often each verdict occurred on one problem. -/
structure Tally where
  alwaysFails : Nat
  neverFails : Nat
  unsure : Nat
  /-- The unsure verdicts on nullness that were about a nullable value. -/
  unsureNullable : Nat
  deriving DecidableEq, Repr

namespace Tally

/-- No verdict occurred. -/
def none : Tally := ⟨0, 0, 0, 0⟩

/-- Whether an unsure verdict is about a value declared to be nullable. -/
def isNullable (p : Problem) (f : Fact) : Bool := p.isNullness && f.nullness == .nullable

/-- The tally with one more verdict. -/
def add (t : Tally) (p : Problem) (f : Fact) : Verdict → Tally
  | .alwaysFails => { t with alwaysFails := t.alwaysFails + 1 }
  | .neverFails => { t with neverFails := t.neverFails + 1 }
  | .unsure =>
    { t with
      unsure := t.unsure + 1
      unsureNullable := t.unsureNullable + if isNullable p f then 1 else 0 }

/-- The severity that follows from the verdicts. -/
def severity? (t : Tally) : Option Severity :=
  if 0 < t.alwaysFails ∧ t.neverFails = 0 ∧ t.unsure = 0 then some .definite
  else if 0 < t.alwaysFails ∨ 0 < t.unsureNullable then some .possible
  else Option.none

end Tally

/-- The tallies of all problems that were checked. -/
structure Tallies where
  tallies : OrdMap Problem Tally

namespace Tallies

/-- Nothing was checked. -/
def empty : Tallies := ⟨∅⟩

/-- The tallies after one more check. -/
def report (t : Tallies) (p : Problem) (f : Fact) (v : Verdict) : Tallies :=
  ⟨t.tallies.insert p (((t.tallies.get? p).getD .none).add p f v)⟩

/-- The tallies after one more event. -/
def observe (t : Tallies) : Event → Tallies
  | .condition p _ f v _ => t.report p f v
  | _ => t

/-- The tallies after a sequence of events. -/
def collect (events : List Event) : Tallies := events.foldl observe empty

/-- Whether a problem was checked. -/
def wasChecked (t : Tallies) (p : Problem) : Bool := t.tallies.contains p

/-- The severity of a problem. -/
def severity? (t : Tallies) (p : Problem) : Option Severity :=
  (t.tallies.get? p).bind (·.severity?)

/-- Every problem that has a severity, in the order of problems. -/
def problems (t : Tallies) : List (Problem × Severity) :=
  t.tallies.keys.filterMap fun p => (t.severity? p).map (p, ·)

end Tallies

/-- What a caller may trust: the problems of a run that explored everything. -/
def diagnostics (outcome : Outcome) (t : Tallies) : List (Problem × Severity) :=
  if outcome = .ok then t.problems else []

/-- The severity of a problem among the diagnostics. -/
def severityIn (diagnostics : List (Problem × Severity)) (p : Problem) : Option Severity :=
  OrdMap.find p diagnostics

end Pathwise
