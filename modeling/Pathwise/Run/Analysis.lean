import Pathwise.Flow.Graph
import Pathwise.Report.Tally
import Pathwise.Run.Exploration

/-!
# Analysis of a flow

The flow is checked, the parameters that are not null are narrowed at the start, and
every feasible path is explored. The analysis tells how that ended, and what was
found on the way.
-/

namespace Pathwise

/-- What an analysis found. -/
structure Analysis where
  outcome : Outcome
  /-- The flow that was analysed, if there was one. -/
  flow : Option Flow
  session : Session

namespace Analysis

/-- The state at the start of a flow, or the parameter that makes it infeasible. -/
def entry (a : Arena) : List ValueId → State → Except ValueId State
  | [], s => .ok s
  | v :: vs, s =>
    let n := s.meetFact a v .notNull
    if n.feasible then entry a vs n.state else .error v

/-- The session with one more line in its log. -/
def logging (σ : Session) (e : LogEntry) : Session := { σ with log := σ.log.push e }

/-- Explores a flow that was found to be well shaped. -/
def explore (ctx : Context) (cancelled : Nat → Bool) (rounds : Nat) (flow : Flow) (σ : Session) :
    Option Analysis :=
  match entry σ.arena flow.notNullParams .initial with
  | .error v => some ⟨.ok, some flow, logging σ (.paramAlwaysNull v)⟩
  | .ok s =>
    (Exploration.explore ctx flow cancelled rounds (.start s σ)).map fun r =>
      ⟨r.1, some flow, r.2.session⟩

/-- Analyses a flow with the values of an arena in at most the given number of rounds.
Without a flow there is nothing to do. -/
def run (ctx : Context) (cancelled : Nat → Bool) (rounds : Nat) (a : Arena) (flow : Option Flow) :
    Option Analysis :=
  let σ := Session.start a
  match flow with
  | none => some ⟨.notApplicable, none, logging σ .nothingToAnalyze⟩
  | some flow =>
    if ctx.config.maxBranches < flow.branchCount then
      some ⟨.tooComplex, some flow,
        logging σ (.tooManyBranches flow.branchCount ctx.config.maxBranches)⟩
    else
      match flow.validate with
      | .error e => some ⟨.aborted, some flow, logging σ (.malformedFlow e)⟩
      | .ok _ => explore ctx cancelled rounds flow (logging σ (.analyzing flow))

/-! ## Results -/

/-- The instructions with a place in the source that had the given outcomes. -/
def indicesReaching (flow : Flow) (r : Record) (reach : Reach) : OrdSet Nat :=
  OrdSet.ofList <|
    (r.reach.entries.filter fun e =>
      decide (e.2 = reach) && ((flow.get? e.1).bind (·.anchor?)).isSome).map (·.1)

/-- The branching instructions with a place in the source whose outcome never varied.
Only a run that explored everything tells. -/
def constantBranches (x : Analysis) : ConstantBranches :=
  match x.outcome, x.flow with
  | .ok, some flow =>
    ⟨indicesReaching flow x.session.record ⟨true, false⟩,
      indicesReaching flow x.session.record ⟨false, true⟩⟩
  | _, _ => default

/-- The tallies of all problems that were checked. -/
def tallies (x : Analysis) : Tallies := .collect x.session.events.toList

/-- The problems that a caller may trust. -/
def problems (x : Analysis) : List (Problem × Severity) := diagnostics x.outcome x.tallies

/-- The flow as a graph with its constant branches. -/
def graph? (x : Analysis) (style : GraphStyle) : Option String :=
  x.flow.map fun flow => flow.graph style x.constantBranches

end Analysis

end Pathwise
