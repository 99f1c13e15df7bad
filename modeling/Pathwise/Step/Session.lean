import Pathwise.Call.Metadata
import Pathwise.Config
import Pathwise.Flow.Basic
import Pathwise.Report.Problem
import Pathwise.Run.Log
import Pathwise.State.Narrow
import Pathwise.State.Update

/-!
# Sessions

What the steps of one run share and add to: the arena of values, the record of
what was found on the way, the events reported and the log. A step is a
computation on a session that may find a fault of the flow; the session keeps
what was added before the fault.
-/

namespace Pathwise

/-- The boolean outcomes that a branching instruction had on real paths. -/
structure Reach where
  trueReached : Bool
  falseReached : Bool
  deriving DecidableEq, Repr

namespace Reach

/-- No outcome. -/
def none : Reach := ⟨false, false⟩

/-- One more outcome, where no boolean stands for both. -/
def add (r : Reach) : Option Bool → Reach
  | some true => { r with trueReached := true }
  | some false => { r with falseReached := true }
  | Option.none => ⟨true, true⟩

end Reach

/-- What a run finds beside the paths. -/
structure Record where
  /-- The outcomes of each branching instruction. -/
  reach : OrdMap Nat Reach
  /-- The type tests that can tell something on some path. -/
  usefulInstanceofs : OrdSet Nat
  /-- The states found by the closures that are made. -/
  closures : OrdMap ClosureId (List State)
  deriving DecidableEq

namespace Record

/-- Nothing was found. -/
def empty : Record := ⟨∅, ∅, ∅⟩

instance : Inhabited Record := ⟨empty⟩

/-- The record with an outcome of a branching instruction. -/
def addReach (r : Record) (index : Nat) (outcome : Option Bool) : Record :=
  { r with reach := r.reach.insert index (((r.reach.get? index).getD .none).add outcome) }

/-- The states found by a closure. -/
def closureStates (r : Record) (id : ClosureId) : List State := (r.closures.get? id).getD []

/-- The record with a state found by a closure, unless it was found before. -/
def addClosure (r : Record) (id : ClosureId) (s : State) : Record :=
  if (r.closureStates id).contains s then r
  else { r with closures := r.closures.insert id (r.closureStates id ++ [s]) }

end Record

/-- What the steps of one run share. -/
structure Session where
  arena : Arena
  record : Record
  events : Array Event
  log : Array LogEntry

/-- A session with the values of an arena. -/
def Session.start (a : Arena) : Session := ⟨a, .empty, #[], #[]⟩

instance : Inhabited Session := ⟨.start .new⟩

/-- What does not change during a run. -/
structure Context where
  config : Config
  metadata : Metadata
  handler : TransferHandler

/-- A step of the analysis. -/
abbrev Step := EStateM FlowError Session

namespace Step

/-- The values of the session. -/
def arena : Step Arena := return (← get).arena

/-- Asks the arena for a value. -/
def intern (f : Arena → ValueId × Arena) : Step ValueId :=
  modifyGet fun σ => let r := f σ.arena; (r.1, { σ with arena := r.2 })

/-- Asks the arena for a value that it may refuse to make. -/
def intern? (f : Arena → Option (ValueId × Arena)) : Step (Option ValueId) :=
  modifyGet fun σ =>
    match f σ.arena with
    | some (v, a) => (some v, { σ with arena := a })
    | none => (none, σ)

/-- Reports an event. -/
def emit (e : Event) : Step Unit := modify fun σ => { σ with events := σ.events.push e }

/-- Adds a line to the log. -/
def log (e : LogEntry) : Step Unit := modify fun σ => { σ with log := σ.log.push e }

/-- Changes the record. -/
def record (f : Record → Record) : Step Unit := modify fun σ => { σ with record := f σ.record }

/-- Takes the value on top of the stack. -/
def pop (index : Nat) (s : State) : Step (ValueId × State) :=
  match s.pop? with
  | some r => pure r
  | none => throw (.stackUnderflow index)

/-- The value on top of the stack. -/
def peek (index : Nat) (s : State) : Step ValueId :=
  match s.peek? with
  | some v => pure v
  | none => throw (.stackUnderflow index)

/-- The effective fact of a value. -/
def fact (s : State) (v : ValueId) : Step Fact := return s.fact (← arena) v

/-- Assumes a condition. -/
def apply (s : State) (c : Condition) : Step Narrowing := return s.apply (← arena) c

/-- The condition that two values are in a relation. -/
def condition (left : ValueId) (rel : Relation) (right : ValueId) : Step Condition :=
  return .of (← arena) left rel right

/-- Drops the locality of a value, and gives the value to use in its place. -/
def dropLocality (s : State) (v : ValueId) : Step (State × ValueId) :=
  modifyGet fun σ =>
    let r := s.dropLocality σ.arena v
    ((r.1, r.2.1), { σ with arena := r.2.2 })

/-- Records an outcome of a branching instruction. A path that was taken only because
a failure was assumed has none. -/
def reach (index : Nat) (s : State) (outcome : Option Bool) : Step Unit :=
  if s.isEphemeral then pure () else record (·.addReach index outcome)

/-- Pushes the result of an expression. -/
def pushResult (anchor : Option Anchor) (v : ValueId) (s : State) : Step State := do
  if let some a := anchor then emit (.push v a s)
  return s.push v

/-- Reports which way a branch goes. -/
def reportJump (anchor : Option Anchor) (taken : Bool) : Step Unit := do
  if let some a := anchor then emit (.jump a taken)

/-- Reports the check of a problem on a value. -/
def report (problem : Option Problem) (v : ValueId) (verdict : Verdict) (s : State) :
    Step Unit := do
  if let some p := problem then emit (.condition p v (← fact s v) verdict s)

/-- The item at the next instruction. -/
def next (index : Nat) (s : State) : Item := ⟨index + 1, s, 0⟩

/-- Pushes the result of a branching instruction, where no boolean stands for an
outcome that is not known. -/
def booleanResult (index : Nat) (anchor : Option Anchor) (s : State) (outcome : Option Bool) :
    Step Item := do
  let v ←
    match outcome with
    | some b => intern (·.bool b)
    | none => pure Arena.unknown
  reach index s outcome
  return next index (← pushResult anchor v s)

/-- The items at which a state goes on after a transfer. -/
def dispatch (ctx : Context) (s : State) (t : Transfer) (ephemeral : Bool) : List Item :=
  ctx.handler t (if ephemeral then s.markEphemeral else s)

end Step

end Pathwise
