import Pathwise.Run.Outcome
import Pathwise.Step.Visit

/-!
# Exploration

Paths are explored breadth first and never merged. A round takes the first queued
item, performs its instruction and queues what comes out. At branching instructions
the states that were explored are remembered and an equal one is not explored again,
which is what ends loops. The number of states remembered at one instruction is
bounded.

`Exploration.round` is one round; `Exploration.explore` performs at most a given
number of them.
-/

namespace Pathwise

/-- A run under way. -/
structure Exploration where
  /-- The items still to be explored, the first one first. -/
  queue : List Item
  /-- The states explored at each branching instruction. -/
  seen : OrdMap Nat (List State)
  session : Session

namespace Exploration

/-- A run that starts at the first instruction. -/
def start (s : State) (σ : Session) : Exploration := ⟨[⟨0, s, 0⟩], ∅, σ⟩

/-- The states explored at an instruction. -/
def seenAt (x : Exploration) (index : Nat) : List State := (x.seen.get? index).getD []

/-- What comes of a round: the run goes on or has ended. -/
inductive Progress where
  | going (x : Exploration)
  | ended (outcome : Outcome) (x : Exploration)

/-- The run with one more line in its log. -/
def logging (x : Exploration) (e : LogEntry) : Exploration :=
  { x with session := { x.session with log := x.session.log.push e } }

/-- Whether an item comes to a branching instruction in a state explored there. -/
def isExplored (x : Exploration) (flow : Flow) (i : Item) : Bool :=
  flow.branchesAt i.index && (x.seenAt i.index).contains i.state

/-- Queues what came out of an instruction, at a distance, unless it is explored. -/
def enqueue (x : Exploration) (flow : Flow) (distance : Nat) (items : List Item) : Exploration :=
  let new := items.filter fun i => !x.isExplored flow i
  { x with queue := x.queue ++ new.map fun i => { i with distance := distance } }

/-- Performs the instruction of an item. -/
def perform (ctx : Context) (flow : Flow) (i : Item) (x : Exploration) : Progress :=
  match Step.visit ctx flow i.index i.state x.session with
  | .ok items σ => .going (enqueue { x with session := σ } flow (i.distance + 1) items)
  | .error e σ => .ended .aborted (logging { x with session := σ } (.analysisAborted e))

/-- Remembers the state of an item at a branching instruction and performs it, unless
that was done before or too many states were. -/
def performNew (ctx : Context) (flow : Flow) (i : Item) (x : Exploration) : Progress :=
  let seen := x.seenAt i.index
  -- an equal item may have been taken up while this one was queued
  if seen.contains i.state then .going x
  else if ctx.config.maxStatesPerBranch < seen.length then
    .ended .tooComplex (x.logging (.tooManyStates ctx.config.maxStatesPerBranch i.index))
  else perform ctx flow i { x with seen := x.seen.insert i.index (i.state :: seen) }

/-- Takes up an item that has left the queue. -/
def takeUp (ctx : Context) (flow : Flow) (i : Item) (x : Exploration) : Progress :=
  match flow.get? i.index with
  | none => .going x
  | some instr =>
    let x := x.logging (.visiting i.index instr i.state)
    if instr.isBranching then performNew ctx flow i x else perform ctx flow i x

/-- One round. A run is cancelled as soon as `cancelled` holds of the number of events
reported so far. -/
def round (ctx : Context) (flow : Flow) (cancelled : Nat → Bool) (x : Exploration) : Progress :=
  match x.queue with
  | [] => .ended .ok x
  | i :: queue =>
    if cancelled x.session.events.size then
      .ended .aborted (x.logging (.cancelled (queue.length + 1)))
    else takeUp ctx flow i { x with queue := queue }

/-- At most `n` rounds: the outcome if the run has ended by then. -/
def explore (ctx : Context) (flow : Flow) (cancelled : Nat → Bool) :
    Nat → Exploration → Option (Outcome × Exploration)
  | 0, _ => none
  | n + 1, x =>
    match x.round ctx flow cancelled with
    | .going x => explore ctx flow cancelled n x
    | .ended outcome x => some (outcome, x)

end Exploration

end Pathwise
