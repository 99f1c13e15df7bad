import Pathwise.State.Basic

/-!
# Control transfers

Exceptions and jumps out of nested blocks leave the order of instructions and
discard the operand stack. A transfer says what happens, and a handler says where
the state goes on. The usual handler knows the catch clauses listed with a throw:
a clause for a supertype of the exception catches it for sure and ends the search,
one for a subtype may catch it.
-/

namespace Pathwise

/-- A state about to be continued at an instruction. -/
structure Item where
  index : Nat
  state : State
  /-- The number of instructions on the way from the start. -/
  distance : Nat
  deriving DecidableEq

namespace Item

/-- An item as it is printed. -/
def text (i : Item) : String :=
  "#" ++ toString i.index ++ " " ++ i.state.text ++ " (distance " ++ toString i.distance ++ ")"

end Item

/-- A place where an exception may be caught. -/
structure CatchClause where
  caught : TypeDesc
  target : Nat
  deriving DecidableEq

/-- A jump that discards the operand stack. -/
inductive Transfer where
  /-- Leave the flow. -/
  | exit
  | goto (target : Nat)
  /-- Throw an exception, with the clauses that may catch it, innermost first. -/
  | throw (exception : TypeDesc) (catches : List CatchClause)
  deriving DecidableEq

namespace Transfer

/-- The instructions at which the transfer may go on. -/
def targets : Transfer → List Nat
  | exit => []
  | goto t => [t]
  | throw _ cs => cs.map (·.target)

/-- A transfer as it is printed. -/
def text : Transfer → String
  | exit => "exit"
  | goto t => "goto " ++ toString t
  | throw e cs =>
    "throw " ++ e.name ++
      String.join (cs.map fun c => " [" ++ c.caught.name ++ " -> " ++ toString c.target ++ "]")

/-- The items at the clauses that may catch an exception. -/
def caughtAt (s : State) (exception : TypeDesc) : List CatchClause → List Item
  | [] => []
  | c :: cs =>
    if exception.isSubtypeOf c.caught then [⟨c.target, s, 0⟩]
    else if c.caught.isSubtypeOf exception then ⟨c.target, s, 0⟩ :: caughtAt s exception cs
    else caughtAt s exception cs

end Transfer

/-- Says where a state goes on after a transfer. -/
abbrev TransferHandler := Transfer → State → List Item

/-- The handler that knows the clauses listed with a throw. -/
def TransferHandler.usual : TransferHandler := fun t s =>
  let s := s.clearStack
  match t with
  | .exit => []
  | .goto target => [⟨target, s, 0⟩]
  | .throw e cs => Transfer.caughtAt s e cs

/-- The handler that ends every path at a transfer. -/
def TransferHandler.drop : TransferHandler := fun _ _ => []

end Pathwise
