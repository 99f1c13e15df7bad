import Pathwise.Flow.Instr

/-!
# Flows

A flow is the analysed code. It is *well shaped* if every jump leads to an
instruction or to the end, no instruction takes more values from the stack than
lie there, and the stack has one depth at each instruction, however that is
reached. `Flow.depths` finds the depths, starting at the first instruction with
an empty stack, or the first fault on the way.
-/

namespace Pathwise

/-- A fault of the analysed code. -/
inductive FlowError where
  /-- An instruction takes a value from an empty stack. -/
  | stackUnderflow (index : Nat)
  /-- A jump leads outside of the flow. -/
  | invalidJump (index target : Nat)
  /-- Two paths reach an instruction with different stack depths. -/
  | stackMismatch (index expected found : Nat)
  /-- There are no instructions. -/
  | emptyFlow
  deriving DecidableEq, Repr

/-- The wording of a fault. -/
def FlowError.message : FlowError → String
  | stackUnderflow i => "stack underflow at instruction " ++ toString i
  | invalidJump i t => "instruction " ++ toString i ++ " jumps to invalid target " ++ toString t
  | stackMismatch i e f =>
    "inconsistent stack depth at instruction " ++ toString i ++ ": expected " ++ toString e ++
      ", found " ++ toString f
  | emptyFlow => "control flow has no instructions"

/-- The analysed code. -/
structure Flow where
  instrs : Array Instr
  /-- The parameters that are not null at the start. -/
  notNullParams : List ValueId
  deriving DecidableEq

namespace Flow

instance : Inhabited Flow := ⟨⟨#[], []⟩⟩

/-- The number of instructions. -/
def size (flow : Flow) : Nat := flow.instrs.size

/-- The instruction at an index. -/
def get? (flow : Flow) (index : Nat) : Option Instr := flow.instrs[index]?

/-- Whether a branching instruction stands at an index. -/
def branchesAt (flow : Flow) (index : Nat) : Bool := (flow.get? index).any (·.isBranching)

/-- The number of branching instructions. -/
def branchCount (flow : Flow) : Nat := flow.instrs.toList.countP (·.isBranching)

/-- The closures that the flow makes. -/
def closureIds (flow : Flow) : OrdSet ClosureId :=
  .ofList <| flow.instrs.toList.flatMap fun
    | .closure ids => ids
    | _ => []

/-- A flow as it is printed, an instruction a line. -/
def text (flow : Flow) : String :=
  String.join <|
    flow.instrs.toList.zipIdx.map fun p => toString p.2 ++ ": " ++ p.1.text ++ "\n"

/-! ## Stack depths -/

/-- The stack depths found so far, and the instructions whose successors are still
to be looked at. -/
structure Depths where
  known : OrdMap Nat Nat
  todo : List Nat

/-- The ways on from an instruction, with the stack depth there: the values left and
pushed are kept by a successor and discarded by a transfer. -/
def edges (index depth : Nat) (i : Instr) : List (Nat × Nat) :=
  -- successors come before transfers: the first fault on the way is reported
  (i.successors index).map (·, depth - i.pops + i.pushes) ++ i.transferTargets.map (·, 0)

/-- Adds what one way on tells about its target. The end has no depth. -/
def follow (flow : Flow) (index : Nat) (edge : Nat × Nat) (d : Depths) :
    Except FlowError Depths :=
  if flow.size < edge.1 then .error (.invalidJump index edge.1)
  else if edge.1 = flow.size then .ok d
  else
    match d.known.get? edge.1 with
    | none => .ok ⟨d.known.insert edge.1 edge.2, d.todo ++ [edge.1]⟩
    | some found => if found = edge.2 then .ok d else .error (.stackMismatch edge.1 edge.2 found)

/-- Adds what all ways on tell, one after the other. -/
def followAll (flow : Flow) (index : Nat) : List (Nat × Nat) → Depths → Except FlowError Depths
  | [], d => .ok d
  | e :: es, d =>
    match flow.follow index e d with
    | .ok d => flow.followAll index es d
    | .error e => .error e

/-- Looks at the successors of one instruction whose depth is known. -/
def settle (flow : Flow) (index : Nat) (d : Depths) : Except FlowError Depths :=
  match flow.get? index with
  | none => .ok d
  | some i =>
    let depth := (d.known.get? index).getD 0
    if depth < i.pops then .error (.stackUnderflow index)
    else flow.followAll index (edges index depth i) d

/-- Looks at the successors of at most `n` instructions, first found first. -/
def depthsUpTo (flow : Flow) : Nat → Depths → Except FlowError Depths
  | 0, d => .ok d
  | n + 1, d =>
    match d.todo with
    | [] => .ok d
    | index :: todo =>
      match flow.settle index { d with todo := todo } with
      | .ok d => flow.depthsUpTo n d
      | .error e => .error e

/-- The stack depths of all instructions that can be reached, or the first fault. An
instruction is found once, so there are no more rounds than instructions. -/
def depths (flow : Flow) : Except FlowError (OrdMap Nat Nat) :=
  if flow.size = 0 then .error .emptyFlow
  else (flow.depthsUpTo flow.size ⟨OrdMap.empty.insert 0 0, [0]⟩).map (·.known)

/-- Checks that the flow is well shaped. -/
def validate (flow : Flow) : Except FlowError Unit := flow.depths.map fun _ => ()

end Flow

end Pathwise
