import Pathwise.Step.Assigning
import Pathwise.Step.Branching
import Pathwise.Step.Calling
import Pathwise.Step.Computing

/-!
# Visiting an instruction

A state visits an instruction and goes on as the items that come out: none if the
path ends there, several if the instruction splits the state.
-/

namespace Pathwise

/-- The items that come out of an instruction. -/
def Step.perform (ctx : Context) (index : Nat) (s : State) : Instr → Step (List Item)
  | .push v anchor => return [next index (← pushResult anchor v s)]
  | .pop => return [next index (← pop index s).2]
  | .dup => return [next index (s.push (← peek index s))]
  | .goto target => return [⟨target, s, 0⟩]
  | .branch target negated anchor => branch index target negated anchor s
  | .not anchor => not index anchor s
  | .ret => return []
  | .endOfInitializer isStatic => do
    emit (.initializerEnd isStatic s)
    return [next index s]
  | .boolean op anchor => boolean index op anchor s
  | .arithmetic op w => arithmetic index op w s
  | .negate w => negate index w s
  | .concat => concat ctx index s
  | .assign assigned isInitializer array anchor => assign index assigned isInitializer array anchor s
  | .flushVariable v => return [next index (s.flushVariable (← arena) v)]
  | .flushFields => return [next index (s.flushFields (← arena))]
  | .escape vs => return [next index (← escape vs s)]
  | .call c => call ctx index c s
  | .methodRef _ interface anchor => methodRef index interface anchor s
  | .closure ids => do
    record fun r => ids.foldl (·.addClosure · s.snapshot) r
    return [next index s]
  | .transfer t => return dispatch ctx s t false
  | .newArray t => newArray index t s
  | .arrayAccess fallback outOfBounds anchor =>
    arrayAccess ctx index fallback outOfBounds anchor s
  | .length l => length index l s
  | .cast t convertible onFail anchor => cast ctx index t convertible onFail anchor s
  | .instanceOf isClassObject anchor => instanceOf index isClassObject anchor s
  | .checkNotNull kind onNull anchor => checkNotNull ctx index kind onNull anchor s
  | .ensure rel expected onFail makeEphemeral anchor =>
    ensure ctx index rel expected onFail makeEphemeral anchor s

/-- The items that come out of the instruction at an index. A path that has come to
the end of the flow ends there. -/
def Step.visit (ctx : Context) (flow : Flow) (index : Nat) (s : State) : Step (List Item) :=
  match flow.get? index with
  | none => return []
  | some i => perform ctx index s i

end Pathwise
