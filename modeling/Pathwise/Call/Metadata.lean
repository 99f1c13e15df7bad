import Pathwise.Call.Contract
import Pathwise.Flow.Instr

/-!
# Call metadata

Everything that is known about call targets. The analysis never looks at a
declaration itself: it asks for the declared properties of a target, and for a
rule that computes the result of a call, if there is one.
-/

namespace Pathwise

/-- What is declared about a call target. -/
structure MethodInfo where
  returnNullness : Option Nullness
  mutation : Mutation
  /-- Whether the mutation signature was declared rather than inferred. -/
  explicitMutation : Bool
  contracts : List Contract
  /-- The length of the receiver that the call returns. -/
  length : Option Length
  /-- The variable of the receiver that the call returns the value of. -/
  getter : Option Descriptor
  /-- The known result. -/
  precomputed : Option Fact
  /-- The declared range of an integer result. -/
  range : Option Range
  mutability : Option Mutability
  /-- Whether no argument escapes through the call. -/
  noParameterLeak : Bool
  deriving DecidableEq

/-- What is assumed about a target without a declaration. -/
def MethodInfo.unknown : MethodInfo where
  returnNullness := none
  mutation := .unknown
  explicitMutation := false
  contracts := []
  length := none
  getter := none
  precomputed := none
  range := none
  mutability := none
  noParameterLeak := false

instance : Inhabited MethodInfo := ⟨.unknown⟩

/-- The result that a rule computes for a call: a value at hand, or one known by a
fact. -/
inductive CallAnswer where
  | value (v : ValueId)
  | typed (fact : Fact)
  deriving DecidableEq

/-- A rule that computes the result of a call, or leaves it to the usual rules. -/
abbrev CallRule := CallArgs → State → Arena → Option CallAnswer

namespace CallRule

/-- The rule that never computes a result. -/
def never : CallRule := fun _ _ _ => none

/-- The call returns its qualifier. -/
def qualifier : CallRule := fun c _ _ => some (.value c.qualifier)

/-- The call returns a value of which the same is known as of its qualifier. -/
def qualifierFact : CallRule := fun c s a => some (.typed (s.fact a c.qualifier))

/-- The call returns an argument, if it is given. -/
def arg (i : Nat) : CallRule := fun c _ _ => c.args[i]?.map .value

/-- The call returns a known value. -/
def const (f : Fact) : CallRule := fun _ _ _ => some (.typed f)

end CallRule

/-- Everything that is known about call targets. -/
structure Metadata where
  info? : MethodId → Option MethodInfo
  rule? : MethodId → Option CallRule

/-- The metadata of two tables, where a later entry replaces an earlier one. -/
def Metadata.ofTables (infos : List (MethodId × MethodInfo)) (rules : List (MethodId × CallRule)) :
    Metadata where
  info? := (OrdMap.ofList infos).get?
  rule? := (OrdMap.ofList rules).get?

instance : Inhabited Metadata := ⟨.ofTables [] []⟩

end Pathwise
