import Pathwise.Call.Mutation
import Pathwise.Value.Arena

/-!
# Contracts

A contract is a declared rule about a call: if every condition on the receiver and
the arguments holds, the call returns a certain value, or fails.
-/

namespace Pathwise

/-- The values given to a call. -/
structure CallArgs where
  qualifier : ValueId
  args : List ValueId
  mutation : Mutation
  deriving DecidableEq

/-- The argument at a position; the unknown value stands for a missing one. -/
def CallArgs.arg (c : CallArgs) (i : Nat) : ValueId := c.args.getD i Arena.unknown

/-- An operand of a condition of a contract. -/
inductive ContractValue where
  | qualifier
  | arg (index : Nat)
  | constant (fact : Fact)
  deriving DecidableEq

namespace ContractValue

/-- The value that the operand stands for in a call. -/
def resolve (c : CallArgs) (a : Arena) : ContractValue → ValueId × Arena
  | qualifier => (c.qualifier, a)
  | arg i => (c.arg i, a)
  | constant f => a.typed f

/-- An operand as it is printed. -/
def text : ContractValue → String
  | qualifier => "this"
  | arg i => "param" ++ toString (i + 1)
  | constant f => f.text

end ContractValue

/-- A condition of a contract. -/
structure ContractCondition where
  left : ContractValue
  rel : Relation
  right : ContractValue
  deriving DecidableEq

namespace ContractCondition

/-- The argument is null. -/
def argIsNull (i : Nat) : ContractCondition := ⟨.arg i, .eq, .constant .null⟩

/-- The argument is not null. -/
def argNotNull (i : Nat) : ContractCondition := ⟨.arg i, .ne, .constant .null⟩

/-- A condition as it is printed. -/
def text (c : ContractCondition) : String := c.left.text ++ " " ++ c.rel.text ++ " " ++ c.right.text

end ContractCondition

/-- What a call does when the conditions of a contract hold. -/
inductive ContractResult where
  | value (fact : Fact)
  | fail
  | qualifier
  | arg (index : Nat)
  deriving DecidableEq

namespace ContractResult

/-- Whether the call fails. -/
def isFail : ContractResult → Bool
  | fail => true
  | _ => false

/-- The value returned by a call, unless it fails. -/
def resolve? (c : CallArgs) (a : Arena) : ContractResult → Option ValueId × Arena
  | value f => (a.typed f).map some id
  | fail => (none, a)
  | qualifier => (some c.qualifier, a)
  | arg i => (some (c.arg i), a)

/-- A result as it is printed. -/
def text : ContractResult → String
  | value f => f.text
  | fail => "fail"
  | qualifier => "this"
  | arg i => "param" ++ toString (i + 1)

end ContractResult

/-- A declared rule: if every condition holds, the call has the result. -/
structure Contract where
  conditions : List ContractCondition
  result : ContractResult
  deriving DecidableEq

namespace Contract

/-- Whether the contract applies to every call. -/
def isTrivial (c : Contract) : Bool := c.conditions.isEmpty

/-- A contract as it is printed. -/
def text (c : Contract) : String :=
  " && ".intercalate (c.conditions.map (·.text)) ++ " -> " ++ c.result.text

end Contract

end Pathwise
