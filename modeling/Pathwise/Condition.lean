import Pathwise.Fact.Compare
import Pathwise.Value.Arena

/-!
# Conditions

A condition relates two values, or is decided: a relation between values that
are no variables, and so have the same fact in every state, is decided as soon
as it is made if the facts decide it.
-/

namespace Pathwise

/-- A condition on the values of a state. -/
inductive Condition where
  | always
  | never
  | relation (left : ValueId) (rel : Relation) (right : ValueId)
  deriving DecidableEq, Repr

namespace Condition

/-- The condition that always or never holds. -/
def ofBool (b : Bool) : Condition := if b then always else never

/-- The condition that two values are in a relation. -/
def of (a : Arena) (left : ValueId) (rel : Relation) (right : ValueId) : Condition :=
  if a.isVariable left || a.isVariable right then relation left rel right
  else
    match Fact.decide? rel (a.inherent left) (a.inherent right) with
    | some b => ofBool b
    | none => relation left rel right

/-- The condition that holds exactly when this one does not. -/
def negated : Condition → Condition
  | always => never
  | never => always
  | relation l rel r => relation l rel.negated r

/-- Whether the condition relates the unknown value, about which nothing is learned. -/
def isUnknown (a : Arena) : Condition → Bool
  | relation l _ r => a.isUnknown l || a.isUnknown r
  | _ => false

/-- A condition as it is printed. -/
def text : Condition → String
  | always => "TRUE"
  | never => "FALSE"
  | relation l rel r => l.text ++ " " ++ rel.text ++ " " ++ r.text

end Condition

end Pathwise
