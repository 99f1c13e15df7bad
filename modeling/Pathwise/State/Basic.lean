import Pathwise.Ordered.Map
import Pathwise.Value.Arena

/-!
# States

The state of one path: the operand stack, the facts stored for variables, and the
relations known to hold between pairs of variables. States are plain values with
one representation each, so equal states can be recognised and explored once.

The effective fact of a variable is the meet of three: its inherent fact, for the
length of another value what the fact on that value tells, and the stored fact.
Values that are no variables never have a stored fact.
-/

namespace Pathwise

open Std

/-- A relation between two variables, the one of smaller index on the left. -/
structure Link where
  left : ValueId
  rel : Relation
  right : ValueId
  deriving DecidableEq, Repr

namespace Link

instance : Ord Link where
  compare :=
    compareLex (compareOn Link.left)
      (compareLex (compareOn fun l => l.rel.rank) (compareOn Link.right))

instance : TransOrd Link := inferInstanceAs (TransCmp (compareLex _ (compareLex _ _)))

instance : LawfulEqOrd Link where
  eq_of_compare {a b} h := by
    have h : compareLex _ (compareLex _ _) a b = .eq := h
    simp only [compareLex_eq_eq, compareOn] at h
    obtain ⟨h₁, h₂, h₃⟩ := h
    cases a
    cases b
    simp only [Link.mk.injEq]
    exact ⟨LawfulEqOrd.eq_of_compare h₁, Relation.rank_inj (LawfulEqOrd.eq_of_compare h₂),
      LawfulEqOrd.eq_of_compare h₃⟩

/-- Whether the link relates a value to anything. -/
def mentions (l : Link) (v : ValueId) : Bool := l.left == v || l.right == v

/-- The relation as seen from `u` to `v`, if the link relates the two. -/
def between? (l : Link) (u v : ValueId) : Option Relation :=
  if l.left = u ∧ l.right = v then some l.rel
  else if l.left = v ∧ l.right = u then l.rel.flipped?
  else none

/-- The value that the link makes equal to `v`. -/
def equalTo? (l : Link) (v : ValueId) : Option ValueId :=
  if l.rel ≠ .eq then none
  else if l.left = v then some l.right
  else if l.right = v then some l.left
  else none

end Link

/-- The state of one path. -/
structure State where
  /-- The operand stack, its top first. -/
  stack : List ValueId
  /-- The facts stored for variables. -/
  facts : OrdMap ValueId Fact
  /-- The relations known between variables. -/
  links : OrdSet Link
  /-- Whether the path was taken only because a failure was assumed. -/
  isEphemeral : Bool
  deriving DecidableEq

namespace State

/-- The state at the start: nothing is known. -/
def initial : State := ⟨[], ∅, ∅, false⟩

instance : Inhabited State := ⟨initial⟩

/-! ## The operand stack -/

/-- The state with a value on top of the stack. -/
def push (s : State) (v : ValueId) : State := { s with stack := v :: s.stack }

/-- The value on top of the stack. -/
def peek? (s : State) : Option ValueId := s.stack.head?

/-- The value on top of the stack, and the state without it. -/
def pop? (s : State) : Option (ValueId × State) :=
  match s.stack with
  | [] => none
  | v :: vs => some (v, { s with stack := vs })

/-- The number of values on the stack. -/
def depth (s : State) : Nat := s.stack.length

/-- The state with an empty stack. -/
def clearStack (s : State) : State := { s with stack := [] }

/-- The state of a path that was taken only because a failure was assumed. -/
def markEphemeral (s : State) : State := { s with isEphemeral := true }

/-- The state as the body of a closure made here finds it. -/
def snapshot (s : State) : State := { s with stack := [], isEphemeral := false }

/-! ## Facts -/

/-- The effective fact of a value, following at most `n` qualifiers. -/
def factUpTo (a : Arena) (s : State) : Nat → ValueId → Fact
  | 0, v => a.inherent v
  | n + 1, v =>
    match a.get v with
    | .var x =>
      let derived :=
        match x.descriptor, x.qualifier with
        | .length l, some q => x.inherent.meet ((s.factUpTo a n q).lengthFact l)
        | _, _ => x.inherent
      match s.facts.get? v with
      | some f => derived.meet f
      | none => derived
    | u => u.inherent

/-- The effective fact of a value. -/
def fact (a : Arena) (s : State) (v : ValueId) : Fact := s.factUpTo a (v + 1) v

/-- Whether a value is known to be null. -/
def isNull (a : Arena) (s : State) (v : ValueId) : Bool := (s.fact a v).isNull

/-- The state with another stored fact for a variable. What its declaration says
anyway is not stored, and nothing is for a value that is no variable. -/
def setFact (a : Arena) (s : State) (v : ValueId) (f : Fact) : State :=
  if !a.isVariable v then s
  else if f = a.inherent v || f.isTop then { s with facts := s.facts.erase v }
  else { s with facts := s.facts.insert v f }

/-! ## Relations -/

/-- The state with a relation between two variables. -/
def addLink (s : State) (u : ValueId) (rel : Relation) (v : ValueId) : State :=
  if u < v then { s with links := s.links.insert ⟨u, rel, v⟩ }
  else
    match rel.flipped? with
    | some r => { s with links := s.links.insert ⟨v, r, u⟩ }
    | none => s

/-- The relations known to hold from one value to another. -/
def linksBetween (s : State) (u v : ValueId) : List Relation :=
  s.links.toList.filterMap (·.between? u v)

/-- The values directly known to be equal to a value. -/
def equals (s : State) (v : ValueId) : List ValueId := s.links.toList.filterMap (·.equalTo? v)

/-- The values known to be equal to one of `todo`, or already among `found`: each
round takes the first value still to do and adds its equals that are new. -/
def equalClassFrom (s : State) : Nat → List ValueId → List ValueId → List ValueId
  | _, found, [] => found
  | 0, found, todo => found ++ todo
  | n + 1, found, v :: todo =>
    let isNew (todo : List ValueId) (u : ValueId) : Bool := !(found ++ v :: todo).contains u
    s.equalClassFrom n (found ++ [v])
      ((s.equals v).foldl (fun todo u => if isNew todo u then todo ++ [u] else todo) todo)

/-- A value and every value connected to it by known equalities. Each link brings
in at most two values, which bounds the rounds. -/
def equalClass (s : State) (v : ValueId) : List ValueId :=
  s.equalClassFrom (2 * s.links.size + 1) [] [v]

/-! ## Text -/

/-- A state as it is printed with the names of its values. -/
def render (a : Arena) (s : State) : String :=
  let stack := s.stack.reverse.map a.describe
  let facts := s.facts.entries.map fun e => a.describe e.1 ++ ": " ++ e.2.text
  let links := s.links.toList.map fun l =>
    a.describe l.left ++ " " ++ l.rel.text ++ " " ++ a.describe l.right
  (if s.isEphemeral then "(ephemeral) " else "") ++ "<" ++ ", ".intercalate stack ++ "> \x7b" ++
    ", ".intercalate facts ++ "\x7d [" ++ ", ".intercalate links ++ "]"

/-- A state in brief. -/
def text (s : State) : String :=
  "<" ++ ", ".intercalate (s.stack.reverse.map ValueId.text) ++ "> " ++ toString s.facts.size ++
    " facts" ++ (if s.isEphemeral then " (ephemeral)" else "")

end State

end Pathwise
