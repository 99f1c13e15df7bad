import Pathwise.Step.Session

/-!
# Branching instructions

Conditional jumps, boolean operations, comparisons and type tests split a state:
each outcome that is feasible goes on in a state of its own, narrowed by what the
outcome implies.
-/

namespace Pathwise.Step

/-- The item of one way of a branch, if the state allows that way. -/
def branchWay (index : Nat) (anchor : Option Anchor) (s : State) (c : Condition) (taken : Bool)
    (target : Nat) : Step (List Item) := do
  let n ← apply s c
  if n.feasible then
    reach index n.state (some taken)
    reportJump anchor taken
    return [⟨target, n.state, 0⟩]
  else return []

/-- Pops a boolean and jumps if it is true, or false if `negated`. -/
def branch (index target : Nat) (negated : Bool) (anchor : Option Anchor) (s : State) :
    Step (List Item) := do
  let (v, s) ← pop index s
  let expected ← intern (·.bool !negated)
  let jump ← condition v .eq expected
  if jump = .always then branchWay index anchor s .always true target
  else if jump.negated = .always then branchWay index anchor s .always false (index + 1)
  else
    let taken ← branchWay index anchor s jump true target
    let fallen ← branchWay index anchor s jump.negated false (index + 1)
    return taken ++ fallen

/-- The item of one outcome, if the state allows the condition for it. -/
def outcomeIf (index : Nat) (anchor : Option Anchor) (s : State) (c : Condition)
    (outcome : Option Bool) : Step (List Item) := do
  let n ← apply s c
  if n.feasible then return [← booleanResult index anchor n.state outcome] else return []

/-- Pops a boolean and pushes its negation. -/
def not (index : Nat) (anchor : Option Anchor) (s : State) : Step (List Item) := do
  let (v, s) ← pop index s
  let false' ← intern (·.bool false)
  let isFalse ← condition v .eq false'
  let yes ← outcomeIf index anchor s isFalse (some true)
  let no ← outcomeIf index anchor s isFalse.negated (some false)
  return yes ++ no

/-- The state in which an operand that may be a NaN is one. -/
def unordered? (a : Arena) (s : State) (left right : ValueId) : Option State :=
  if s.fact a left = .double .any then (s.meetFact a left (.double .nan)).state?
  else if s.fact a right = .double .any then (s.meetFact a right (.double .nan)).state?
  else none

/-- Compares two references to values that are compared by content: different
references give a known result, equal ones do not. -/
def compareByContent (index : Nat) (rel : Relation) (left right : ValueId)
    (anchor : Option Anchor) (s : State) : Step (List Item) := do
  let c ← condition left .eq right
  let equal ← outcomeIf index anchor s c none
  let different ← outcomeIf index anchor s c.negated (some (rel == .ne))
  return equal ++ different

/-- Tries the given relations one by one. A relation that always holds is the only
one, whatever was found before. -/
def compareCases (index : Nat) (rel : Relation) (left right : ValueId) (anchor : Option Anchor)
    (s : State) : List Relation → List Item → Step (List Item)
  | [], found => return found
  | sub :: subs, found => do
    let outcome := some (rel.impliedBy sub)
    match ← condition left sub right with
    | .never => compareCases index rel left right anchor s subs found
    | .always => return [← booleanResult index anchor s outcome]
    | c =>
      let items ← outcomeIf index anchor s c outcome
      compareCases index rel left right anchor s subs (found ++ items)

/-- Compares two values. An order comparison with a NaN is false; so is any
comparison of which no case is feasible. -/
def compare (index : Nat) (rel : Relation) (left right : ValueId) (anchor : Option Anchor)
    (s : State) : Step (List Item) := do
  let a ← arena
  let byContent (v : ValueId) : Bool := (s.fact a v).bound.isComparedByContent
  if (rel == .eq || rel == .ne) && byContent left && byContent right then
    compareByContent index rel left right anchor s
  else
    -- none of the cases holds of a NaN, so it has an item of its own
    let unordered ←
      match if rel.isOrdering then unordered? a s left right else none with
      | some u => do pure [← booleanResult index anchor u (some false)]
      | none => pure []
    let items ← compareCases index rel left right anchor s rel.cases unordered
    if items.isEmpty then return [← booleanResult index anchor s (some false)] else return items

/-- Pops two booleans and pushes their conjunction or disjunction. If the right one
decides the result, it does; else the left one is the result. -/
def junction (index : Nat) (isOr : Bool) (left right : ValueId) (anchor : Option Anchor)
    (s : State) : Step (List Item) := do
  let constant ← intern (·.bool isOr)
  let c ← condition right .eq constant
  let decided ← outcomeIf index anchor s c (some isOr)
  let n ← apply s c.negated
  if n.feasible then
    reach index n.state (← fact n.state left).bool?
    let s ← pushResult anchor left n.state
    return decided ++ [next index s]
  else return decided

/-- Pops two values and pushes the boolean result of an operation on them. -/
def boolean (index : Nat) (op : BooleanOp) (anchor : Option Anchor) (s : State) :
    Step (List Item) := do
  let (right, s) ← pop index s
  let (left, s) ← pop index s
  match op with
  | .relation rel => compare index rel left right anchor s
  | .and => junction index false left right anchor s
  | .or => junction index true left right anchor s

/-- The type operand and the condition of a type test, and whether the type is
unknown: a class object that is not known, or that of a primitive type, leaves only
that the value is not null. -/
def testedType (isClassObject : Bool) (left right : ValueId) (s : State) :
    Step (ValueId × Condition × Bool) := do
  if !isClassObject then return (right, ← condition left .instanceOf right, false)
  let unknownType : Step (ValueId × Condition × Bool) := do
    let null ← intern (·.null)
    return (right, ← condition left .ne null, true)
  match (← fact s right).classObject? with
  | none => unknownType
  | some t =>
    if t.isPrimitive then unknownType
    else
      let right ← intern (·.typed (.ofType t .notNull))
      return (right, ← condition left .instanceOf right, false)

/-- Whether testing an unknown value can tell something: not if the facts say the
answer already. -/
def isUsefulUnknown (a : Arena) (s : State) (left right : ValueId) : Bool :=
  if (s.fact a left).isTop || a.isVariable left || a.isVariable right then true
  else !(s.fact a right).bound.covers (s.fact a left).bound

/-- The items of a type test on known values, and whether it can tell something. If
only null fails the test of a value not said to be nullable, that is no real
outcome. -/
def testInstance (index : Nat) (anchor : Option Anchor) (left : ValueId) (c : Condition)
    (isUnknownType : Bool) (s : State) : Step (List Item × Bool) := do
  let before ← fact s left
  let yes ← outcomeIf index anchor s c (if isUnknownType then none else some true)
  let n ← apply s c.negated
  if n.feasible then
    let isNull := n.state.isNull (← arena) left
    let state :=
      if isNull && before.nullness == .unknown then n.state.markEphemeral else n.state
    let no ← booleanResult index anchor state (some false)
    return (yes ++ [no], isUnknownType || !isNull)
  else return (yes, isUnknownType)

/-- Pops a type and a value and pushes whether the value is an instance of the type. -/
def instanceOf (index : Nat) (isClassObject : Bool) (anchor : Option Anchor) (s : State) :
    Step (List Item) := do
  let (right, s) ← pop index s
  let (left, s) ← pop index s
  let (right, c, isUnknownType) ← testedType isClassObject left right s
  let (items, useful) ←
    if c.isUnknown (← arena) then do
      let useful := isUsefulUnknown (← arena) s left right
      pure ([← booleanResult index anchor s none], useful)
    else testInstance index anchor left c isUnknownType s
  if useful then record fun r => { r with usefulInstanceofs := r.usefulInstanceofs.insert index }
  return items

end Pathwise.Step
