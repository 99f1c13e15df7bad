import Pathwise.Step.Session

/-!
# Checking instructions

Dereferences, array accesses, casts and assertions check a value and report the
verdict. Where the check fails the path may go on at the target of a transfer, in
a state that assumes the failure.
-/

namespace Pathwise.Step

/-- The verdict on a value being dereferenced. -/
def nullVerdict : Nullness → Verdict
  | .notNull => .neverFails
  | .null => .alwaysFails
  | .nullable | .unknown => .unsure

/-- Reports whether a value may be null. -/
def reportNull (problem : Option Problem) (v : ValueId) (s : State) : Step Unit := do
  report problem v (nullVerdict (← fact s v).nullness) s

/-- The fact on a value that is no variable after it was dereferenced. -/
def dereferencedFact (f : Fact) : Fact :=
  let narrowed := f.meet .notNull
  if narrowed.isBottom then f.dereferenced else narrowed

/-- Reports whether a value may be null, and goes on as if it was not: a variable is
narrowed, any other value is replaced by one that is not null. -/
def dereference (s : State) (v : ValueId) (problem : Option Problem) : Step (ValueId × State) := do
  reportNull problem v s
  let a ← arena
  let f := s.fact a v
  if a.isVariable v then
    if f.isNull then return (v, s.setFact a v f.dereferenced)
    else return (v, (s.meetFact a v .notNull).state)
  else
    let g := dereferencedFact f
    if g = f then return (v, s) else return (← intern (·.typed g), s)

/-- Assumes conditions one after the other, as far as they are feasible. -/
def applyAll (a : Arena) : List Condition → State → Narrowing
  | [], s => ⟨true, s⟩
  | c :: cs, s =>
    let n := s.apply a c
    if n.feasible then applyAll a cs n.state else n

/-- Assumes conditions and goes on after a transfer, if they are feasible. -/
def transferIf (ctx : Context) (s : State) (cs : List Condition) (t : Transfer)
    (ephemeral : Bool) : Step (List Item) := do
  match (applyAll (← arena) cs s).state? with
  | some s => return dispatch ctx s t ephemeral
  | none => return []

/-- Checks that the value on top of the stack is not null. -/
def checkNotNull (ctx : Context) (index : Nat) (kind : NullCheck) (onNull : Option Transfer)
    (anchor : Option Anchor) (s : State) : Step (List Item) := do
  match kind with
  | .argument =>
    let v ← peek index s
    reportNull (anchor.map .nullableArgument) v s
    return [next index s]
  | .dereference =>
    let (v, s) ← pop index s
    let ends := ctx.config.stopOnNullDereference && s.isNull (← arena) v
    let (w, after) ← dereference s v (anchor.map .nullDereference)
    let normal := if ends then [] else [next index (after.push w)]
    match onNull with
    | none => return normal
    | some t =>
      -- the failing path starts from the state in which the value may be null
      let null ← intern (·.null)
      let isNull ← condition v .eq null
      return normal ++ (← transferIf ctx s [isNull] t true)

/-- Assumes that an index is within the bounds of an array: the array is not empty, the
index is not negative, and it is less than the length. -/
def applyBounds (s : State) (array element : ValueId) : Step Narrowing := do
  let length ← intern (·.lengthOf .array array)
  let least ← intern (·.int 0)
  let notEmpty ← condition length .gt least
  let notNegative ← condition element .ge least
  let within ← condition element .lt length
  return applyAll (← arena) [notEmpty, notNegative, within] s

/-- The element of an array at an index, or the fallback if it is not tracked. -/
def elementAt (array : ValueId) (index : Fact) (fallback : Option ValueId) : Step ValueId := do
  let element ← intern? fun a => index.range?.bind (a.element? array)
  return (element <|> fallback).getD Arena.unknown

/-- The state after an element of an array was read that is not tracked: the tracked
elements may be the same object, so they have escaped. -/
def dropElementLocality (a : Arena) (array : ValueId) (s : State) : State :=
  ((a.dependents array).filter fun d => a.qualifier? d == some array).foldl
    (fun s d => (s.dropLocality a d).1) s

/-- Pops an index and an array and pushes the element. -/
def arrayAccess (ctx : Context) (index : Nat) (fallback : Option ValueId)
    (outOfBounds : Option Transfer) (anchor : Option Anchor) (s : State) : Step (List Item) := do
  let (element, s) ← pop index s
  let (array, s) ← pop index s
  let n ← applyBounds s array element
  report (anchor.map .arrayIndex) element (if n.feasible then .unsure else .alwaysFails) n.state
  -- the failing path goes on in the state from before the check
  if !n.feasible then
    match outOfBounds with
    | some t => return dispatch ctx s t true
    | none => return []
  let v ← elementAt array (← fact n.state element) fallback
  let a ← arena
  let s :=
    if !a.isVariable v && a.isVariable array then dropElementLocality a array n.state
    else n.state
  return [next index (← pushResult anchor v s)]

/-- Narrows the value on top of the stack to the values that pass a cast. It fails if
no value but null is left. -/
def castTop (index : Nat) (f : Fact) (s : State) : Step Narrowing := do
  let v ← peek index s
  let a ← arena
  let before := s.fact a v
  let narrowed := before.meet f
  if narrowed = before then return ⟨true, s⟩
  if narrowed.isNull then return ⟨false, s⟩
  let n := s.meetFact a v narrowed
  if !n.feasible || a.isVariable v then return n
  let (_, s) ← pop index n.state
  return ⟨true, s.push (← intern (·.typed narrowed))⟩

/-- Checks the value on top of the stack against a type. -/
def cast (ctx : Context) (index : Nat) (t : TypeDesc) (convertible : Bool)
    (onFail : Option Transfer) (anchor : Option Anchor) (s : State) : Step (List Item) := do
  let n ← if convertible then castTop index (.ofType t .unknown) s else pure ⟨true, s⟩
  if anchor.isSome then
    let v ← peek index n.state
    report (anchor.map .classCast) v (if n.feasible then .unsure else .alwaysFails) n.state
  let passes := n.feasible && convertible || onFail.isNone
  let normal := if passes then [next index n.state] else []
  match onFail with
  | none => return normal
  | some transfer =>
    -- the failing path starts from the value that was not cast
    let v ← peek index s
    let null ← intern (·.null)
    let target ← intern (·.typed (.ofType t .notNull))
    let notNull ← condition v .ne null
    let notInstance ← condition v .notInstanceOf target
    return normal ++ (← transferIf ctx s [notNull, notInstance] transfer true)

/-- The verdict on a condition that may hold, may fail, or both. -/
def verdictOf (holds fails : Bool) : Verdict :=
  if !holds then .alwaysFails else if !fails then .neverFails else .unsure

/-- Checks a relation of the value on top of the stack to an expected one. Without a
transfer the path ends where the relation fails. -/
def ensure (ctx : Context) (index : Nat) (rel : Relation) (expected : Fact)
    (onFail : Option Transfer) (makeEphemeral : Bool) (anchor : Option Anchor) (s : State) :
    Step (List Item) := do
  let v ← peek index s
  let w ← intern (·.typed expected)
  let c ← condition v rel w
  let problem := anchor.map Problem.unsatisfiedCondition
  if c = .always then
    report problem v .neverFails s
    return [next index s]
  let holding ← apply s c
  let normal := if holding.feasible then [next index holding.state] else []
  match onFail with
  | none =>
    report problem v (if holding.feasible then .unsure else .alwaysFails) holding.state
    return normal
  | some t =>
    let failing ← apply s c.negated
    report problem v (verdictOf holding.feasible failing.feasible) holding.state
    return normal ++
      (if failing.feasible then dispatch ctx failing.state t makeEphemeral else [])

end Pathwise.Step
