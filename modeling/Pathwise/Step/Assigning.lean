import Pathwise.Step.Checking

/-!
# Assigning instructions

Assignments and method references. A fresh object stays local as long as it moves
from temporaries into local variables; once it is stored where others may find it,
it has escaped.
-/

namespace Pathwise.Step

/-- Whether an object stays local when it moves from a source to a destination: from a
temporary or the result of a call to a local variable. -/
def keepsLocality (a : Arena) (source dest : ValueId) : Bool :=
  (a.varAt? dest).any (·.descriptor.isLocalVariable) &&
    (a.varAt? source).any (·.descriptor.isTransient)

/-- The state after a write into an array. A write into an element that is not tracked
may have changed every tracked one. -/
def flushElements (a : Arena) (array : Option ValueId) (dest : ValueId) (s : State) : State :=
  match array with
  | none => s
  | some v =>
    if a.isVariable dest || !a.isVariable v then s
    else ((a.dependents v).filter a.isCallFlushable).foldl (State.flushVariable a) s

/-- Whether an object escapes when it is stored in a variable: the variable is a static
field, or its owner is not a local object. -/
def escapesInto (a : Arena) (s : State) (x : Variable) : Bool :=
  x.descriptor.isStaticField || x.qualifier.any fun q => !(s.fact a q).isLocal

/-- The state after a value was stored in a variable. A volatile variable keeps
nothing; a variable declared to be nullable is so again if its initial value tells
nothing. -/
def storeInto (a : Arena) (s : State) (dest : ValueId) (x : Variable) (source : ValueId)
    (isInitializer : Bool) : State :=
  let s := if x.descriptor.isVolatile then s else s.assign a dest source
  if isInitializer && x.inherent.nullness == .nullable && (s.fact a dest).nullness == .unknown then
    (s.meetFact a dest .nullable).state
  else s

/-- The state after a value was assigned, and the value pushed. -/
def store (dest source : ValueId) (isInitializer : Bool) (s : State) : Step State := do
  let a ← arena
  let (s, source) ←
    if keepsLocality a source dest then pure (s, source) else dropLocality s source
  match a.varAt? dest with
  | none => return s
  | some x =>
    let (s, source) ←
      if escapesInto (← arena) s x then dropLocality s source else pure (s, source)
    return storeInto (← arena) s dest x source isInitializer

/-- Pops a source and a destination, and pushes the destination. -/
def assign (index : Nat) (assigned : Option ValueId) (isInitializer : Bool)
    (array : Option ValueId) (anchor : Option Anchor) (s : State) : Step (List Item) := do
  let (source, s) ← pop index s
  let (popped, s) ← pop index s
  let dest := if (← arena).isVariable popped then popped else assigned.getD popped
  emit (.assignment source dest s)
  let s ← if source = dest then pure s else store dest source isInitializer s
  let s ← pushResult anchor dest s
  return [next index (flushElements (← arena) array dest s)]

/-- Pops a qualifier and pushes a functional object that refers to it. -/
def methodRef (index : Nat) (interface : TypeDesc) (anchor : Option Anchor) (s : State) :
    Step (List Item) := do
  let (qualifier, s) ← pop index s
  let (s, qualifier) ← dropLocality s qualifier
  let (_, s) ← dereference s qualifier (anchor.map .nullDereference)
  let v ← intern (·.typed (.ofType interface .notNull))
  return [next index (← pushResult anchor v s)]

/-- Drops the locality of values that escape. -/
def escape : List ValueId → State → Step State
  | [], s => return s
  | v :: vs, s => do
    let (s, _) ← dropLocality s v
    escape vs s

end Pathwise.Step
