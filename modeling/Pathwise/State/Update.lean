import Pathwise.State.Basic

/-!
# Updating a state

Assignments, calls and escapes change what is known. A variable whose value
changes is forgotten together with all it qualifies; a call forgets the
variables it may reach, but none that a local object owns.
-/

namespace Pathwise.State

/-- The state that knows nothing of its own about a variable. -/
def forget (s : State) (v : ValueId) : State :=
  { s with facts := s.facts.erase v, links := s.links.filter fun l => !l.mentions v }

/-- The state after the value of a variable may have changed. -/
def flushVariable (a : Arena) (s : State) (v : ValueId) : State :=
  (a.dependents v).foldl forget (s.forget v)

/-- The state after the variables that a value qualifies may have changed. -/
def flushDependents (a : Arena) (s : State) (v : ValueId) : State :=
  (a.dependents v).foldl (flushVariable a) s

/-- The variables that the state knows something about. -/
def tracked (s : State) : OrdSet ValueId :=
  OrdSet.ofList (s.facts.keys ++ s.links.toList.flatMap fun l => [l.left, l.right])

/-- Whether a value qualifying the variable is known to be a local object. -/
def isOwnedByLocal (a : Arena) (s : State) (v : ValueId) : Bool :=
  (a.qualifiers v).any fun q => (s.fact a q).isLocal

/-- The state after a call that may change everything it can reach. -/
def flushFields (a : Arena) (s : State) : State :=
  s.tracked.toList.foldl
    (fun s v => if a.isCallFlushable v && !s.isOwnedByLocal a v then s.forget v else s) s

/-- The state after a variable was given the value of a source: it has the facts of
the source, and equals it if that is a variable. A fact that the declaration of the
variable contradicts is believed. -/
def assign (a : Arena) (s : State) (v source : ValueId) : State :=
  if v = source then s
  else
    -- the source may depend on the variable, so its fact is read before the flush
    let f := s.fact a source
    let s := s.flushVariable a v
    let merged := (a.inherent v).meet f
    let s := s.setFact a v (if merged.isBottom then f else merged)
    if a.isVariable source then s.addLink v .eq source else s

/-- The state in which a variable is not known to be local. -/
def dropVariableLocality (a : Arena) (s : State) (v : ValueId) : State :=
  let f := s.fact a v
  if f.isLocal then s.setFact a v f.dropLocality else s

/-- The state after a value has escaped, and the value to use in its place: a
variable stays and loses locality with all it qualifies, any other value is replaced
by one that is not local. -/
def dropLocality (a : Arena) (s : State) (v : ValueId) : State × ValueId × Arena :=
  match a.get v with
  | .var _ => ((v :: a.dependents v).foldl (dropVariableLocality a) s, v, a)
  | .typed f => (s, if f.isLocal then a.typed f.dropLocality else (v, a))
  | .wrapped l inner f => (s, if f.isLocal then a.wrapped l inner f.dropLocality else (v, a))
  | .unknown => (s, v, a)

end Pathwise.State
