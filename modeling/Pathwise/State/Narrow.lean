import Pathwise.Condition
import Pathwise.State.Basic

/-!
# Narrowing a state

Assuming that a condition holds narrows the facts of its operands, and of every
variable known to be equal to them, and records the relation between two
variables. The attempt fails if no value is left; the state as far as it was
narrowed is kept for those who report about it.
-/

namespace Pathwise

/-- An attempt to narrow a state: whether it is feasible, and the state as far as
it was narrowed. -/
structure Narrowing where
  feasible : Bool
  state : State
  deriving DecidableEq

/-- The narrowed state, if there is one. -/
def Narrowing.state? (n : Narrowing) : Option State := if n.feasible then some n.state else none

namespace State

/-- Narrows the facts of variables one after the other. -/
def meetFacts (a : Arena) (f : Fact) : List ValueId → State → Narrowing
  | [], s => ⟨true, s⟩
  | v :: vs, s =>
    let narrowed := (s.fact a v).meet f
    if narrowed.isBottom then ⟨false, s⟩ else meetFacts a f vs (s.setFact a v narrowed)

/-- Narrows the fact of a value and of every variable known to be equal to it. The
fact of a value that is no variable is only checked. -/
def meetFact (a : Arena) (s : State) (v : ValueId) (f : Fact) : Narrowing :=
  if a.isVariable v then meetFacts a f (s.equalClass v) s
  else ⟨!((s.fact a v).meet f).isBottom, s⟩

/-- Assumes that a comparison of a value with itself holds. Only a NaN differs from
itself. -/
def applySelf (a : Arena) (s : State) (v : ValueId) (rel : Relation) : Narrowing :=
  if s.fact a v = .double .any then
    match rel with
    | .ne => s.meetFact a v (.double .nan)
    | .lt | .gt => ⟨false, s⟩
    | _ => ⟨true, s⟩
  else ⟨rel == .eq || rel == .le || rel == .ge, s⟩

/-- Whether a relation between two values contradicts one known to hold. -/
def contradictsLink (s : State) (u : ValueId) (rel : Relation) (v : ValueId) : Bool :=
  (s.linksBetween u v).any fun r => !r.compatible rel

/-- Assumes that a relation holds that the facts of its operands do not decide. -/
def applyOpen (a : Arena) (s : State) (u : ValueId) (rel : Relation) (v : ValueId) : Narrowing :=
  let linked := a.isVariable u && a.isVariable v && !rel.isTypeTest
  if linked && s.contradictsLink u rel v then ⟨false, s⟩
  else
    let right := s.fact a v
    let left := s.meetFact a u ((s.fact a u).narrow rel right)
    if !left.feasible then left
    else
      -- the right operand is narrowed by what has become of the left one
      let both :=
        match rel.flipped? with
        | some r => left.state.meetFact a v (right.narrow r (left.state.fact a u))
        | none => left
      if both.feasible && linked then ⟨true, both.state.addLink u rel v⟩ else both

/-- Assumes that a relation holds between two values. A NaN is unequal to every
value and in no other relation. -/
def applyRelation (a : Arena) (s : State) (u : ValueId) (rel : Relation) (v : ValueId) :
    Narrowing :=
  let left := s.fact a u
  let right := s.fact a v
  if left.isBottom || right.isBottom then ⟨false, s⟩
  else if left = .double .nan || right = .double .nan then ⟨rel == .ne, s⟩
  else if u = v && !rel.isTypeTest then s.applySelf a u rel
  else
    match Fact.decide? rel left right with
    | some b => ⟨b, s⟩
    | none => s.applyOpen a u rel v

/-- Assumes that a condition holds. -/
def apply (a : Arena) (s : State) : Condition → Narrowing
  | .always => ⟨true, s⟩
  | .never => ⟨false, s⟩
  | .relation u rel v => s.applyRelation a u rel v

/-- The state in which a condition holds, if it can. -/
def assume? (a : Arena) (s : State) (c : Condition) : Option State := (s.apply a c).state?

end State

end Pathwise
