import Pathwise.Fact.Meet
import Pathwise.Value.Descriptor

/-!
# The arena of values

An arena holds the values of one analysis, each once, and the first is the
unknown value. Asking for a value that the arena has gives the index it has;
any other value is put at the end. So indices stay valid and are equal exactly
when the values are the same.

A qualifier is in the arena before what it qualifies: following qualifiers leads
to ever smaller indices, and the index itself bounds every such walk.
-/

namespace Pathwise

/-- The values of one analysis. -/
structure Arena where
  values : Array Value
  deriving DecidableEq

namespace Arena

/-- The arena that holds only the unknown value. -/
def new : Arena := ⟨#[.unknown]⟩

instance : Inhabited Arena := ⟨new⟩

/-- The index of the unknown value. -/
def unknown : ValueId := 0

/-- The number of values. -/
def size (a : Arena) : Nat := a.values.size

/-- The value at an index. -/
def get (a : Arena) (v : ValueId) : Value := a.values.getD v .unknown

/-- The variable at an index, if there is one. -/
def varAt? (a : Arena) (v : ValueId) : Option Variable :=
  match a.get v with
  | .var x => some x
  | _ => none

/-- Whether the value is a variable. -/
def isVariable (a : Arena) (v : ValueId) : Bool := (a.varAt? v).isSome

/-- Whether the value is unknown. -/
def isUnknown (a : Arena) (v : ValueId) : Bool := a.get v == .unknown

/-- What is known about the value in every state. -/
def inherent (a : Arena) (v : ValueId) : Fact := (a.get v).inherent

/-- The variables, in the order of their indices. -/
def allVars (a : Arena) : List ValueId := (List.range a.size).filter a.isVariable

/-! ## Interning -/

/-- The index of a value, which is put at the end unless the arena has it. -/
def intern (a : Arena) (x : Value) : ValueId × Arena :=
  match a.values.findIdx? (Value.same x) with
  | some v => (v, a)
  | none => (a.size, ⟨a.values.push x⟩)

/-- The value known by a fact. -/
def typed (a : Arena) (f : Fact) : ValueId × Arena := a.intern (.typed f)

/-- A boolean constant. -/
def bool (a : Arena) (b : Bool) : ValueId × Arena := a.typed (.ofBool b)

/-- An integer constant. -/
def int (a : Arena) (n : Int) : ValueId × Arena := a.typed (.ofInt n)

/-- The null reference. -/
def null (a : Arena) : ValueId × Arena := a.typed .null

/-- A string constant. -/
def string (a : Arena) (s : String) : ValueId × Arena := a.typed (.ofString s)

/-- A variable. Its inherent fact is the one it was first asked for with. -/
def var (a : Arena) (d : Descriptor) (qualifier : Option ValueId) (inherent : Fact) :
    ValueId × Arena :=
  a.intern (.var ⟨d, qualifier, inherent⟩)

/-- An object of known length. -/
def wrapped (a : Arena) (l : Length) (inner : ValueId) (f : Fact) : ValueId × Arena :=
  a.intern (.wrapped l inner f)

/-- The length of a value: a variable of a variable, the known length of a wrapped
value, and else what the fact on the value tells. -/
def lengthOf (a : Arena) (l : Length) (v : ValueId) : ValueId × Arena :=
  match a.get v with
  | .var _ => a.var (.length l) (some v) (.int .lengths)
  | .wrapped k inner f => if k = l then (inner, a) else a.typed (f.lengthFact l)
  | .typed f => a.typed (f.lengthFact l)
  | .unknown => a.typed (.int .lengths)

/-- The element of an array variable at an index that is known and can occur. -/
def element? (a : Arena) (array : ValueId) (index : Range) : Option (ValueId × Arena) := do
  let i ← index.single?
  let x ← a.varAt? array
  if 0 ≤ i ∧ i ≤ maxInt then
    let inherent :=
      match x.inherent.bound.mostSpecific?.bind (·.component?) with
      | some c => Fact.ofType c .unknown
      | none => .top
    some (a.var (.element i) (some array) inherent)
  else none

/-! ## Qualifiers -/

/-- The value that qualifies a variable. -/
def qualifier? (a : Arena) (v : ValueId) : Option ValueId :=
  (a.varAt? v).bind (·.qualifier)

/-- The first `n` values of a chain of qualifiers. -/
def qualifiersUpTo (a : Arena) : Nat → ValueId → List ValueId
  | 0, _ => []
  | n + 1, v =>
    match a.qualifier? v with
    | some q => q :: a.qualifiersUpTo n q
    | none => []

/-- The qualifier of a value, its qualifier, and so on. -/
def qualifiers (a : Arena) (v : ValueId) : List ValueId := a.qualifiersUpTo v v

/-- The variables that a value qualifies, directly or not, in the order of their indices. -/
def dependents (a : Arena) (v : ValueId) : List ValueId :=
  a.allVars.filter fun u => (a.qualifiers u).contains v

/-- Whether a call may change the variable: it or a qualifier of it may be changed. -/
def isCallFlushable (a : Arena) (v : ValueId) : Bool :=
  (v :: a.qualifiers v).any fun u => (a.varAt? u).any (·.descriptor.isCallFlushable)

/-! ## Text -/

/-- A value as it is printed, following at most `n` qualifiers. -/
def describeUpTo (a : Arena) : Nat → ValueId → String
  | 0, _ => "?"
  | n + 1, v =>
    match a.get v with
    | .var x =>
      match x.qualifier with
      | some q => a.describeUpTo n q ++ "." ++ x.descriptor.text
      | none => x.descriptor.text
    | .typed f => f.text
    | .wrapped l inner _ => "wrap(" ++ l.text ++ ", " ++ a.describeUpTo n inner ++ ")"
    | .unknown => "?"

/-- A value as it is printed. -/
def describe (a : Arena) (v : ValueId) : String := a.describeUpTo (v + 1) v

end Arena

end Pathwise
