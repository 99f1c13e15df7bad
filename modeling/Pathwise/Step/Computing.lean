import Pathwise.Range.Arithmetic
import Pathwise.Step.Session

/-!
# Computing instructions

Arithmetic, concatenation and the making of arrays: the result is a value of
which a fact is known that follows from the facts on the operands.
-/

namespace Pathwise

/-- The operation on ranges of integers. -/
def ArithmeticOp.onRanges (op : ArithmeticOp) (w : Width) (r s : Range) : Range :=
  match op with
  | plus => r.plus w s
  | minus => r.minus w s
  | mul => r.mul w s
  | div => r.div w s
  | rem => r.rem w s

/-- The operation on doubles; none for a NaN. -/
def ArithmeticOp.onDoubles (op : ArithmeticOp) (a b : Double) : Option Double :=
  match op with
  | plus => a.add? b
  | minus => a.sub? b
  | mul => a.mul? b
  | div => a.div? b
  | rem => a.rem? b

namespace Fact

/-- The fact on the result of an operation. A result that no operands have is
`bottom`, such as that of an integer division by zero. -/
def arithmetic (op : ArithmeticOp) (w : Width) (f g : Fact) : Fact :=
  match f, g with
  | int r, int s => ofRange (op.onRanges w r s)
  | double c, double d =>
    match c.value?, d.value? with
    | some x, some y => ofDouble (op.onDoubles x y)
    | _, _ => double .any
  | _, _ => top

/-- The fact on a negated value. -/
def negate (w : Width) : Fact → Fact
  | int r => int (r.negate w)
  | double (.const d) => double (.const d.neg)
  | double d => double d
  | _ => top

/-- The fact on the length of a concatenation. -/
def concatLength (f g : Fact) : Range :=
  let sum :=
    match f, g with
    | int r, int s => r.plus .int s
    | _, _ => .ofWidth .int
  sum.meet .lengths

/-- The fact on a string of which only the length is known. -/
def ofStringLength (r : Range) : Fact :=
  if r.single? = some 0 then ofString ""
  else (ofExactType .string .notNull).withLength .string (ofRange r)

/-- The fact on a new array. -/
def ofNewArray (t : TypeDesc) (length : Range) : Fact :=
  ((ofExactType t .notNull).meet localObject).withLength .array (int length)

end Fact

namespace Step

/-- The value known by a fact; a fact that says nothing is that on the unknown value. -/
def known (f : Fact) : Step ValueId :=
  if f.isTop then pure Arena.unknown else intern (·.typed f)

/-- Pops two numbers and pushes the result of an operation on them. -/
def arithmetic (index : Nat) (op : ArithmeticOp) (w : Width) (s : State) :
    Step (List Item) := do
  let (right, s) ← pop index s
  let (left, s) ← pop index s
  let f := Fact.arithmetic op w (← fact s left) (← fact s right)
  if f.isBottom then return []
  return [next index (s.push (← known f))]

/-- Pops a number and pushes its negation. -/
def negate (index : Nat) (w : Width) (s : State) : Step (List Item) := do
  let (v, s) ← pop index s
  return [next index (s.push (← known (Fact.negate w (← fact s v))))]

/-- The constant that two string constants are joined to, unless it is too long. -/
def joined? (config : Config) (f g : Fact) : Option String := do
  let x ← f.string?
  let y ← g.string?
  if Text.units x + Text.units y ≤ config.maxStringLength then some (x ++ y) else none

/-- Pops two strings and pushes the first followed by the second. -/
def concat (ctx : Context) (index : Nat) (s : State) : Step (List Item) := do
  let (right, s) ← pop index s
  let (left, s) ← pop index s
  match joined? ctx.config (← fact s left) (← fact s right) with
  | some x => return [next index (s.push (← intern (·.string x)))]
  | none =>
    let leftLength ← intern (·.lengthOf .string left)
    let rightLength ← intern (·.lengthOf .string right)
    let length := Fact.concatLength (← fact s leftLength) (← fact s rightLength)
    return [next index (s.push (← intern (·.typed (.ofStringLength length))))]

/-- Pops a length and pushes a new array of that length. A negative length throws. -/
def newArray (index : Nat) (t : TypeDesc) (s : State) : Step (List Item) := do
  let (length, s) ← pop index s
  let range := ((← fact s length).range?.getD .lengths).meet .lengths
  if range.isEmpty then return []
  return [next index (s.push (← intern (·.typed (.ofNewArray t range))))]

/-- Pops an object and pushes its length. -/
def length (index : Nat) (l : Length) (s : State) : Step (List Item) := do
  let (v, s) ← pop index s
  return [next index (s.push (← intern (·.lengthOf l v)))]

end Step

end Pathwise
