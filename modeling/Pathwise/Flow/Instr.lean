import Pathwise.Flow.Transfer

/-!
# Instructions

The instructions of the analysed code work on an operand stack. Unless it jumps,
an instruction is followed by the next one; a path that comes to the index after
the last instruction ends there.
-/

namespace Pathwise

/-- A place in the source, known only to the one who supplies the code. -/
abbrev Anchor := Nat

/-- A call target, known to the metadata. -/
abbrev MethodId := Nat

/-- The body of a closure made in the analysed code. -/
abbrev ClosureId := Nat

/-- An anchor as it is printed. -/
def Anchor.text (a : Anchor) : String := "@" ++ toString a

/-- A call target as it is printed. -/
def MethodId.text (m : MethodId) : String := "m" ++ toString m

/-- A closure as it is printed. -/
def ClosureId.text (c : ClosureId) : String := "closure#" ++ toString c

/-- An operation with a boolean result. -/
inductive BooleanOp where
  | relation (rel : Relation)
  | and
  | or
  deriving DecidableEq, Repr

/-- An arithmetic operation. -/
inductive ArithmeticOp where
  | plus
  | minus
  | mul
  | div
  | rem
  deriving DecidableEq, Repr

/-- The operation as it is printed. -/
def ArithmeticOp.text : ArithmeticOp → String
  | plus => "Plus"
  | minus => "Minus"
  | mul => "Mul"
  | div => "Div"
  | rem => "Rem"

/-- Why a value must not be null. -/
inductive NullCheck where
  /-- It is dereferenced: null throws. -/
  | dereference
  /-- It is passed where null is not expected: nothing throws. -/
  | argument
  deriving DecidableEq, Repr

/-- The check as it is printed. -/
def NullCheck.text : NullCheck → String
  | dereference => "Dereference"
  | argument => "Argument"

/-- A call. The arguments lie on the stack above the qualifier. -/
structure Call where
  method : Option MethodId
  argCount : Nat
  /-- The type of the result; none if there is no result. -/
  returnType : Option TypeDesc
  isConstructor : Bool
  anchor : Option Anchor
  deriving DecidableEq

/-- An instruction of the analysed code. -/
inductive Instr where
  | push (value : ValueId) (anchor : Option Anchor)
  | pop
  | dup
  | goto (target : Nat)
  /-- Pops a boolean and jumps if it is true, or false if `negated`. -/
  | branch (target : Nat) (negated : Bool) (anchor : Option Anchor)
  | not (anchor : Option Anchor)
  | ret
  | endOfInitializer (isStatic : Bool)
  | boolean (op : BooleanOp) (anchor : Option Anchor)
  | arithmetic (op : ArithmeticOp) (width : Width)
  | negate (width : Width)
  | concat
  /-- Pops the source and the destination, and pushes the destination. `assigned` is
  the destination if something else took its place on the stack, `array` the array
  written into. -/
  | assign (assigned : Option ValueId) (isInitializer : Bool) (array : Option ValueId)
      (anchor : Option Anchor)
  | flushVariable (value : ValueId)
  | flushFields
  | escape (values : List ValueId)
  | call (c : Call)
  /-- Pops the qualifier and pushes the functional object. -/
  | methodRef (method : Option MethodId) (interface : TypeDesc) (anchor : Option Anchor)
  | closure (ids : List ClosureId)
  | transfer (t : Transfer)
  /-- Pops the length and pushes the array. -/
  | newArray (type : TypeDesc)
  /-- Pops the index and the array, and pushes the element, or `fallback` if the
  element is not tracked. -/
  | arrayAccess (fallback : Option ValueId) (outOfBounds : Option Transfer)
      (anchor : Option Anchor)
  | length (l : Length)
  /-- Checks the value on top of the stack against a type. `convertible` says whether
  the static type of the value allows the cast at all. -/
  | cast (type : TypeDesc) (convertible : Bool) (onFail : Option Transfer)
      (anchor : Option Anchor)
  /-- Pops the type and the value, and pushes a boolean. The type may be given by a
  class object. -/
  | instanceOf (isClassObject : Bool) (anchor : Option Anchor)
  | checkNotNull (kind : NullCheck) (onNull : Option Transfer) (anchor : Option Anchor)
  /-- Checks a relation of the value on top of the stack to an expected one. -/
  | ensure (rel : Relation) (expected : Fact) (onFail : Option Transfer) (makeEphemeral : Bool)
      (anchor : Option Anchor)
  deriving DecidableEq

namespace Instr

/-- Whether the instruction may split a state; equal states are recognised there. -/
def isBranching : Instr → Bool
  | branch .. | boolean .. | not _ | instanceOf .. | call _ => true
  | _ => false

/-- The place in the source. -/
def anchor? : Instr → Option Anchor
  | push _ a | branch _ _ a | not a | boolean _ a | assign _ _ _ a | methodRef _ _ a
  | arrayAccess _ _ a | cast _ _ _ a | instanceOf _ a | checkNotNull _ _ a
  | ensure _ _ _ _ a => a
  | call c => c.anchor
  | _ => none

/-- How many values the instruction takes from the stack. -/
def pops : Instr → Nat
  | pop | dup | branch .. | not _ | negate _ | methodRef .. | newArray _ | length _ | cast ..
  | checkNotNull .. => 1
  | boolean .. | arithmetic .. | concat | assign .. | arrayAccess .. | instanceOf .. => 2
  | call c => c.argCount + 1
  | push .. | goto _ | ret | endOfInitializer _ | flushVariable _ | flushFields | escape _
  | closure _ | transfer _ | ensure .. => 0

/-- How many values the instruction puts on the stack. -/
def pushes : Instr → Nat
  | dup => 2
  | push .. | not _ | negate _ | methodRef .. | newArray _ | length _ | cast .. | checkNotNull ..
  | boolean .. | arithmetic .. | concat | assign .. | arrayAccess .. | instanceOf .. | call _ => 1
  | pop | branch .. | goto _ | ret | endOfInitializer _ | flushVariable _ | flushFields
  | escape _ | closure _ | transfer _ | ensure .. => 0

/-- The instructions that may follow with the stack kept. -/
def successors (index : Nat) : Instr → List Nat
  | goto t => [t]
  | branch t _ _ => [t, index + 1]
  | ret | transfer _ => []
  | _ => [index + 1]

/-- The transfer that the instruction may take. -/
def transfer? : Instr → Option Transfer
  | transfer t => some t
  | arrayAccess _ t _ | cast _ _ t _ | checkNotNull _ t _ | ensure _ _ t _ _ => t
  | _ => none

/-- The instructions that may follow with the stack discarded. -/
def transferTargets (i : Instr) : List Nat := (i.transfer?.map Transfer.targets).getD []

/-- A list in brackets. -/
def bracketed (words : List String) : String := "[" ++ ", ".intercalate words ++ "]"

/-- An instruction as it is printed. -/
def text : Instr → String
  | push v _ => "PUSH " ++ v.text
  | pop => "POP"
  | dup => "DUP"
  | goto t => "GOTO " ++ toString t
  | branch t negated _ => (if negated then "IF_NE GOTO " else "IF_EQ GOTO ") ++ toString t
  | not _ => "NOT"
  | ret => "RETURN"
  | endOfInitializer isStatic =>
    if isStatic then "END_OF_STATIC_INITIALIZER" else "END_OF_INITIALIZER"
  | boolean (.relation r) _ => "BINOP " ++ r.text
  | boolean .and _ => "BINOP &"
  | boolean .or _ => "BINOP |"
  | arithmetic op w => "NUMOP " ++ op.text ++ (if w = .long then " (long)" else "")
  | negate _ => "NEGATE"
  | concat => "STRING_CONCAT"
  | assign .. => "ASSIGN"
  | flushVariable v => "FLUSH " ++ v.text
  | flushFields => "FLUSH_ALL_FIELDS"
  | escape vs => "ESCAPE " ++ bracketed (vs.map ValueId.text)
  | call c =>
    "CALL" ++ (c.method.map fun m => " " ++ m.text).getD "" ++ " (" ++ toString c.argCount ++
      " args)"
  | methodRef _ t _ => "METHOD_REF " ++ t.name
  | closure ids => "CLOSURE " ++ bracketed (ids.map ClosureId.text)
  | transfer t => "TRANSFER " ++ t.text
  | newArray t => "NEW_ARRAY " ++ t.name
  | arrayAccess .. => "ARRAY_ACCESS"
  | length l => "GET " ++ l.text
  | cast t _ _ _ => "CAST_TO " ++ t.name
  | instanceOf .. => "INSTANCEOF"
  | checkNotNull kind _ _ => "CHECK_NOT_NULL " ++ kind.text
  | ensure rel f _ _ _ => "ENSURE " ++ rel.text ++ " " ++ f.text

end Instr

end Pathwise
