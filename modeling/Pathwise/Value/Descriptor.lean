import Pathwise.Fact.Basic

/-!
# Values

A symbolic value is a variable, a value known only by a fact, a value boxed with
its length, or unknown. Values are referred to by their index in the arena that
holds them. A variable is identified by what it stands for and by the value that
qualifies it, such as the object of a field.
-/

namespace Pathwise

/-- The index of a value in its arena. -/
abbrev ValueId := Nat

/-- A value index as it is printed. -/
def ValueId.text (v : ValueId) : String := "v" ++ toString v

/-- What a variable stands for. -/
inductive Descriptor where
  /-- A local variable; a temporary is one that the source does not name. -/
  | localVar (name : String) (isTemp : Bool)
  | parameter (name : String) (index : Nat)
  | field (name : String) (isStatic isVolatile isFinal : Bool)
  /-- The length of the qualifying array or string. -/
  | length (length : Length)
  /-- The element of the qualifying array at a known index. -/
  | element (index : Int)
  /-- The result of a getter, stable while its qualifier is. -/
  | callResult (name : String)
  deriving DecidableEq, Repr

namespace Descriptor

/-- Whether a call, or a write through another name, may change the variable. -/
def isCallFlushable : Descriptor → Bool
  | field _ _ _ isFinal => !isFinal
  | element _ | callResult _ => true
  | localVar .. | parameter .. | length _ => false

/-- Whether the variable is a volatile field. -/
def isVolatile : Descriptor → Bool
  | field _ _ isVolatile _ => isVolatile
  | _ => false

/-- Whether the variable is a static field. -/
def isStaticField : Descriptor → Bool
  | field _ isStatic _ _ => isStatic
  | _ => false

/-- Whether the variable is a local variable. -/
def isLocalVariable : Descriptor → Bool
  | localVar .. => true
  | _ => false

/-- Whether the variable holds a value on its way to a named one. -/
def isTransient : Descriptor → Bool
  | localVar _ isTemp => isTemp
  | callResult _ => true
  | _ => false

/-- A descriptor as it is printed after its qualifier. -/
def text : Descriptor → String
  | localVar name _ | parameter name _ | field name _ _ _ => name
  | length l => l.text
  | element i => "[" ++ toString i ++ "]"
  | callResult name => name ++ "()"

end Descriptor

/-- A variable. -/
structure Variable where
  descriptor : Descriptor
  qualifier : Option ValueId
  /-- What the declaration says about every value of the variable. -/
  inherent : Fact
  deriving DecidableEq

/-- A symbolic value. -/
inductive Value where
  | var (info : Variable)
  /-- A value known by a fact alone, such as a constant. -/
  | typed (fact : Fact)
  /-- An object of known length, the length being the value `inner`. -/
  | wrapped (length : Length) (inner : ValueId) (fact : Fact)
  | unknown
  deriving DecidableEq

namespace Value

instance : Inhabited Value := ⟨unknown⟩

/-- Whether two values are one: a variable is identified by its descriptor and
qualifier, any other value by all it consists of. -/
def same : Value → Value → Bool
  | var x, var y => x.descriptor == y.descriptor && x.qualifier == y.qualifier
  | u, v => u == v

/-- What is known about the value in every state. -/
def inherent : Value → Fact
  | var x => x.inherent
  | typed f => f
  | wrapped _ _ f => f
  | unknown => .top

end Value

end Pathwise
