import Pathwise.Range.Basic
import Pathwise.Double
import Pathwise.Type.Bound
import Pathwise.Text.Quoted

/-!
# Facts

A fact describes a set of runtime values: `top` all, `bottom` none, the others
booleans, integers, doubles or references. A fact on references combines what is
known about nullness, runtime class, locality, mutability and identity, and may
state the length of the array or string referred to.
-/

namespace Pathwise

/-- What is known about a reference being null. -/
inductive Nullness where
  | null
  | notNull
  /-- Declared or found to be possibly null. -/
  | nullable
  | unknown
  deriving DecidableEq, Repr, Inhabited

/-- What is known about an object being open to modification. -/
inductive Mutability where
  | unknown
  | mutable
  | unmodifiable
  deriving DecidableEq, Repr, Inhabited

/-- Whether a modification is allowed as far as is known. -/
def Mutability.canBeModified (m : Mutability) : Bool := m != unmodifiable

/-- The two lengths an object can have. -/
inductive Length where
  | array
  | string
  deriving DecidableEq, Repr, Inhabited

/-- A length as it is read in source. -/
def Length.text : Length → String
  | array => "length"
  | string => "length()"

/-- A constant reference other than null. -/
inductive RefLiteral where
  | string (value : String)
  /-- The class object of a type. -/
  | classObject (type : TypeDesc)
  deriving DecidableEq

/-- What is known about a double. -/
inductive DoubleFact where
  | any
  | const (value : Double)
  | nan
  deriving DecidableEq

/-- The number of a constant. -/
def DoubleFact.value? : DoubleFact → Option Double
  | const d => some d
  | _ => none

/-- The fact on one machine number, where no number stands for a NaN. -/
def DoubleFact.of : Option Double → DoubleFact
  | some d => const d
  | none => nan

/-- What is known about a reference, lengths apart. -/
structure RefInfo where
  nullness : Nullness
  bound : TypeBound
  /-- Whether the object was made here and has not escaped. -/
  isLocal : Bool
  mutability : Mutability
  /-- The constant referred to, if it is known. -/
  literal : Option RefLiteral
  deriving DecidableEq

/-- Nothing but nullness. -/
def RefInfo.ofNullness (n : Nullness) : RefInfo := ⟨n, .top, false, .unknown, none⟩

/-- A description of a set of runtime values. -/
inductive Fact where
  /-- No value. -/
  | bottom
  /-- Every value. -/
  | top
  /-- A boolean, where no value stands for either. -/
  | bool (value : Option Bool)
  | int (range : Range)
  | double (value : DoubleFact)
  /-- A reference, with the facts stated on the length of the array or string. -/
  | ref (info : RefInfo) (arrayLength stringLength : Option Fact)

namespace Fact

instance : Inhabited Fact := ⟨top⟩

mutual

/-- Decides equality of facts. -/
protected def decEq : (f g : Fact) → Decidable (f = g)
  | bottom, g =>
    match g with
    | bottom => isTrue rfl
    | top | bool _ | int _ | double _ | ref .. => isFalse nofun
  | top, g =>
    match g with
    | top => isTrue rfl
    | bottom | bool _ | int _ | double _ | ref .. => isFalse nofun
  | bool a, g =>
    match g with
    | bool b => decidable_of_iff (a = b) (by simp)
    | bottom | top | int _ | double _ | ref .. => isFalse nofun
  | int a, g =>
    match g with
    | int b => decidable_of_iff (a = b) (by simp)
    | bottom | top | bool _ | double _ | ref .. => isFalse nofun
  | double a, g =>
    match g with
    | double b => decidable_of_iff (a = b) (by simp)
    | bottom | top | bool _ | int _ | ref .. => isFalse nofun
  | ref a al sl, g =>
    match g with
    | ref b al' sl' =>
      have := Fact.decEqStated al al'
      have := Fact.decEqStated sl sl'
      decidable_of_iff (a = b ∧ al = al' ∧ sl = sl') (by simp)
    | bottom | top | bool _ | int _ | double _ => isFalse nofun

/-- Decides equality of stated facts. -/
protected def decEqStated : (f g : Option Fact) → Decidable (f = g)
  | none, none => isTrue rfl
  | some f, some g =>
    have := Fact.decEq f g
    decidable_of_iff (f = g) (by simp)
  | some _, none => isFalse nofun
  | none, some _ => isFalse nofun

end

instance : DecidableEq Fact := Fact.decEq

/-! ## Making facts -/

/-- A reference of which only nullness is known. -/
def ofNullness (n : Nullness) : Fact := ref (.ofNullness n) none none

/-- The null reference. -/
def null : Fact := ofNullness .null

/-- A reference that is not null. -/
def notNull : Fact := ofNullness .notNull

/-- A reference declared to be possibly null. -/
def nullable : Fact := ofNullness .nullable

/-- Any reference. -/
def unknownRef : Fact := ofNullness .unknown

/-- A reference to an object that was made here and has not escaped. -/
def localObject : Fact := ref { RefInfo.ofNullness .unknown with isLocal := true } none none

/-- A reference within a type bound. -/
def ofBound (n : Nullness) (b : TypeBound) : Fact :=
  ref { RefInfo.ofNullness n with bound := b } none none

/-- A boolean constant. -/
def ofBool (b : Bool) : Fact := bool (some b)

/-- An integer constant. -/
def ofInt (n : Int) : Fact := int (.point n)

/-- The integers of a range. -/
def ofRange (r : Range) : Fact := if r.isEmpty then bottom else int r

/-- The double of a bit pattern. -/
def ofDouble (d : Option Double) : Fact := double (.of d)

/-- A string constant. -/
def ofString (s : String) : Fact :=
  ref ⟨.notNull, .exactly .string, false, .unknown, some (.string s)⟩ none none

/-- The class object of a type. -/
def ofClassObject (t : TypeDesc) : Fact :=
  ref ⟨.notNull, .exactly .classObject, false, .unknown, some (.classObject t)⟩ none none

/-- The values of a primitive type of this name. -/
def ofPrimitive (name : String) : Fact :=
  match name with
  | "boolean" => bool none
  | "long" => int (.ofWidth .long)
  | "int" => int (.ofWidth .int)
  | "short" => int (.between (-32768) 32767)
  | "char" => int (.between 0 65535)
  | "byte" => int (.between (-128) 127)
  | "float" | "double" => double .any
  | _ => top

/-- The values of a declared type. -/
def ofType (t : TypeDesc) (n : Nullness) : Fact :=
  if t.isPrimitive then ofPrimitive t.name else ofBound n (.subtypeOf t)

/-- A reference to an object of exactly this class. -/
def ofExactType (t : TypeDesc) (n : Nullness) : Fact := ofBound n (.exactly t)

/-! ## Reading facts -/

/-- Whether no value satisfies the fact by its form. -/
def isBottom : Fact → Bool
  | bottom => true
  | _ => false

/-- Whether the fact says nothing. -/
def isTop : Fact → Bool
  | top => true
  | _ => false

/-- What is known about the reference. -/
def info? : Fact → Option RefInfo
  | ref r _ _ => some r
  | _ => none

/-- What is known about the value being null; a value that is no reference is not. -/
def nullness : Fact → Nullness
  | ref r _ _ => r.nullness
  | top => .unknown
  | _ => .notNull

/-- Whether the value is known to be null. -/
def isNull (f : Fact) : Bool := f.nullness == .null

/-- Whether the value is known to be a local object. -/
def isLocal (f : Fact) : Bool := f.info?.any (·.isLocal)

/-- What is known about the object being modifiable. -/
def mutability (f : Fact) : Mutability := (f.info?.map (·.mutability)).getD .unknown

/-- What is known about the runtime class. -/
def bound (f : Fact) : TypeBound := (f.info?.map (·.bound)).getD .top

/-- The boolean, if it is known. -/
def bool? : Fact → Option Bool
  | bool b => b
  | _ => none

/-- The integer, if it is known. -/
def int? : Fact → Option Int
  | int r => r.single?
  | _ => none

/-- The range of an integer. -/
def range? : Fact → Option Range
  | int r => some r
  | _ => none

/-- The string, if it is known. -/
def string? (f : Fact) : Option String :=
  match f.info?.bind (·.literal) with
  | some (.string s) => some s
  | _ => none

/-- The type whose class object the value is, if it is known. -/
def classObject? (f : Fact) : Option TypeDesc :=
  match f.info?.bind (·.literal) with
  | some (.classObject t) => some t
  | _ => none

/-- Whether the fact leaves a single value. -/
def isConstant : Fact → Bool
  | bool b => b.isSome
  | int r => r.single?.isSome
  | double d => d != .any
  | ref r _ _ => r.nullness == .null || r.literal.isSome
  | bottom | top => false

/-- Whether an array of this type, or an object of it, may refer to its owner.
Only primitive arrays and exact strings, or arrays of them, may not. -/
def typeMayLeak (isExact : Bool) : TypeDesc → Bool
  | .array c => if c.isPrimitive then false else typeMayLeak isExact c
  | t => t.name != stringName || !isExact

/-- Whether an object described by the fact may hold a reference to its owner. -/
def mayLeak : Fact → Bool
  | top => true
  | ref r _ _ =>
    match r.bound.mostSpecific? with
    | some t => typeMayLeak r.bound.known?.isSome t
    | none => true
  | bottom | bool _ | int _ | double _ => false

/-! ## Changing facts -/

/-- The fact with a statement on a length in place of any before. -/
def withLength (f : Fact) (l : Length) (value : Fact) : Fact :=
  match f, l with
  | ref r _ s, .array => ref r (some value) s
  | ref r a _, .string => ref r a (some value)
  | top, .array => ref (.ofNullness .unknown) (some value) none
  | top, .string => ref (.ofNullness .unknown) none (some value)
  | f, _ => f

/-- The fact without locality. -/
def dropLocality : Fact → Fact
  | ref r a s => ref { r with isLocal := false } a s
  | f => f

/-- The fact with another mutability. -/
def withMutability (f : Fact) (m : Mutability) : Fact :=
  match f with
  | ref r a s => ref { r with mutability := m } a s
  | f => f

/-- What is known of a reference after it has been dereferenced. -/
def dereferenced : Fact → Fact
  | ref r a s => if r.nullness = .null then notNull else ref { r with nullness := .notNull } a s
  | top => notNull
  | f => f

/-! ## Text -/

/-- The words of a reference fact that come before its lengths. -/
def infoWords (r : RefInfo) : List String :=
  (match r.nullness with
    | .notNull => ["!null"]
    | .nullable => ["nullable"]
    | .null | .unknown => []) ++
  (match r.bound.known?, r.bound.mostSpecific? with
    | some t, _ => ["exactly " ++ t.name]
    | none, some t => ["instanceof " ++ t.name]
    | none, none => []) ++
  (if r.isLocal then ["local"] else []) ++
  (if r.mutability = .unmodifiable then ["unmodifiable"] else [])

mutual

/-- A fact as it is printed. -/
def text : Fact → String
  | bottom => "⊥"
  | top => "⊤"
  | bool none => "boolean"
  | bool (some b) => if b then "true" else "false"
  | int r => "int " ++ r.text
  | double .any => "double"
  | double .nan => "NaN"
  | double (.const d) => d.text
  | ref r a s =>
    if r.nullness = .null then "null"
    else
      match r.literal with
      | some (.string v) => Text.quoted v
      | some (.classObject t) => t.name ++ ".class"
      | none =>
        let words := infoWords r ++ lengthWords .array a ++ lengthWords .string s
        if words.isEmpty then "Object" else " ".intercalate words

/-- The word of a stated length. -/
def lengthWords (l : Length) : Option Fact → List String
  | none => []
  | some f => [l.text ++ "=" ++ f.text]

end

end Fact

end Pathwise
