import Pathwise.Ordered.Set

/-!
# Types

A type is a primitive, a class or interface, or an array. A class carries the
names of all its supertypes and whether it is final, so subtyping is decided
without a class table.

Types are ordered by name, then supertypes, finality and primitiveness, and last
by component type, a type without component first. The order is that of the
lists of `TypeDesc.layers`, the attributes of a type, of its component, and so on
down to the element type.

## Results

* `TypeDesc.layers_inj` — the layers determine the type, so the order is linear.
-/

namespace Pathwise

open Std

/-- The name of the class above all others. -/
def objectName : String := "java.lang.Object"

/-- The name of the class of strings. -/
def stringName : String := "java.lang.String"

/-- A type of the analysed program. -/
inductive TypeDesc where
  | primitive (name : String)
  /-- A class or interface with the names of all its supertypes. -/
  | classType (name : String) (supertypes : OrdSet String) (isFinal : Bool)
  | array (component : TypeDesc)
  deriving DecidableEq

namespace TypeDesc

instance : Inhabited TypeDesc := ⟨primitive ""⟩

/-- A class or interface with the given supertypes; every class but the topmost
one has that among them. -/
def ofClass (name : String) (supertypes : List String) (isFinal : Bool) : TypeDesc :=
  let declared := OrdSet.ofList supertypes
  classType name (if name = objectName then declared else declared.insert objectName) isFinal

/-- The class above all others. -/
def object : TypeDesc := ofClass objectName [] false

/-- The class of strings. -/
def string : TypeDesc :=
  ofClass stringName ["java.lang.CharSequence", "java.lang.Comparable", "java.io.Serializable"] true

/-- The class of class objects. -/
def classObject : TypeDesc := ofClass "java.lang.Class" [] true

/-- The name; that of an array type ends in brackets. -/
def name : TypeDesc → String
  | primitive n => n
  | classType n _ _ => n
  | array c => c.name ++ "[]"

/-- The names of the proper supertypes. -/
def supertypes : TypeDesc → OrdSet String
  | primitive _ => ∅
  | classType _ s _ => s
  | array _ => OrdSet.ofList ["java.lang.Cloneable", "java.io.Serializable", objectName]

/-- Whether the type has no proper subtypes. -/
def isFinal : TypeDesc → Bool
  | primitive _ => true
  | classType _ _ f => f
  | array c => c.isFinal

/-- Whether the type is primitive. -/
def isPrimitive : TypeDesc → Bool
  | primitive _ => true
  | _ => false

/-- The component type of an array type. -/
def component? : TypeDesc → Option TypeDesc
  | array c => some c
  | _ => none

/-- Whether the type is an array type. -/
def isArray : TypeDesc → Bool
  | array _ => true
  | _ => false

/-- Reflexive subtyping. Arrays of references vary with their components. -/
def isSubtypeOf (s t : TypeDesc) : Bool :=
  s.name == t.name ||
    !s.isPrimitive && !t.isPrimitive &&
      match s, t with
      | array a, array b => !a.isPrimitive && !b.isPrimitive && a.isSubtypeOf b
      | s, t => decide (t.name ∈ s.supertypes)

/-- Whether some class can be a subtype of both: one of the two is a subtype of
the other, or neither is final or an array. -/
def mayIntersect (s t : TypeDesc) : Bool :=
  s.isSubtypeOf t || t.isSubtypeOf s || !(s.isFinal || t.isFinal || s.isArray || t.isArray)

/-! ## Order -/

/-- The attributes of a type other than its component. -/
structure Layer where
  name : String
  supertypes : List String
  isFinal : Bool
  isPrimitive : Bool

instance : Ord Layer where
  compare :=
    compareLex (compareOn Layer.name)
      (compareLex (compareOn Layer.supertypes)
        (compareLex (compareOn Layer.isFinal) (compareOn Layer.isPrimitive)))

instance : TransOrd Layer :=
  inferInstanceAs (TransCmp (compareLex _ (compareLex _ (compareLex _ _))))

instance : LawfulEqOrd Layer where
  eq_of_compare {a b} h := by
    have h : compareLex _ (compareLex _ (compareLex _ _)) a b = .eq := h
    simp only [compareLex_eq_eq, compareOn] at h
    obtain ⟨h₁, h₂, h₃, h₄⟩ := h
    cases a
    cases b
    simp only [Layer.mk.injEq]
    exact ⟨LawfulEqOrd.eq_of_compare h₁, LawfulEqOrd.eq_of_compare h₂,
      LawfulEqOrd.eq_of_compare h₃, LawfulEqOrd.eq_of_compare h₄⟩

/-- The attributes of a type, of its component, and so on. -/
def layers : TypeDesc → List Layer
  | t@(array c) => ⟨t.name, t.supertypes.toList, t.isFinal, false⟩ :: c.layers
  | t => [⟨t.name, t.supertypes.toList, t.isFinal, t.isPrimitive⟩]

theorem layers_ne_nil (t : TypeDesc) : t.layers ≠ [] := by cases t <;> simp [layers]

/-- The layers determine the type. -/
theorem layers_inj {s t : TypeDesc} (h : s.layers = t.layers) : s = t := by
  induction s generalizing t with
  | primitive n =>
    cases t with
    | primitive m => simp_all [layers, name]
    | classType m sup f => simp [layers, isPrimitive] at h
    | array d => exact absurd (List.cons.inj h).2.symm (layers_ne_nil d)
  | classType n sup f =>
    cases t with
    | primitive m => simp [layers, isPrimitive] at h
    | classType m sup' f' =>
      simp only [layers, List.cons.injEq, Layer.mk.injEq, and_true] at h
      obtain ⟨h₁, h₂, h₃, -⟩ := h
      have h₁ : n = m := h₁
      have h₂ : sup = sup' := OrdSet.toList_inj h₂
      have h₃ : f = f' := h₃
      rw [h₁, h₂, h₃]
    | array d => exact absurd (List.cons.inj h).2.symm (layers_ne_nil d)
  | array c ih =>
    cases t with
    | primitive m => exact absurd (List.cons.inj h).2 (layers_ne_nil c)
    | classType m sup f => exact absurd (List.cons.inj h).2 (layers_ne_nil c)
    | array d => rw [ih (List.cons.inj h).2]

instance : Ord TypeDesc := ⟨compareOn layers⟩

instance : TransOrd TypeDesc := inferInstanceAs (TransCmp (compareOn layers))

instance : LawfulEqOrd TypeDesc where
  eq_of_compare h := layers_inj (LawfulEqOrd.eq_of_compare (α := List Layer) h)

end TypeDesc

end Pathwise
