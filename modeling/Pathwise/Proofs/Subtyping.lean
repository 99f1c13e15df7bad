import Pathwise.Proofs.Hierarchy

/-!
# The order of types

The classes and interfaces of a program carry the names of all their supertypes. In a coherent
hierarchy (`TypeDesc.Coherent`) these are names of other classes, complete and without cycles. About
arrays nothing has to be said but that the names above all of them, `Object` and two interfaces,
have nothing else above them: an array is below what its component says.

On such types subtyping is a partial order, for arrays of any nesting. A way up starts with arrays,
from component to component, leaves them by name for a class, and then stays among classes, so
transitivity comes down to the names of a class being complete (`TypeDesc.Orderly.trans`), and
antisymmetry to there being no way back from a class to an array.

The arrays over coherent types are coherent with them (`Coherent.nested`), because a bracket at
the end of a name is the mark of an array.

## Results

* `Coherent.orderly` — coherent types are in order.
* `Coherent.nested`  — all arrays over coherent types may be added.
* `isSubtypeOf_partialOrder` — subtyping is a partial order, and arrays vary with their
  components.
-/

namespace Pathwise

namespace TypeDesc

variable {B D : TypeDesc → Prop} {c s t : TypeDesc} {n : String}

-- ---------------------------------------------------------------------------
-- Names of arrays
-- ---------------------------------------------------------------------------

/-- The interfaces of all arrays. -/
def arrayInterfaces : List String := ["java.lang.Cloneable", "java.io.Serializable"]

theorem mem_supertypes_array : n ∈ (array c).supertypes ↔ n ∈ arrayInterfaces ∨ n = objectName := by
  simp [supertypes, arrayInterfaces, or_assoc]

/-- The name is no array's. -/
def IsPlain (n : String) : Prop := n.toList.getLast? ≠ some ']'

instance : Decidable (IsPlain n) := inferInstanceAs (Decidable (¬ _))

theorem not_isPlain_name_array : ¬ IsPlain (array c).name := by
  simp [IsPlain, name]

theorem name_array_ne (h : IsPlain n) : (array c).name ≠ n := by
  rintro rfl
  exact not_isPlain_name_array h

theorem name_array_not_mem_arrayInterfaces : (array c).name ∉ arrayInterfaces := by
  intro hMem
  simp only [arrayInterfaces, List.mem_cons, List.not_mem_nil, or_false] at hMem
  rcases hMem with h | h
  · exact name_array_ne (by simp [IsPlain]) h
  · exact name_array_ne (by simp [IsPlain]) h

theorem name_array_ne_objectName : (array c).name ≠ objectName :=
  name_array_ne (by simp [IsPlain, objectName])

/-- No array is above all arrays. -/
theorem name_array_not_mem_supertypes : (array c).name ∉ (array s).supertypes := by
  rw [mem_supertypes_array, not_or]
  exact ⟨name_array_not_mem_arrayInterfaces, name_array_ne_objectName⟩

-- ---------------------------------------------------------------------------
-- Coherent hierarchies
-- ---------------------------------------------------------------------------

/-- **A coherent class hierarchy**, with any of the arrays over its types. -/
structure Coherent (D : TypeDesc → Prop) : Prop where
  /-- Types of one name are one type. -/
  ext_name   : ∀ {s t}, D s → D t → s.name = t.name → s = t
  component  : ∀ {c}, D (.array c) → D c
  /-- What is above a supertype of a class is above the class. -/
  closed     : ∀ {n sup f t}, D (.classType n sup f) → D t → t.name ∈ sup →
    ∀ m ∈ t.supertypes, m ∈ sup
  acyclic    : ∀ {n sup f}, D (.classType n sup f) → n ∉ sup
  /-- No array and no primitive is above a class. -/
  named      : ∀ {n sup f t}, D (.classType n sup f) → D t → t.name ∈ sup →
    t.isArray = false ∧ t.isPrimitive = false
  /-- Nothing is above the topmost class. -/
  topmost    : ∀ {t}, D t → t.name = objectName → ∀ m, m ∉ t.supertypes
  /-- Only the topmost class is above the interfaces of arrays. -/
  interfaces : ∀ {t}, D t → t.name ∈ arrayInterfaces → ∀ m ∈ t.supertypes, m = objectName

/-- **Coherent types are in order.** What is above an array by name has at most the topmost class
above it, which is above every array. -/
theorem Coherent.orderly (h : Coherent D) : Orderly D where
  ext_name := h.ext_name
  component := h.component
  closed {s t} hs ht hMem n hn := by
    cases s with
    | primitive m => exact absurd hMem OrdSet.not_mem_empty
    | classType m sup f => exact h.closed hs ht hMem n hn
    | array c =>
      rcases mem_supertypes_array.mp hMem with hInterface | hTop
      · exact mem_supertypes_array.mpr (Or.inr (h.interfaces ht hInterface n hn))
      · exact absurd hn (h.topmost ht hTop n)
  acyclic {t} ht := by
    cases t with
    | primitive m => exact OrdSet.not_mem_empty
    | classType m sup f => exact h.acyclic ht
    | array c => exact name_array_not_mem_supertypes
  not_array {s t} hs ht hMem := by
    cases s with
    | primitive m => exact absurd hMem OrdSet.not_mem_empty
    | classType m sup f => exact (h.named hs ht hMem).1
    | array c =>
      cases t with
      | array d => exact absurd hMem name_array_not_mem_supertypes
      | _ => rfl

/-- The types and all arrays over them, of any nesting. -/
inductive Nested (B : TypeDesc → Prop) : TypeDesc → Prop where
  | base {t : TypeDesc} : B t → Nested B t
  | array {c : TypeDesc} : Nested B c → Nested B (.array c)

/-- **All arrays over coherent types** are coherent with them, if no class has a name, or a
supertype, that could be an array's. -/
theorem Coherent.nested (h : Coherent B)
    (hPlain : ∀ t, B t → IsPlain t.name ∧ ∀ m ∈ t.supertypes, IsPlain m) : Coherent (Nested B) where
  ext_name {s t} hs ht hName := by
    induction hs generalizing t with
    | base hs =>
      cases ht with
      | base ht => exact h.ext_name hs ht hName
      | array ht => exact absurd hName.symm (name_array_ne (hPlain _ hs).1)
    | array hs ih =>
      cases ht with
      | base ht => exact absurd hName (name_array_ne (hPlain _ ht).1)
      | array ht => rw [ih ht (name_array_inj.mp hName)]
  component hs := by
    cases hs with
    | base hs => exact absurd (hPlain _ hs).1 not_isPlain_name_array
    | array hs => exact hs
  closed hs ht hMem := by
    cases hs with
    | base hs =>
      cases ht with
      | base ht => exact h.closed hs ht hMem
      | array ht => exact absurd ((hPlain _ hs).2 _ hMem) not_isPlain_name_array
  acyclic hs := by
    cases hs with
    | base hs => exact h.acyclic hs
  named hs ht hMem := by
    cases hs with
    | base hs =>
      cases ht with
      | base ht => exact h.named hs ht hMem
      | array ht => exact absurd ((hPlain _ hs).2 _ hMem) not_isPlain_name_array
  topmost ht hName := by
    cases ht with
    | base ht => exact h.topmost ht hName
    | array ht => exact absurd hName name_array_ne_objectName
  interfaces ht hMem := by
    cases ht with
    | base ht => exact h.interfaces ht hMem
    | array ht => exact absurd hMem name_array_not_mem_arrayInterfaces

end TypeDesc

/-- The types of a program are coherent if the topmost class has no supertypes, and the interfaces
of arrays have no others. -/
theorem Hierarchy.coherent (H : Hierarchy)
    (hTopmost : ∀ t, H.Declares t → t.name = objectName → ∀ m, m ∉ t.supertypes)
    (hInterfaces : ∀ t, H.Declares t → t.name ∈ TypeDesc.arrayInterfaces →
      ∀ m ∈ t.supertypes, m = objectName) : TypeDesc.Coherent H.Declares where
  ext_name := H.ext_name
  component := H.component
  closed := H.closed
  acyclic := H.acyclic
  named := H.named
  topmost ht := hTopmost _ ht
  interfaces ht := hInterfaces _ ht

namespace TypeDesc

-- ---------------------------------------------------------------------------
-- The order
-- ---------------------------------------------------------------------------

variable {D : TypeDesc → Prop} {s t : TypeDesc}

/-- A type that is no array is below itself and below what it names. -/
theorem Coherent.isSubtypeOf_iff (h : Coherent D) (hs : D s) (ht : D t)
    (hArray : s.isArray = false) : s.isSubtypeOf t = true ↔ s = t ∨ t.name ∈ s.supertypes := by
  rw [h.orderly.isSubtypeOf_iff hs ht]
  constructor
  · rintro (hEq | ⟨a, b, rfl, -⟩ | ⟨-, hMem⟩)
    · exact Or.inl hEq
    · cases hArray
    · exact Or.inr hMem
  · rintro (hEq | hMem)
    · exact Or.inl hEq
    · cases s with
      | primitive m => exact absurd hMem OrdSet.not_mem_empty
      | classType m sup f => exact Or.inr (Or.inr ⟨(h.named hs ht hMem).2, hMem⟩)
      | array c => cases hArray

/-- **Subtyping is a partial order** on the types of a coherent hierarchy. A type that is no array
is below itself and its supertypes. An array is below another one if their components are of one
name, or both references and the one below the other. -/
theorem isSubtypeOf_partialOrder (h : Coherent D) :
    (∀ t, D t → t.isSubtypeOf t = true) ∧
    (∀ s t u, D s → D t → D u → s.isSubtypeOf t = true → t.isSubtypeOf u = true →
      s.isSubtypeOf u = true) ∧
    (∀ s t, D s → D t → s.isSubtypeOf t = true → t.isSubtypeOf s = true → s = t) ∧
    (∀ a b, (array a).isSubtypeOf (array b) = true ↔
      a.name = b.name ∨ a.isPrimitive = false ∧ b.isPrimitive = false ∧ a.isSubtypeOf b = true) ∧
    ∀ s t, D s → D t → s.isArray = false →
      (s.isSubtypeOf t = true ↔ s = t ∨ t.name ∈ s.supertypes) :=
  ⟨fun t _ => isSubtypeOf_refl t, fun _ _ _ hs ht hu => h.orderly.trans hs ht hu,
    fun _ _ hs ht => h.orderly.antisymm hs ht, fun _ _ => isSubtypeOf_array_iff,
    fun _ _ hs ht => h.isSubtypeOf_iff hs ht⟩

/-- An interface with no other above it. -/
def charSequence : TypeDesc := ofClass "java.lang.CharSequence" [] false

/-- One of the interfaces of arrays. -/
def serializable : TypeDesc := ofClass "java.io.Serializable" [] false

/-- Strings, what they are below, and a primitive type. -/
def stringTypes : Hierarchy :=
  .ofList [object, charSequence, serializable, string, primitive "int"] (by decide +kernel)

theorem coherent_stringTypes : Coherent (Nested stringTypes.Declares) := by
  have hListed : ∀ t ∈ [object, charSequence, serializable, string, primitive "int"],
      (t.name = objectName → t.supertypes = ∅) ∧
      (t.name ∈ arrayInterfaces → ∀ m ∈ t.supertypes.toList, m = objectName) ∧
      IsPlain t.name ∧ ∀ m ∈ t.supertypes.toList, IsPlain m := by
    decide +kernel
  refine (stringTypes.coherent (fun t ht hName m => ?_) fun t ht => (hListed t ht).2.1).nested
    fun t ht => (hListed t ht).2.2
  rw [(hListed t ht).1 hName]
  exact OrdSet.not_mem_empty

/-- Arrays of arrays of strings are arrays of what can be serialized, by way of those of character
sequences. No array of integers is one of objects. -/
theorem isSubtypeOf_partialOrder_strings :
    Coherent (Nested stringTypes.Declares) ∧
      (array (array string)).isSubtypeOf (array serializable) = true ∧
      (array (primitive "int")).isSubtypeOf (array object) = false := by
  have hNested : ∀ t ∈ [charSequence, serializable, string], Nested stringTypes.Declares t :=
    fun t ht => .base (List.mem_append_right [object] (List.mem_append_left [primitive "int"] ht))
  have hSequence := hNested charSequence (by simp)
  have hSerializable := hNested serializable (by simp)
  have hString := hNested string (by simp)
  obtain ⟨-, hTrans, -, hArrays, hNamed⟩ := isSubtypeOf_partialOrder coherent_stringTypes
  have hBelow : string.isSubtypeOf charSequence = true :=
    (hNamed _ _ hString hSequence rfl).mpr (Or.inr (by decide +kernel))
  have hLower : (array (array string)).isSubtypeOf (array (array charSequence)) = true :=
    (hArrays _ _).mpr (Or.inr ⟨rfl, rfl, (hArrays _ _).mpr (Or.inr ⟨rfl, rfl, hBelow⟩)⟩)
  have hUpper : (array (array charSequence)).isSubtypeOf (array serializable) = true :=
    (hArrays _ _).mpr (Or.inr ⟨rfl, rfl, by decide +kernel⟩)
  refine ⟨coherent_stringTypes, ?_, ?_⟩
  · exact hTrans _ _ _ hString.array.array hSequence.array.array hSerializable.array hLower hUpper
  · rw [← Bool.not_eq_true, hArrays]
    rintro (hName | ⟨hPrimitive, -⟩)
    · exact absurd hName (by decide +kernel)
    · cases hPrimitive

end TypeDesc

end Pathwise
