import Mathlib.Tactic.Common
import Pathwise.Type.Basic

/-!
# Class hierarchies

Subtyping compares names and looks names up among the supertypes that a type carries,
so it means something only for types that fit together. A `Hierarchy` is the set of
types that a program declares: a name stands for one type, the supertypes of a
supertype are carried as well, no class is above itself, final classes have nothing
below them, and arrays and primitives are above no class.

Names and supertypes are all that the order needs (`TypeDesc.Orderly`): on such types
subtyping is transitive and antisymmetric, however deep arrays are nested. Two types of a
hierarchy with a common subtype may intersect as the test says, with one exception: two
array types whose components are incomparable interfaces do have common subtypes, arrays of
a class below both, and the test denies it. `OrdersArrays` says of a class that this does
not happen.

## Results

* `TypeDesc.Orderly.trans`, `TypeDesc.Orderly.antisymm` — subtyping is an order.
* `isSubtypeOf_iff`   — subtyping of declared types, by cases.
* `mayIntersect_of_common` — types with a common subtype may intersect.
-/

namespace Pathwise

namespace TypeDesc

/-- **Types that subtyping puts in order.** What arrays and primitives carry is fixed, so for them
this says something about the types that they are below: the supertypes of `Cloneable` are among
those of an array, and no array is one. -/
structure Orderly (D : TypeDesc → Prop) : Prop where
  /-- A name stands for one type. -/
  ext_name  : ∀ {s t}, D s → D t → s.name = t.name → s = t
  component : ∀ {c}, D (.array c) → D c
  /-- A type carries the names of all its supertypes. -/
  closed    : ∀ {s t}, D s → D t → t.name ∈ s.supertypes → ∀ n ∈ t.supertypes, n ∈ s.supertypes
  acyclic   : ∀ {t}, D t → t.name ∉ t.supertypes
  /-- No array is a supertype by name. -/
  not_array : ∀ {s t}, D s → D t → t.name ∈ s.supertypes → t.isArray = false

variable {D : TypeDesc → Prop} {c s t u : TypeDesc}

theorem isSubtypeOf_of_name_eq (h : s.name = t.name) : s.isSubtypeOf t = true := by
  unfold isSubtypeOf
  simp [h]

theorem isSubtypeOf_refl (t : TypeDesc) : t.isSubtypeOf t = true := isSubtypeOf_of_name_eq rfl

theorem name_array_inj : (array s).name = (array t).name ↔ s.name = t.name :=
  String.append_left_inj "[]"

/-- **Arrays** are below each other if their components are, or if these are of one name. -/
theorem isSubtypeOf_array_iff : (array s).isSubtypeOf (array t) = true ↔
    s.name = t.name ∨ s.isPrimitive = false ∧ t.isPrimitive = false ∧ s.isSubtypeOf t = true := by
  rw [isSubtypeOf, Bool.or_eq_true, beq_iff_eq, name_array_inj]
  simp [isPrimitive, and_assoc]

/-- An array of references is below another one if its component is below the other's. -/
theorem isSubtypeOf_array (hs : s.isPrimitive = false) (ht : t.isPrimitive = false) :
    (array s).isSubtypeOf (array t) = s.isSubtypeOf t := by
  rw [Bool.eq_iff_iff, isSubtypeOf_array_iff]
  constructor
  · rintro (hName | ⟨-, -, hSub⟩)
    · exact isSubtypeOf_of_name_eq hName
    · exact hSub
  · exact fun hSub => Or.inr ⟨hs, ht, hSub⟩

/-- A primitive type has no supertypes by name. -/
theorem not_primitive_of_mem {n : String} (hMem : n ∈ s.supertypes) : s.isPrimitive = false := by
  cases s with
  | primitive m => exact absurd hMem OrdSet.not_mem_empty
  | classType m sup f => rfl
  | array c => rfl

namespace Orderly

/-- The supertypes by name of a type are no arrays. -/
theorem not_array_of_mem (h : Orderly D) (hs : D s) (ht : D (.array t))
    (hMem : (TypeDesc.array t).name ∈ s.supertypes) : False := by
  have hNot := h.not_array hs ht hMem
  cases hNot

/-- **Subtyping by cases**: the same type, arrays of references with components in
subtyping, or a supertype by name. -/
theorem isSubtypeOf_iff (h : Orderly D) (hs : D s) (ht : D t) :
    s.isSubtypeOf t = true ↔
      s = t ∨
      (∃ a b, s = .array a ∧ t = .array b ∧ a.isPrimitive = false ∧ b.isPrimitive = false ∧
        a.isSubtypeOf b = true) ∨
      t.isPrimitive = false ∧ t.name ∈ s.supertypes := by
  constructor
  · intro hSub
    unfold isSubtypeOf at hSub
    rw [Bool.or_eq_true, beq_iff_eq] at hSub
    rcases hSub with hName | hSub
    · exact Or.inl (h.ext_name hs ht hName)
    · simp only [Bool.and_eq_true, Bool.not_eq_true'] at hSub
      obtain ⟨⟨-, hPrimitive⟩, hSub⟩ := hSub
      split at hSub
      · rename_i a b
        simp only [Bool.and_eq_true, Bool.not_eq_true'] at hSub
        exact Or.inr (Or.inl ⟨a, b, rfl, rfl, hSub.1.1, hSub.1.2, hSub.2⟩)
      · exact Or.inr (Or.inr ⟨hPrimitive, of_decide_eq_true hSub⟩)
  · rintro (rfl | ⟨a, b, rfl, rfl, ha, hb, hSub⟩ | ⟨hPrimitive, hMem⟩)
    · exact isSubtypeOf_refl s
    · exact isSubtypeOf_array_iff.mpr (Or.inr ⟨ha, hb, hSub⟩)
    · have hArray := h.not_array hs ht hMem
      unfold isSubtypeOf
      rw [Bool.or_eq_true, not_primitive_of_mem hMem, hPrimitive]
      refine Or.inr ?_
      rw [Bool.not_false, Bool.true_and, Bool.true_and]
      split
      · cases hArray
      · exact decide_eq_true hMem

/-- What is above a supertype by name is one. -/
theorem isSubtypeOf_of_mem (h : Orderly D) (hs : D s) (ht : D t) (hu : D u)
    (hMem : t.name ∈ s.supertypes) (htu : t.isSubtypeOf u = true)
    (hPrimitive : t.isPrimitive = false) : s.isSubtypeOf u = true := by
  rcases (h.isSubtypeOf_iff ht hu).mp htu with rfl | ⟨a, b, rfl, -⟩ | ⟨hPrimitive', hMem'⟩
  · exact (h.isSubtypeOf_iff hs ht).mpr (Or.inr (Or.inr ⟨hPrimitive, hMem⟩))
  · exact (h.not_array_of_mem hs ht hMem).elim
  · exact (h.isSubtypeOf_iff hs hu).mpr
      (Or.inr (Or.inr ⟨hPrimitive', h.closed hs ht hMem _ hMem'⟩))

/-- **Subtyping is transitive.** The induction is on the nesting of arrays; a class on the
way up is passed by name. -/
theorem trans (h : Orderly D) (hs : D s) (ht : D t) (hu : D u) (hst : s.isSubtypeOf t = true)
    (htu : t.isSubtypeOf u = true) : s.isSubtypeOf u = true := by
  induction s generalizing t u with
  | array a ih =>
    rcases (h.isSubtypeOf_iff hs ht).mp hst with
      rfl | ⟨a', b, hEq, rfl, ha, hb, hab⟩ | ⟨hPrimitive, hMem⟩
    · exact htu
    · cases hEq
      rcases (h.isSubtypeOf_iff ht hu).mp htu with
        rfl | ⟨b', d, hEq, rfl, -, hd, hbd⟩ | ⟨hPrimitive, hMem⟩
      · exact hst
      · cases hEq
        have had := ih (h.component hs) (h.component ht) (h.component hu) hab hbd
        exact (h.isSubtypeOf_iff hs hu).mpr (Or.inr (Or.inl ⟨a, d, rfl, rfl, ha, hd, had⟩))
      · exact (h.isSubtypeOf_iff hs hu).mpr (Or.inr (Or.inr ⟨hPrimitive, hMem⟩))
    · exact h.isSubtypeOf_of_mem hs ht hu hMem htu hPrimitive
  | _ =>
    rcases (h.isSubtypeOf_iff hs ht).mp hst with rfl | ⟨a, b, hEq, -⟩ | ⟨hPrimitive, hMem⟩
    · exact htu
    · cases hEq
    · exact h.isSubtypeOf_of_mem hs ht hu hMem htu hPrimitive

/-- Of two types neither is below the other by name if the other is below it. -/
theorem not_mem_supertypes (h : Orderly D) (hs : D s) (ht : D t) (hts : t.isSubtypeOf s = true)
    (hNe : s ≠ t) : t.name ∉ s.supertypes := by
  intro hMem
  rcases (h.isSubtypeOf_iff ht hs).mp hts with hEq | ⟨a, b, rfl, -⟩ | ⟨-, hMem'⟩
  · exact hNe hEq.symm
  · exact h.not_array_of_mem hs ht hMem
  · exact h.acyclic hs (h.closed hs ht hMem _ hMem')

/-- **Subtyping is antisymmetric.** -/
theorem antisymm (h : Orderly D) (hs : D s) (ht : D t) (hst : s.isSubtypeOf t = true)
    (hts : t.isSubtypeOf s = true) : s = t := by
  by_contra hNe
  induction s generalizing t with
  | array a ih =>
    rcases (h.isSubtypeOf_iff hs ht).mp hst with hEq | ⟨a', b, hEq, rfl, -, -, hab⟩ | ⟨-, hMem⟩
    · exact hNe hEq
    · cases hEq
      rcases (h.isSubtypeOf_iff ht hs).mp hts with
        hEq | ⟨b', a', hEq, hEq', -, -, hba⟩ | ⟨-, hMem⟩
      · exact hNe hEq.symm
      · cases hEq
        cases hEq'
        exact ih (h.component hs) (h.component ht) hab hba fun hEq => hNe (by rw [hEq])
      · exact h.not_array_of_mem ht hs hMem
    · exact h.not_mem_supertypes hs ht hts hNe hMem
  | _ =>
    rcases (h.isSubtypeOf_iff hs ht).mp hst with hEq | ⟨a, b, hEq, -⟩ | ⟨-, hMem⟩
    · exact hNe hEq
    · cases hEq
    · exact h.not_mem_supertypes hs ht hts hNe hMem

end Orderly

end TypeDesc

/-- The types of a program. -/
structure Hierarchy where
  /-- The program declares the type. -/
  Declares : TypeDesc → Prop
  /-- A name stands for one type. -/
  ext_name : ∀ {s t}, Declares s → Declares t → s.name = t.name → s = t
  component : ∀ {c}, Declares (.array c) → Declares c
  /-- A type carries the names of all its supertypes. -/
  closed : ∀ {s t}, Declares s → Declares t → t.name ∈ s.supertypes →
    ∀ n ∈ t.supertypes, n ∈ s.supertypes
  acyclic : ∀ {t}, Declares t → t.name ∉ t.supertypes
  /-- A final type has no proper subtypes. -/
  final : ∀ {s t}, Declares s → Declares t → t.isFinal = true → t.name ∉ s.supertypes
  /-- Only classes and interfaces are supertypes by name. -/
  named : ∀ {s t}, Declares s → Declares t → t.name ∈ s.supertypes →
    t.isArray = false ∧ t.isPrimitive = false

namespace Hierarchy

variable {H : Hierarchy} {c s t u : TypeDesc}

/-- The types of a program are in order. -/
theorem orderly (H : Hierarchy) : TypeDesc.Orderly H.Declares where
  ext_name := H.ext_name
  component := H.component
  closed := H.closed
  acyclic := H.acyclic
  not_array hs ht hMem := (H.named hs ht hMem).1

/-- **Subtyping of declared types by cases**: no primitive is a supertype by name. -/
theorem isSubtypeOf_iff (hs : H.Declares s) (ht : H.Declares t) :
    s.isSubtypeOf t = true ↔
      s = t ∨
      (∃ a b, s = .array a ∧ t = .array b ∧ a.isPrimitive = false ∧ b.isPrimitive = false ∧
        a.isSubtypeOf b = true) ∨
      t.name ∈ s.supertypes := by
  rw [H.orderly.isSubtypeOf_iff hs ht, and_iff_right_of_imp fun hMem => (H.named hs ht hMem).2]

theorem isSubtypeOf_trans (hs : H.Declares s) (ht : H.Declares t) (hu : H.Declares u)
    (hst : s.isSubtypeOf t = true) (htu : t.isSubtypeOf u = true) : s.isSubtypeOf u = true :=
  H.orderly.trans hs ht hu hst htu

/-- A final type that is no array has only itself below it. -/
theorem eq_of_final (hs : H.Declares s) (ht : H.Declares t) (hArray : t.isArray = false)
    (hFinal : t.isFinal = true) (hst : s.isSubtypeOf t = true) : s = t := by
  rcases (isSubtypeOf_iff hs ht).mp hst with hEq | ⟨a, b, -, rfl, -⟩ | hMem
  · exact hEq
  · cases hArray
  · exact absurd hMem (H.final hs ht hFinal)

/-- What is below an array type is an array. -/
theorem isArray_of_isSubtypeOf (hs : H.Declares s) (ht : H.Declares t) (hArray : t.isArray = true)
    (hst : s.isSubtypeOf t = true) : s.isArray = true := by
  rcases (isSubtypeOf_iff hs ht).mp hst with rfl | ⟨a, b, rfl, -⟩ | hMem
  · exact hArray
  · rfl
  · rw [(H.named hs ht hMem).1] at hArray
    cases hArray

theorem eq_array_of_isArray (h : t.isArray = true) : ∃ a, t = .array a := by
  cases t with
  | array a => exact ⟨a, rfl⟩
  | _ => cases h

/-- What is above one array by name is above all arrays. -/
theorem isSubtypeOf_of_arrays (hs : H.Declares s) (ht : H.Declares t) (hu : H.Declares u)
    (hs' : s.isArray = true) (ht' : t.isArray = true) (hu' : u.isArray = false)
    (hsu : s.isSubtypeOf u = true) : t.isSubtypeOf u = true := by
  obtain ⟨a, rfl⟩ := eq_array_of_isArray hs'
  obtain ⟨b, rfl⟩ := eq_array_of_isArray ht'
  rcases (isSubtypeOf_iff hs hu).mp hsu with rfl | ⟨a', b', -, rfl, -⟩ | hMem
  · cases hu'
  · cases hu'
  · exact (isSubtypeOf_iff ht hu).mpr (Or.inr (Or.inr hMem))

/-- The array types above a class are in a row. -/
def OrdersArrays (H : Hierarchy) (c : TypeDesc) : Prop :=
  ∀ s t, H.Declares s → H.Declares t → s.isArray = true → t.isArray = true →
    c.isSubtypeOf s = true → c.isSubtypeOf t = true →
    s.isSubtypeOf t = true ∨ t.isSubtypeOf s = true

/-- **Types with a common subtype may intersect**; two array types have to be in a row. -/
theorem mayIntersect_of_common (hc : H.Declares c) (hs : H.Declares s) (ht : H.Declares t)
    (hArrays : s.isArray = true → t.isArray = true →
      s.isSubtypeOf t = true ∨ t.isSubtypeOf s = true) (hcs : c.isSubtypeOf s = true)
    (hct : c.isSubtypeOf t = true) :
    s.mayIntersect t = true := by
  simp only [TypeDesc.mayIntersect, Bool.or_eq_true]
  cases hsArray : s.isArray with
  | true =>
    cases htArray : t.isArray with
    | true => exact Or.inl (hArrays hsArray htArray)
    | false =>
      have hcArray := isArray_of_isSubtypeOf hc hs hsArray hcs
      exact Or.inl (Or.inl (isSubtypeOf_of_arrays hc hs ht hcArray hsArray htArray hct))
  | false =>
    cases htArray : t.isArray with
    | true =>
      have hcArray := isArray_of_isSubtypeOf hc ht htArray hct
      exact Or.inl (Or.inr (isSubtypeOf_of_arrays hc ht hs hcArray htArray hsArray hcs))
    | false =>
      cases hsFinal : s.isFinal with
      | true =>
        have hEq := eq_of_final hc hs hsArray hsFinal hcs
        exact Or.inl (Or.inl (hEq ▸ hct))
      | false =>
        cases htFinal : t.isFinal with
        | true =>
          have hEq := eq_of_final hc ht htArray htFinal hct
          exact Or.inl (Or.inr (hEq ▸ hcs))
        | false => exact Or.inr rfl

-- ---------------------------------------------------------------------------
-- Listed types
-- ---------------------------------------------------------------------------

/-- Whether the types of a list fit together. -/
def fitTogether (l : List TypeDesc) : Bool :=
  (l.all fun s => match s with | .array c => decide (c ∈ l) | _ => true) &&
  l.all fun s => !decide (s.name ∈ s.supertypes) && l.all fun t =>
    (s.name != t.name || s == t) &&
    (!decide (t.name ∈ s.supertypes) ||
      !t.isFinal && !t.isArray && !t.isPrimitive &&
        t.supertypes.all fun n => decide (n ∈ s.supertypes))

/-- The types of a list that fit together. -/
def ofList (l : List TypeDesc) (h : fitTogether l = true) : Hierarchy where
  Declares t := t ∈ l
  ext_name {s t} hs ht hName := by
    simp only [fitTogether, Bool.and_eq_true, List.all_eq_true] at h
    have hPair := ((h.2 s hs).2 t ht).1
    rw [hName, bne_self_eq_false, Bool.false_or] at hPair
    exact beq_iff_eq.mp hPair
  component {c} hc := by
    simp only [fitTogether, Bool.and_eq_true, List.all_eq_true] at h
    exact of_decide_eq_true (h.1 _ hc)
  closed {s t} hs ht hMem := by
    simp only [fitTogether, Bool.and_eq_true, List.all_eq_true] at h
    have hPair := ((h.2 s hs).2 t ht).2
    rw [decide_eq_true hMem, Bool.not_true, Bool.false_or, Bool.and_eq_true] at hPair
    exact fun n hn => of_decide_eq_true (List.all_eq_true.mp hPair.2 n hn)
  acyclic {t} ht := by
    simp only [fitTogether, Bool.and_eq_true, List.all_eq_true] at h
    simpa using (h.2 t ht).1
  final {s t} hs ht hFinal hMem := by
    simp only [fitTogether, Bool.and_eq_true, List.all_eq_true] at h
    have hPair := ((h.2 s hs).2 t ht).2
    rw [decide_eq_true hMem, hFinal] at hPair
    cases hPair
  named {s t} hs ht hMem := by
    simp only [fitTogether, Bool.and_eq_true, List.all_eq_true] at h
    have hPair := ((h.2 s hs).2 t ht).2
    rw [decide_eq_true hMem] at hPair
    simp only [Bool.not_true, Bool.false_or, Bool.and_eq_true, Bool.not_eq_true'] at hPair
    exact ⟨hPair.1.1.2, hPair.1.2⟩

@[simp] theorem declares_ofList {l : List TypeDesc} {h : fitTogether l = true} {t : TypeDesc} :
    (ofList l h).Declares t ↔ t ∈ l :=
  Iff.rfl

end Hierarchy

end Pathwise
