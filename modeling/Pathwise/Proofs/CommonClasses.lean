import Pathwise.Proofs.Absorption
import Pathwise.Proofs.Losses
import Pathwise.Proofs.Subtyping

/-!
# The classes that two bounds have in common

The meet of two bounds stands for the classes that both allow. It names fewer types than the two
do: what has another one below it is dropped, and a class that is known replaces all the others.
Neither takes a class away, and a bound that was made from types names none that exclude each other.

What is taken away is the doing of one test. Two array types of which neither is below the other are
said to have no class in common, and have one if their components do: the array of a class below two
interfaces is an array of each. `TypeBound.Apart` says that two bounds name such types, one each,
and `meet?_allows_iff` that the meet of other bounds stands for all their common classes.

## Results

* `Hierarchy.mayIntersect_eq_false_iff` — types that are said to have no class in common and have one.
* `TypeBound.Made.together`    — a bound that was made names types that may intersect.
* `TypeBound.apart_subtypeOf_array_iff` — the arrays that are apart.
* `TypeBound.meet?_allows_iff` — the classes that the meet of two bounds allows.
-/

namespace Pathwise

namespace Hierarchy

variable {H : Hierarchy} {c s t : TypeDesc}

/-- **Types that have a class in common and are said to have none**: two array types that are not
in a row. -/
theorem mayIntersect_eq_false_iff (hc : H.Declares c) (hs : H.Declares s) (ht : H.Declares t)
    (hcs : c.isSubtypeOf s = true) (hct : c.isSubtypeOf t = true) :
    s.mayIntersect t = false ↔ s.isArray = true ∧ t.isArray = true ∧
      s.isSubtypeOf t = false ∧ t.isSubtypeOf s = false := by
  constructor
  · intro hNot
    have hArrays : ¬ (s.isArray = true → t.isArray = true →
        s.isSubtypeOf t = true ∨ t.isSubtypeOf s = true) := by
      intro hRow
      rw [H.mayIntersect_of_common hc hs ht hRow hcs hct] at hNot
      cases hNot
    simpa only [Classical.not_imp, not_or, Bool.not_eq_true] using hArrays
  · rintro ⟨hsArray, -, hst, hts⟩
    simp [TypeDesc.mayIntersect, hst, hts, hsArray]

/-- **A final type has only itself below it**, also if it is an array. -/
theorem eq_of_isFinal (hs : H.Declares s) (ht : H.Declares t) (hFinal : t.isFinal = true)
    (hst : s.isSubtypeOf t = true) : s = t := by
  induction s generalizing t with
  | array a ih =>
    rcases (isSubtypeOf_iff hs ht).mp hst with hEq | ⟨a', b, hEq, rfl, -, -, hSub⟩ | hMem
    · exact hEq
    · cases hEq
      rw [ih (H.component hs) (H.component ht) hFinal hSub]
    · exact absurd hMem (H.final hs ht hFinal)
  | _ =>
    rcases (isSubtypeOf_iff hs ht).mp hst with hEq | ⟨a, b, hEq, -⟩ | hMem
    · exact hEq
    · cases hEq
    · exact absurd hMem (H.final hs ht hFinal)

end Hierarchy

namespace TypeBound

variable {H : Hierarchy} {b d m : TypeBound} {c s t : TypeDesc}

theorem mem_within_subtypeOf : s ∈ (subtypeOf t).within ↔
    s = t ∧ t.name ≠ objectName ∧ t.isFinal = false := by
  unfold subtypeOf
  split
  · rename_i hTop
    exact iff_of_false OrdSet.not_mem_empty fun h => h.2.1 hTop
  · rename_i hTop
    split
    · rename_i hFinal
      exact iff_of_false OrdSet.not_mem_empty fun h => by simp [hFinal] at h
    · rename_i hFinal
      rw [OrdSet.mem_insert]
      constructor
      · intro hs
        exact ⟨hs.resolve_right OrdSet.not_mem_empty, hTop, eq_false_of_ne_true hFinal⟩
      · exact fun h => Or.inl h.1

/-- The bound made from a type allows what is below the type. -/
theorem allows_subtypeOf (hc : H.Declares c) (ht : H.Declares t) (hct : c.isSubtypeOf t = true) :
    (subtypeOf t).Allows c := by
  refine ⟨?_, ?_, ?_⟩
  · intro u hu
    unfold subtypeOf at hu
    split at hu
    · cases hu
    · split at hu
      · rename_i hFinal
        cases hu
        exact H.eq_of_isFinal hc ht hFinal hct
      · cases hu
  · intro u hu
    rw [(mem_within_subtypeOf.mp hu).1]
    exact hct
  · intro u hu
    unfold subtypeOf at hu
    split at hu
    · exact absurd hu OrdSet.not_mem_empty
    · split at hu <;> exact absurd hu OrdSet.not_mem_empty

theorem isTop_subtypeOf (h : (subtypeOf t).isTop = false) : t.name ≠ objectName := by
  intro hTop
  rw [subtypeOf, if_pos hTop] at h
  cases h

/-- The bound made from a type names that type, if any. -/
theorem eq_of_mostSpecific?_subtypeOf (h : (subtypeOf t).mostSpecific? = some s) : s = t := by
  rw [mostSpecific?] at h
  cases hKnown : (subtypeOf t).known? with
  | some u =>
    rw [hKnown] at h
    cases h
    unfold subtypeOf at hKnown
    split at hKnown
    · cases hKnown
    · split at hKnown <;> cases hKnown
      rfl
  | none =>
    rw [hKnown] at h
    exact (mem_within_subtypeOf.mp (List.mem_of_mem_head? h)).1

/-- What the bound made from a type allows is below the type, unless that is the topmost class. -/
theorem isSubtypeOf_of_allows (h : (subtypeOf t).Allows c) (hTop : t.name ≠ objectName) :
    c.isSubtypeOf t = true := by
  cases hFinal : t.isFinal with
  | true =>
    have hKnown : (subtypeOf t).known? = some t := by
      rw [subtypeOf, if_neg hTop, if_pos hFinal]
      rfl
    rw [h.known t hKnown]
    exact TypeDesc.isSubtypeOf_refl t
  | false => exact h.within t (mem_within_subtypeOf.mpr ⟨rfl, hTop, hFinal⟩)

/-- **The types that a bound names may intersect each other** if it was made from types. -/
theorem Made.together (h : b.Made) (hKnown : b.known? = none) :
    ∀ u ∈ b.within, ∀ v ∈ b.within, u.mayIntersect v = true := by
  obtain ⟨-, hTest⟩ := (meet?_of_unknown hKnown rfl).mp h.meet?_top
  exact fun u hu v hv =>
    (hTest u (OrdSet.mem_union.mpr (Or.inl hu))).2 v (OrdSet.mem_union.mpr (Or.inl hv))

/-- The bounds know no class, and each names an array type that is not in a row with one that
the other names. -/
def Apart (b d : TypeBound) : Prop :=
  b.known? = none ∧ d.known? = none ∧
    ∃ s ∈ b.within, ∃ t ∈ d.within,
      s.isArray = true ∧ t.isArray = true ∧ s.isSubtypeOf t = false ∧ t.isSubtypeOf s = false

theorem not_mayIntersect_of_apart (hArray : s.isArray = true) (hst : s.isSubtypeOf t = false)
    (hts : t.isSubtypeOf s = false) : s.mayIntersect t ≠ true := by
  simp [TypeDesc.mayIntersect, hst, hts, hArray]

/-- Of two bounds that split array types each names one of them, since none is made that names
both. -/
theorem splitsArrays_iff_apart (hb : b.Made) (hd : d.Made) : b.SplitsArrays d ↔ b.Apart d := by
  constructor
  · rintro ⟨hb', hd', s, hs, t, ht, hsArray, htArray, hst, hts⟩
    refine ⟨hb', hd', ?_⟩
    rcases OrdSet.mem_union.mp hs with hs | hs <;> rcases OrdSet.mem_union.mp ht with ht | ht
    · exact absurd (hb.together hb' s hs t ht) (not_mayIntersect_of_apart hsArray hst hts)
    · exact ⟨s, hs, t, ht, hsArray, htArray, hst, hts⟩
    · exact ⟨t, ht, s, hs, htArray, hsArray, hts, hst⟩
    · exact absurd (hd.together hd' s hs t ht) (not_mayIntersect_of_apart hsArray hst hts)
  · rintro ⟨hb', hd', s, hs, t, ht, hApart⟩
    exact ⟨hb', hd', s, OrdSet.mem_union.mpr (Or.inl hs), t, OrdSet.mem_union.mpr (Or.inr ht),
      hApart⟩

theorem known?_subtypeOf_array (hFinal : t.isFinal = false) :
    (subtypeOf (.array t)).known? = none := by
  have hFinal' : ¬ (TypeDesc.array t).isFinal = true := by
    rw [Bool.not_eq_true]
    exact hFinal
  rw [subtypeOf, if_neg TypeDesc.name_array_ne_objectName, if_neg hFinal']
  rfl

/-- **Arrays that are apart**: those of references that are not final and not in a row, whether or
not there is a class below both, and whether or not they are arrays themselves. -/
theorem apart_subtypeOf_array_iff (hs : s.isPrimitive = false) (ht : t.isPrimitive = false) :
    (subtypeOf (.array s)).Apart (subtypeOf (.array t)) ↔
      s.isFinal = false ∧ t.isFinal = false ∧ s.isSubtypeOf t = false ∧
        t.isSubtypeOf s = false := by
  rw [← TypeDesc.isSubtypeOf_array hs ht, ← TypeDesc.isSubtypeOf_array ht hs]
  constructor
  · rintro ⟨-, -, u, hu, v, hv, -, -, huv, hvu⟩
    obtain ⟨rfl, -, hFinal⟩ := mem_within_subtypeOf.mp hu
    obtain ⟨rfl, -, hFinal'⟩ := mem_within_subtypeOf.mp hv
    exact ⟨hFinal, hFinal', huv, hvu⟩
  · rintro ⟨hFinal, hFinal', hst, hts⟩
    exact ⟨known?_subtypeOf_array hFinal, known?_subtypeOf_array hFinal',
      _, mem_within_subtypeOf.mpr ⟨rfl, TypeDesc.name_array_ne_objectName, hFinal⟩,
      _, mem_within_subtypeOf.mpr ⟨rfl, TypeDesc.name_array_ne_objectName, hFinal'⟩,
      rfl, rfl, hst, hts⟩

/-- **The classes that the meet of two bounds allows**: those that both allow, unless the bounds
name array types that are not in a row. So bounds without a meet that are not apart have no class
in common. -/
theorem meet?_allows_iff (hc : H.Declares c) (hb : b.Over H) (hd : d.Over H) (hbm : b.Made)
    (hdm : d.Made) :
    (∃ m, b.meet? d = some m ∧ m.Allows c) ↔ b.Allows c ∧ d.Allows c ∧ ¬ b.Apart d := by
  rw [← splitsArrays_iff_apart hbm hdm]
  constructor
  · rintro ⟨m, hMeet, hm⟩
    obtain ⟨hbc, hdc⟩ := allows_of_meet hc hb hd hMeet hm
    refine ⟨hbc, hdc, fun hSplits => ?_⟩
    rw [(meet?_eq_none_iff hc hb hd hbc hdc).mpr hSplits] at hMeet
    cases hMeet
  · rintro ⟨hbc, hdc, hKept⟩
    have hSome : b.meet? d ≠ none :=
      fun hNone => hKept ((meet?_eq_none_iff hc hb hd hbc hdc).mp hNone)
    obtain ⟨m, hMeet⟩ := Option.ne_none_iff_exists'.mp hSome
    exact ⟨m, hMeet, allows_meet? hMeet hbc hdc⟩

/-- One of two interfaces. -/
def interface (name : String) : TypeDesc := .ofClass name [] false

theorem evaluated_interfaces :
    State.belowBoth.isSubtypeOf (interface "I") = true ∧
      State.belowBoth.isSubtypeOf (interface "J") = true ∧
      (TypeDesc.array State.belowBoth).isSubtypeOf (.array (interface "I")) = true ∧
      (TypeDesc.array State.belowBoth).isSubtypeOf (.array (interface "J")) = true ∧
      (interface "I").isSubtypeOf (interface "J") = false ∧
      (interface "J").isSubtypeOf (interface "I") = false := by
  decide +kernel

/-- **A class below two interfaces** is in their meet. Its array is in the arrays of both, and not
in the meet of those. -/
theorem meet?_allows_belowBoth :
    (∃ m, (subtypeOf (interface "I")).meet? (subtypeOf (interface "J")) = some m ∧
      m.Allows State.belowBoth) ∧
    (subtypeOf (.array (interface "I"))).Allows (.array State.belowBoth) ∧
    (subtypeOf (.array (interface "J"))).Allows (.array State.belowBoth) ∧
    ¬ ∃ m, (subtypeOf (.array (interface "I"))).meet? (subtypeOf (.array (interface "J"))) =
        some m ∧ m.Allows (.array State.belowBoth) := by
  obtain ⟨hI, hJ, hArrayI, hArrayJ, hIJ, hJI⟩ := evaluated_interfaces
  have hDeclared : ∀ t ∈ [interface "I", interface "J", State.belowBoth, .array (interface "I"),
      .array (interface "J"), .array State.belowBoth], State.arrayWorld.types.Declares t :=
    fun t ht => List.mem_cons_of_mem _ ht
  have declares_I := hDeclared (interface "I") (by simp)
  have declares_J := hDeclared (interface "J") (by simp)
  have declares_C := hDeclared State.belowBoth (by simp)
  have declares_arrayI := hDeclared (.array (interface "I")) (by simp)
  have declares_arrayJ := hDeclared (.array (interface "J")) (by simp)
  have declares_arrayC := hDeclared (.array State.belowBoth) (by simp)
  have hAllowsI := allows_subtypeOf declares_arrayC declares_arrayI hArrayI
  have hAllowsJ := allows_subtypeOf declares_arrayC declares_arrayJ hArrayJ
  refine ⟨?_, hAllowsI, hAllowsJ, ?_⟩
  · refine (meet?_allows_iff declares_C (over_subtypeOf declares_I) (over_subtypeOf declares_J)
      (.subtypeOf _) (.subtypeOf _)).mpr ⟨allows_subtypeOf declares_C declares_I hI,
        allows_subtypeOf declares_C declares_J hJ, ?_⟩
    rintro ⟨-, -, s, hs, t, -, hArray, -⟩
    rw [(mem_within_subtypeOf.mp hs).1] at hArray
    cases hArray
  · intro hKept
    obtain ⟨-, -, hNotApart⟩ := (meet?_allows_iff declares_arrayC (over_subtypeOf declares_arrayI)
      (over_subtypeOf declares_arrayJ) (.subtypeOf _) (.subtypeOf _)).mp hKept
    exact hNotApart ((apart_subtypeOf_array_iff rfl rfl).mpr ⟨rfl, rfl, hIJ, hJI⟩)

end TypeBound

end Pathwise
