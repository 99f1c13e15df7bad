import Pathwise.Proofs.Coherence

/-!
# Arenas that grow

Instructions ask the arena for constants and other values on the way, which puts values that
are no variables at its end. What is said about the values that were there before stays as it
is: their facts, what is known to be equal, and the valuations that fit a state.

## Results

* `Arena.Part`        — an arena with more values.
* `Arena.Grows`       — an arena with more values, none of them a variable.
* `Arena.grows_typed` — asking for a value that is known by a fact.
* `fact_grows`, `fits_grows`, `equalClass` — what a state says stays.
* `apply_grows`       — what is narrowed is narrowed as before.
-/

namespace Pathwise

namespace Arena

/-- **A part of an arena**: its values are there at the indices they have. -/
structure Part (a b : Arena) : Prop where
  size : a.size ≤ b.size
  get  : ∀ {v}, v < a.size → b.get v = a.get v

/-- **The arena has grown** by values that are no variables. -/
structure Grows (a b : Arena) : Prop where
  size    : a.size ≤ b.size
  get     : ∀ {v}, v < a.size → b.get v = a.get v
  lt_size : ∀ {v}, b.isVariable v = true → v < a.size

variable {H : Hierarchy} {a b c : Arena} {f : Fact} {x : Value} {u v q : ValueId} {l : Length}

theorem lt_of_isVariable (h : a.isVariable v = true) : v < a.size :=
  List.mem_range.mp (List.mem_filter.mp (mem_allVars.mpr h)).1

theorem Grows.part (h : a.Grows b) : a.Part b := ⟨h.size, h.get⟩

theorem Grows.refl (a : Arena) : a.Grows a := ⟨Nat.le_refl _, fun _ => rfl, lt_of_isVariable⟩

theorem Grows.isVariable (h : a.Grows b) : b.isVariable v = a.isVariable v := by
  by_cases hv : v < a.size
  · unfold Arena.isVariable varAt?
    rw [h.get hv]
  · have hOld : a.isVariable v ≠ true := fun h' => hv (lt_of_isVariable h')
    have hNew : b.isVariable v ≠ true := fun h' => hv (h.lt_size h')
    rw [Bool.eq_false_iff.mpr hOld, Bool.eq_false_iff.mpr hNew]

theorem Grows.trans (h : a.Grows b) (h' : b.Grows c) : a.Grows c := by
  refine ⟨Nat.le_trans h.size h'.size, ?_, ?_⟩
  · intro v hv
    rw [h'.get (Nat.lt_of_lt_of_le hv h.size), h.get hv]
  · intro v hv
    rw [h'.isVariable] at hv
    exact h.lt_size hv

theorem Part.inherent (h : a.Part b) (hv : v < a.size) : b.inherent v = a.inherent v := by
  rw [Arena.inherent, Arena.inherent, h.get hv]

theorem Grows.inherent (h : a.Grows b) (hv : v < a.size) : b.inherent v = a.inherent v :=
  h.part.inherent hv

theorem Grows.lengthOf (h : a.Grows b) : b.LengthOf l q v ↔ a.LengthOf l q v := by
  constructor
  · intro hLength
    obtain ⟨x, hx, hRest⟩ := id hLength
    have hOld : v < a.size := h.lt_size hLength.isVariable
    exact ⟨x, (h.get hOld).symm.trans hx, hRest⟩
  · intro hLength
    obtain ⟨x, hx, hRest⟩ := id hLength
    have hOld : v < a.size := lt_of_isVariable hLength.isVariable
    exact ⟨x, (h.get hOld).trans hx, hRest⟩

theorem size_le_intern : a.size ≤ (a.intern x).2.size := by
  unfold intern
  split
  · exact Nat.le_refl _
  · show a.size ≤ (a.values.push x).size
    rw [Array.size_push]
    exact Nat.le_succ _

/-- A condition is decided in a larger arena as it was. -/
theorem Grows.of_eq {rel : Relation} (h : a.Grows b) (hu : u < a.size) (hv : v < a.size) :
    Condition.of b u rel v = Condition.of a u rel v := by
  rw [Condition.of, Condition.of, h.isVariable, h.isVariable, h.inherent hu, h.inherent hv]

/-- What is asked for is in the arena. -/
theorem lt_size_intern : (a.intern x).1 < (a.intern x).2.size := by
  unfold intern
  split
  · rename_i v hv
    exact (Array.findIdx?_eq_some_iff_findIdx_eq.mp hv).1
  · show a.size < (a.values.push x).size
    rw [Array.size_push]
    exact Nat.lt_succ_self _

/-- Asking for a value that is no variable. -/
theorem grows_intern (hx : ∀ y, x ≠ .var y) : a.Grows (a.intern x).2 := by
  refine ⟨size_le_intern, ?_, ?_⟩
  · intro v hv
    rcases get_intern (a := a) (x := x) (v := v) with hOld | ⟨rfl, -⟩
    · exact hOld
    · exact absurd hv (Nat.lt_irrefl _)
  · intro v hv
    obtain ⟨y, hy⟩ := isVariable_iff.mp hv
    rcases get_intern (a := a) (x := x) (v := v) with hOld | ⟨-, hNew⟩
    · exact lt_of_isVariable (isVariable_iff.mpr ⟨y, hOld.symm.trans hy⟩)
    · exact absurd (hNew.symm.trans hy) (hx y)

theorem grows_typed : a.Grows (a.typed f).2 := grows_intern nofun

/-- A value that is no variable is asked for as it is. -/
theorem get_intern_value (hx : ∀ y, x ≠ .var y) : (a.intern x).2.get (a.intern x).1 = x := by
  unfold intern
  split
  · rename_i v hv
    obtain ⟨hLess, hSame⟩ := Array.findIdx?_eq_some_iff_getElem.mp hv
    have hEq : x = a.values[v] := by
      have hSame := hSame.1
      unfold Value.same at hSame
      split at hSame
      · exact absurd rfl (hx _)
      · exact beq_iff_eq.mp hSame
    rw [get, Array.getD_eq_getD_getElem?, Array.getElem?_eq_getElem hLess, hEq]
    rfl
  · show (a.values.push x).getD a.values.size .unknown = x
    rw [Array.getD_eq_getD_getElem?, Array.getElem?_push_size]
    rfl

theorem inherent_intern_value (hx : ∀ y, x ≠ .var y) :
    (a.intern x).2.inherent (a.intern x).1 = x.inherent := by
  rw [inherent, get_intern_value hx]

theorem isVariable_intern_value (hx : ∀ y, x ≠ .var y) :
    (a.intern x).2.isVariable (a.intern x).1 = false := by
  refine Bool.eq_false_iff.mpr fun hVariable => ?_
  obtain ⟨y, hy⟩ := isVariable_iff.mp hVariable
  exact hx y ((get_intern_value hx).symm.trans hy)

/-- A value that is asked for by its fact is known by it. -/
theorem get_typed : (a.typed f).2.get (a.typed f).1 = .typed f := get_intern_value nofun

theorem inherent_typed : (a.typed f).2.inherent (a.typed f).1 = f := inherent_intern_value nofun

theorem isVariable_typed : (a.typed f).2.isVariable (a.typed f).1 = false :=
  isVariable_intern_value nofun

theorem coherent_typed (ha : a.Coherent H) (hf : f.Over H) : (a.typed f).2.Coherent H :=
  coherent_intern ha ⟨hf, nofun⟩

/-- The arena has grown, and is coherent still. -/
structure Extends (H : Hierarchy) (a b : Arena) : Prop where
  grows    : a.Grows b
  coherent : b.Coherent H

theorem Extends.refl (ha : a.Coherent H) : Extends H a a := ⟨.refl a, ha⟩

theorem Extends.trans (h : Extends H a b) (h' : Extends H b c) : Extends H a c :=
  ⟨h.grows.trans h'.grows, h'.coherent⟩

theorem extends_typed (ha : a.Coherent H) (hf : f.Over H) : Extends H a (a.typed f).2 :=
  ⟨grows_typed, coherent_typed ha hf⟩

/-- The first value of an arena is the unknown one. -/
def Founded (a : Arena) : Prop := 0 < a.size ∧ a.get unknown = .unknown

theorem founded_new : new.Founded := ⟨Nat.one_pos, rfl⟩

theorem founded_intern (h : a.Founded) : (a.intern x).2.Founded := by
  refine ⟨Nat.lt_of_lt_of_le h.1 size_le_intern, ?_⟩
  rcases get_intern (a := a) (x := x) (v := unknown) with hOld | ⟨hEq, -⟩
  · exact hOld.trans h.2
  · exact absurd h.1 (by rw [← hEq]; exact Nat.lt_irrefl _)

theorem Founded.grows (h : a.Founded) (hGrows : a.Grows b) : b.Founded :=
  ⟨Nat.lt_of_lt_of_le h.1 hGrows.size, (hGrows.get h.1).trans h.2⟩

end Arena

-- ---------------------------------------------------------------------------
-- States
-- ---------------------------------------------------------------------------

namespace Arena.Backward

open State

variable {a b : Arena} {s : State} {v : ValueId}

/-- **Facts stay** where there are more values. -/
theorem fact_part (hBack : a.Backward) (hPart : a.Part b) (hv : v < a.size) :
    s.fact b v = s.fact a v := by
  have hUpTo : ∀ n v, v < a.size → s.factUpTo b n v = s.factUpTo a n v := by
    intro n
    induction n with
    | zero => exact fun v hv => hPart.inherent hv
    | succ n ih =>
      intro v hv
      unfold factUpTo
      rw [hPart.get hv]
      cases hx : a.get v with
      | var x =>
        have hQualifier : ∀ q : Nat, x.qualifier = some q →
            s.factUpTo b n q = s.factUpTo a n q := fun q hq =>
          ih q (Nat.lt_trans (hBack hx hq) hv)
        cases hLength : x.descriptor with
        | length l =>
          cases hq : x.qualifier with
          | none => simp only [hLength, hq]
          | some q => simp only [hLength, hq, hQualifier q hq]
        | _ => simp only [hLength]
      | _ => rfl
  exact hUpTo _ _ hv

end Arena.Backward

namespace State

variable {w : World} {H : Hierarchy} {a b : Arena} {s : State} {ρ : ValueId → Concrete}
  {exempt : ValueId → Prop} {v : ValueId}

theorem fact_part (hArena : a.Coherent H) (hPart : a.Part b) (hv : v < a.size) :
    s.fact b v = s.fact a v :=
  Arena.Backward.fact_part hArena.backward hPart hv

theorem fact_grows (hArena : a.Coherent H) (hGrows : a.Grows b) (hv : v < a.size) :
    s.fact b v = s.fact a v :=
  fact_part hArena hGrows.part hv

/-- What is known by a fact is known by it in every state. -/
theorem fact_typed {f : Fact} : s.fact (a.typed f).2 (a.typed f).1 = f := by
  rw [fact_of_not_variable Arena.isVariable_typed, Arena.inherent_typed]

/-- Nothing is known of the unknown value. -/
theorem fact_unknown (h : a.Founded) : s.fact a Arena.unknown = .top := by
  have hNone : a.isVariable Arena.unknown = false :=
    Arena.isVariable_of_get_ne h.2 (by simp)
  rw [fact_of_not_variable hNone, Arena.inherent, h.2]
  rfl

theorem coherent_grows (hGrows : a.Grows b) (hs : s.Coherent H a) : s.Coherent H b :=
  ⟨hs.declared, fun l hl => by
    rw [hGrows.isVariable, hGrows.isVariable]
    exact hs.linked l hl⟩

/-- **A valuation fits** whether or not the arena has grown. -/
theorem fits_grows (hArena : a.Coherent w.types) (hGrows : a.Grows b) :
    s.Fits w b ρ exempt ↔ s.Fits w a ρ exempt := by
  constructor
  · intro h
    refine ⟨?_, ?_, h.links⟩
    · intro v hv hExempt
      have hAdmits := h.admits (hGrows.isVariable.trans hv) hExempt
      rw [fact_grows hArena hGrows (Arena.lt_of_isVariable hv)] at hAdmits
      exact hAdmits
    · intro l q v o n hLength hq
      exact h.lengths (hGrows.lengthOf.mpr hLength) (hGrows.isVariable.trans hq)
  · intro h
    refine ⟨?_, ?_, h.links⟩
    · intro v hv hExempt
      rw [hGrows.isVariable] at hv
      rw [fact_grows hArena hGrows (Arena.lt_of_isVariable hv)]
      exact h.admits hv hExempt
    · intro l q v o n hLength hq
      rw [hGrows.isVariable] at hq
      exact h.lengths (hGrows.lengthOf.mp hLength) hq

theorem satisfies_grows (hArena : a.Coherent w.types) (hGrows : a.Grows b) :
    s.Satisfies w b ρ ↔ s.Satisfies w a ρ :=
  fits_grows hArena hGrows

/-- What is known to be equal to a value is the value or a variable. -/
theorem isVariable_of_mem_equalClass {u m : ValueId} (hState : s.Coherent H a)
    (hm : m ∈ s.equalClass u) : m = u ∨ a.isVariable m = true := by
  refine equalClass_induction (P := fun m => m = u ∨ a.isVariable m = true) (Or.inl rfl) ?_ hm
  intro l hl _
  obtain ⟨hLeft, hRight⟩ := hState.linked l hl
  exact iff_of_true (Or.inr hLeft) (Or.inr hRight)

/-- Storing a fact does not ask what else is in the arena. -/
theorem setFact_grows {f : Fact} (hGrows : a.Grows b) (hv : v < a.size) :
    s.setFact b v f = s.setFact a v f := by
  rw [setFact, setFact, hGrows.isVariable, hGrows.inherent hv]

theorem meetFacts_grows {f : Fact} {vs : List ValueId} (hArena : a.Coherent H) (hGrows : a.Grows b)
    (hvs : ∀ v ∈ vs, v < a.size) : meetFacts b f vs s = meetFacts a f vs s := by
  induction vs generalizing s with
  | nil => rfl
  | cons v vs ih =>
    have hv := hvs v List.mem_cons_self
    rw [meetFacts, meetFacts, fact_grows hArena hGrows hv, setFact_grows hGrows hv]
    split
    · rfl
    · exact ih fun u hu => hvs u (List.mem_cons_of_mem _ hu)

theorem meetFact_grows {f : Fact} (hArena : a.Coherent H) (hState : s.Coherent H a)
    (hGrows : a.Grows b) (hv : v < a.size) : s.meetFact b v f = s.meetFact a v f := by
  have hClass : ∀ m ∈ s.equalClass v, m < a.size := by
    intro m hm
    rcases isVariable_of_mem_equalClass hState hm with rfl | hVariable
    · exact hv
    · exact Arena.lt_of_isVariable hVariable
  rw [meetFact, meetFact, hGrows.isVariable, fact_grows hArena hGrows hv,
    meetFacts_grows hArena hGrows hClass]

theorem applyOpen_grows {u : ValueId} {rel : Relation} (hArena : a.Coherent H)
    (hState : s.Coherent H a) (hGrows : a.Grows b) (hu : u < a.size) (hv : v < a.size) :
    s.applyOpen b u rel v = s.applyOpen a u rel v := by
  have hLeft : (s.meetFact a u ((s.fact a u).narrow rel (s.fact a v))).state.Coherent H a :=
    (coherent_invariant hArena).meetFact
      (Fact.over_narrow (over_fact hArena hState) (over_fact hArena hState)) hState
  unfold applyOpen
  simp only [hGrows.isVariable, fact_grows hArena hGrows hu, fact_grows hArena hGrows hv,
    meetFact_grows hArena hState hGrows hu, meetFact_grows hArena hLeft hGrows hv]

/-- **Conditions are assumed** as they were before the arena grew. -/
theorem apply_grows {u : ValueId} {rel : Relation} (hArena : a.Coherent H)
    (hState : s.Coherent H a) (hGrows : a.Grows b) (hu : u < a.size) (hv : v < a.size) :
    s.apply b (.of b u rel v) = s.apply a (.of a u rel v) := by
  rw [hGrows.of_eq hu hv]
  have hRelation : s.applyRelation b u rel v = s.applyRelation a u rel v := by
    unfold applyRelation applySelf
    simp only [fact_grows hArena hGrows hu, fact_grows hArena hGrows hv,
      meetFact_grows hArena hState hGrows hu, applyOpen_grows hArena hState hGrows hu hv]
  unfold Condition.of
  split
  · exact hRelation
  · split
    · rename_i c _
      cases c <;> rfl
    · exact hRelation

/-- The unknown value comes first in the arenas that there can be. -/
theorem Reached.founded (h : Reached H a s) : a.Founded := by
  induction h with
  | start => exact Arena.founded_new
  | intern x _ _ ih => exact Arena.founded_intern ih
  | same _ _ _ ih => exact ih
  | store _ _ _ _ ih => exact ih
  | meet _ _ _ _ ih => exact ih
  | apply _ _ ih => exact ih
  | assign _ _ _ _ ih => exact ih
  | flushVariable _ _ ih => exact ih
  | flushDependents _ _ ih => exact ih
  | flushFields _ ih => exact ih
  | @dropLocality a s v _ ih =>
    unfold State.dropLocality
    cases a.get v with
    | var x => exact ih
    | typed f =>
      dsimp only
      split
      · exact Arena.founded_intern ih
      · exact ih
    | wrapped l inner f =>
      dsimp only
      split
      · exact Arena.founded_intern ih
      · exact ih
    | unknown => exact ih

end State

end Pathwise
