import Pathwise.Proofs.Doubles
import Pathwise.Proofs.Outcomes

/-!
# Assertions

An assertion compares the value on top of the stack with an expected constant. Where the relation holds
the path goes on at the next instruction, and where it fails it goes on at the target of a transfer, in
a state that assumes the negated relation.

An order and its negation both fail of a NaN, so neither state has room for it. A NaN is dropped where
it is known to be one. Where it is not, or where the condition was decided when it was made, it goes on
at the target.

## Results

* `Concrete.Comparable.holds_negated` — a relation that fails is one of which the negation holds, NaN
  apart.
* `Step.perform_ensure_covers`        — an assertion covers both outcomes, and its verdict is right.
-/

namespace Pathwise

namespace Relation

variable {rel : Relation}

theorem negated_isOrdering : rel.negated.isOrdering = rel.isOrdering := by cases rel <;> rfl

end Relation

namespace Concrete

variable {rel : Relation} {x y : Concrete}

/-- **Values that a relation compares**: they are of one kind, and numbers if it is an order. -/
inductive Comparable (rel : Relation) : Concrete → Concrete → Prop where
  | ints {m n : Int} {hm : m ∈ Range.full} {hn : n ∈ Range.full} :
      Comparable rel (.int m hm) (.int n hn)
  | doubles {c d : Option Double} : Comparable rel (.double c) (.double d)
  | bools {b c : Bool} : rel.isOrdering = false → Comparable rel (.bool b) (.bool c)
  | refs {x y : Concrete} : rel.isOrdering = false → x = .null ∨ (∃ p, x = .object p) →
      y = .null ∨ (∃ q, y = .object q) → Comparable rel x y

/-- **A relation that fails** is one of which the negation holds, unless it is an order with a NaN. -/
theorem Comparable.holds_negated (h : Comparable rel x y) (hNoTest : rel.isTypeTest = false)
    (hFails : ¬ Holds rel x y) : Holds rel.negated x y ∨ rel.isOrdering = true ∧
      ∃ c d, x = .double c ∧ y = .double d ∧ (c = none ∨ d = none) := by
  cases h with
  | ints => exact Or.inl (Relation.holds_negated_of_ints hNoTest hFails)
  | @doubles c d =>
    by_cases hNaN : c = none ∨ d = none
    · by_cases hOrdering : rel.isOrdering = true
      · exact Or.inr ⟨hOrdering, c, d, rfl, rfl, hNaN⟩
      · have hEq : rel = .eq := by
          rcases hNaN with rfl | rfl <;> cases rel <;>
            simp_all [Holds, Relation.isOrdering, Relation.isTypeTest]
        subst hEq
        refine Or.inl ?_
        rcases hNaN with rfl | rfl
        · rfl
        · cases c <;> rfl
    · obtain ⟨hLeft, hRight⟩ := not_or.mp hNaN
      obtain ⟨c, rfl⟩ := Option.ne_none_iff_exists'.mp hLeft
      obtain ⟨d, rfl⟩ := Option.ne_none_iff_exists'.mp hRight
      exact Or.inl (Relation.holds_negated_of_ints hNoTest hFails)
  | bools hEquality =>
    refine Or.inl ?_
    cases rel <;> simp_all [Holds, Relation.negated, Relation.isOrdering, Relation.isTypeTest]
  | refs hEquality hx hy =>
    refine Or.inl ?_
    rcases hx with rfl | ⟨p, rfl⟩ <;> rcases hy with rfl | ⟨q, rfl⟩ <;> cases rel <;>
      simp_all [Holds, Relation.negated, Relation.isOrdering, Relation.isTypeTest]

end Concrete

namespace Fact

variable {w : World} {f g : Fact} {rel : Relation} {c d : DoubleFact}

theorem isNull_of_constant (hConstant : f.isConstant = true) (hNull : f.Admits w .null) :
    f.isNull = true := by
  rcases admits_null_iff.mp hNull with rfl | ⟨r, al, sl, rfl, hr⟩
  · cases hConstant
  · rw [isConstant, hr.literal, Option.isSome_none, Bool.or_false] at hConstant
    exact hConstant

/-- What is known to be a NaN is in no order, if the other value is known to be a double. -/
theorem decide?_of_known_nan (hOrdering : rel.isOrdering = true) (hKnown : c = .nan ∨ d = .nan) :
    decide? rel (double c) (double d) = some false := by
  have hNaN : (decide (c = .nan) || decide (d = .nan)) = true := by simpa using hKnown
  have hDecide : decide? rel (double c) (double d) = decideComparison? rel (double c) (double d) := by
    cases rel <;> first | rfl | cases hOrdering
  rw [hDecide]
  exact if_pos hNaN

/-- A constant that a NaN has is that it is one. -/
theorem eq_nan_of_constant (hConstant : f.isConstant = true) (hNaN : f.Admits w (.double none)) :
    f = .double .nan := by
  rcases admits_double_iff.mp hNaN with rfl | ⟨e, rfl, hAdmits⟩
  · cases hConstant
  · cases e with
    | any => cases hConstant
    | nan => rfl
    | const z => cases hAdmits

theorem decide?_top : decide? rel top f = none := by
  cases rel <;> cases f <;> rfl

end Fact

-- ---------------------------------------------------------------------------
-- A value and a constant
-- ---------------------------------------------------------------------------

namespace State

variable {w : World} {a b : Arena} {s : State} {ρ : ValueId → Concrete} {o : Nat} {u v : ValueId}
  {x y : Concrete} {rel : Relation} {expected : Fact} {c d : Option Double}

/-- **A value is compared with an expected constant**, which is one value if it is the same. A null
that is not known has an object in company. -/
structure Asserted (w : World) (a : Arena) (s : State) (ρ : ValueId → Concrete) (o : Nat)
    (u : ValueId) (x : Concrete) (expected : Fact) (y : Concrete) : Prop where
  left    : Denotes w a ρ u x
  right   : expected.Admits w y
  same    : a.get u = .typed expected → x = y
  ordered : ∀ p, x = .object p ∨ y = .object p → w.Orders p
  company : s.fact a u ≠ .null → expected ≠ .null →
    (x = .null ∨ y = .null → w.Orders o) ∧ s.InCompany w a o u x

/-- The lengths that are exempt: those of null, unless null is known or expected. -/
def UnmeasuredBy (a : Arena) (s : State) (ρ : ValueId → Concrete) (u : ValueId) (expected : Fact)
    (m : ValueId) : Prop :=
  s.fact a u ≠ .null ∧ expected ≠ .null ∧ s.NullLength a ρ u u m

/-- **A NaN is dropped** by an assertion of an order: that one value is a NaN is known, but the
condition was not decided when it was made. -/
structure DropsNaN (a : Arena) (s : State) (u : ValueId) (rel : Relation) (expected : Fact) :
    Prop where
  ordering  : rel.isOrdering = true
  known     : s.fact a u = .double .nan ∨ expected = .double .nan
  undecided : a.isVariable u = true ∨ s.fact a u = .top

/-- What is no variable equals itself only. -/
theorem eq_of_mem_equalClass (hState : s.Coherent w.types a) (hNone : a.isVariable v = false)
    {m : ValueId} (hm : m ∈ s.equalClass v) : m = v := by
  refine equalClass_induction (P := fun m => m = v) rfl ?_ hm
  intro l hl _
  obtain ⟨hLeft, hRight⟩ := hState.linked l hl
  refine iff_of_false ?_ ?_ <;> rintro rfl
  · cases hNone.symm.trans hLeft
  · cases hNone.symm.trans hRight

/-- What is asserted is a comparison with the constant that the arena is asked for. -/
theorem Asserted.compared (h : s.Asserted w a ρ o u x expected y) (hArena : a.Coherent w.types)
    (hState : s.Coherent w.types a) (hu : u < a.size) (hConstant : expected.isConstant = true)
    (hHolds : Concrete.Holds rel x y) :
    s.Compared w (a.typed expected).2 ρ o u x rel (a.typed expected).1 y := by
  have hGrows : a.Grows (a.typed expected).2 := Arena.grows_typed
  have hState' := coherent_grows hGrows hState
  refine ⟨h.left.grows hGrows hu, .of_value Arena.isVariable_typed ?_, hHolds, ?_, h.ordered, ?_⟩
  · rw [Arena.inherent_typed]
    exact h.right
  · intro hSame
    refine ⟨h.same ?_, fun _ hTop => ?_⟩
    · rw [← hGrows.get hu, hSame, Arena.get_typed]
    · rw [hSame, fact_typed] at hTop
      rw [hTop] at hConstant
      cases hConstant
  · rw [fact_grows hArena hGrows hu, fact_typed]
    intro hLeft hRight
    obtain ⟨hOrders, hCompany⟩ := h.company hLeft hRight
    refine ⟨hOrders, hCompany.grows hArena hState hGrows hu, ?_⟩
    rintro rfl m hm
    rw [eq_of_mem_equalClass hState' Arena.isVariable_typed hm, fact_typed]
    exact Or.inl (Fact.isNull_of_constant hConstant h.right)

/-- The lengths that are exempt from the comparison are those of the value. -/
theorem unmeasuredBy_of_unmeasured (hArena : a.Coherent w.types) (hu : u < a.size) {m : ValueId}
    (h : s.Unmeasured (a.typed expected).2 ρ u (a.typed expected).1 m) :
    s.UnmeasuredBy a ρ u expected m := by
  have hGrows : a.Grows (a.typed expected).2 := Arena.grows_typed
  obtain ⟨hLeft, hRight, l, q, hNarrows, hNull, hLength⟩ := h
  rw [fact_grows hArena hGrows hu] at hLeft
  rw [fact_typed] at hRight
  refine ⟨hLeft, hRight, l, q, ?_, hNull, hGrows.lengthOf.mp hLength⟩
  rcases hNarrows with ⟨hVariable, hq⟩ | ⟨hVariable, -⟩
  · exact Or.inl ⟨hGrows.isVariable.symm.trans hVariable, hq⟩
  · cases Arena.isVariable_typed.symm.trans hVariable

/-- **A condition that holds is feasible**, and so is the negation of one that fails. -/
theorem Asserted.fits_apply (h : s.Asserted w a ρ o u x expected y) (hArena : a.Coherent w.types)
    (hState : s.Coherent w.types a) (hρ : s.Satisfies w a ρ) (hExpected : expected.Over w.types)
    (hu : u < a.size) (hConstant : expected.isConstant = true) {k : Condition}
    (hk : k = .of (a.typed expected).2 u rel (a.typed expected).1 ∧ Concrete.Holds rel x y ∨
      k = (Condition.of (a.typed expected).2 u rel (a.typed expected).1).negated ∧
        Concrete.Holds rel.negated x y) :
    (s.apply (a.typed expected).2 k).feasible = true ∧
      (s.apply (a.typed expected).2 k).state.Fits w (a.typed expected).2 ρ
        (s.UnmeasuredBy a ρ u expected) := by
  have hExtends : Arena.Extends w.types a (a.typed expected).2 := Arena.extends_typed hArena hExpected
  obtain ⟨r, hHolds⟩ : ∃ r, Concrete.Holds r x y := by
    rcases hk with ⟨-, hHolds⟩ | ⟨-, hHolds⟩ <;> exact ⟨_, hHolds⟩
  obtain ⟨hFeasible, hFits⟩ := (h.compared hArena hState hu hConstant hHolds).fits_apply
    hExtends.coherent (coherent_grows hExtends.grows hState)
    ((satisfies_grows hArena hExtends.grows).mpr hρ) (.refl hExtends.coherent)
    (Nat.lt_of_lt_of_le hu hExtends.grows.size) Arena.lt_size_intern hk
  exact ⟨hFeasible, hFits.mono fun m => unmeasuredBy_of_unmeasured hArena hu⟩

-- ---------------------------------------------------------------------------
-- NaN
-- ---------------------------------------------------------------------------

/-- A NaN is only dropped from an order that fails together with its negation. -/
theorem Asserted.not_dropsNaN (h : s.Asserted w a ρ o u x expected y) (hρ : s.Satisfies w a ρ)
    (hFails : Concrete.Holds rel.negated x y) : ¬ s.DropsNaN a u rel expected := by
  intro hDrops
  have hNaN : ∀ {f : Fact} {z : Concrete}, f = .double .nan → f.Admits w z → z = .double none := by
    rintro f z rfl ⟨d, rfl, rfl⟩
    rfl
  have hNe := Concrete.eq_ne_of_holds_nan hFails
    (hDrops.known.imp (hNaN · (h.left.admits hρ)) (hNaN · h.right))
  have hOrdering := Relation.negated_isOrdering.trans hDrops.ordering
  rw [hNe] at hOrdering
  cases hOrdering

/-- Whether a NaN is dropped is known before the arena is asked for the constant. -/
theorem dropsNaN_typed_iff (hArena : a.Coherent w.types) (hu : u < a.size) :
    s.DropsNaN (a.typed expected).2 u rel (s.fact (a.typed expected).2 (a.typed expected).1) ↔
      s.DropsNaN a u rel expected := by
  have hGrows : a.Grows (a.typed expected).2 := Arena.grows_typed
  have hFact : s.fact (a.typed expected).2 u = s.fact a u := fact_grows hArena hGrows hu
  rw [fact_typed]
  constructor
  · rintro ⟨hOrdering, hKnown, hUndecided⟩
    exact ⟨hOrdering, hFact ▸ hKnown, hFact ▸ hGrows.isVariable ▸ hUndecided⟩
  · rintro ⟨hOrdering, hKnown, hUndecided⟩
    exact ⟨hOrdering, hFact.symm ▸ hKnown, hFact.symm ▸ hGrows.isVariable.symm ▸ hUndecided⟩

theorem of_eq_relation (h : a.isVariable u = true ∨
      Fact.decide? rel (s.fact a u) (s.fact a v) = none) :
    Condition.of a u rel v = .relation u rel v := by
  refine (condition_cases s a u rel v).resolve_right ?_
  rintro ⟨⟨hNone, -⟩, b, hDecide, -⟩
  rcases h with hVariable | hOpen
  · cases hNone.symm.trans hVariable
  · cases hOpen.symm.trans hDecide

/-- A NaN that is known decides the condition, if it is not dropped. -/
theorem of_eq_never (hux : (s.fact a u).Admits w (.double c)) (hvy : (s.fact a v).Admits w (.double d))
    (hNone : a.isVariable v = false) (hConstant : (s.fact a v).isConstant = true)
    (hOrdering : rel.isOrdering = true) (hKnown : s.fact a u = .double .nan ∨ s.fact a v = .double .nan)
    (hNot : ¬ s.DropsNaN a u rel (s.fact a v)) : Condition.of a u rel v = .never := by
  have hVariable : a.isVariable u = false :=
    eq_false_of_ne_true fun h => hNot ⟨hOrdering, hKnown, Or.inl h⟩
  have hTop : s.fact a u ≠ .top := fun h => hNot ⟨hOrdering, hKnown, Or.inr h⟩
  have hTop' : s.fact a v ≠ .top := by
    intro h
    rw [h] at hConstant
    cases hConstant
  obtain ⟨c', hc, -⟩ := (Fact.admits_double_iff.mp hux).resolve_left hTop
  obtain ⟨d', hd, -⟩ := (Fact.admits_double_iff.mp hvy).resolve_left hTop'
  have hDecide : Fact.decide? rel (a.inherent u) (a.inherent v) = some false := by
    rw [← fact_of_not_variable (s := s) hVariable, ← fact_of_not_variable (s := s) hNone, hc, hd]
    refine Fact.decide?_of_known_nan hOrdering ?_
    rw [hc, hd] at hKnown
    exact hKnown.imp Fact.double.inj Fact.double.inj
  unfold Condition.of
  rw [hVariable, hNone, hDecide]
  rfl

section

variable (hux : (s.fact a u).Admits w (.double c)) (hvy : (s.fact a v).Admits w (.double d))
include hux hvy

/-- **Where a NaN is dropped**, the condition is not feasible, and neither is its negation. -/
theorem infeasible_of_dropsNaN (h : s.DropsNaN a u rel (s.fact a v)) :
    Condition.of a u rel v = .relation u rel v ∧
      (s.apply a (.relation u rel v)).feasible = false ∧
      (s.apply a (.relation u rel.negated v)).feasible = false := by
  have hNegated : rel.negated.isOrdering = true := Relation.negated_isOrdering.trans h.ordering
  have hNone : ∀ {r : Relation}, r.isOrdering = true →
      (s.apply a (.relation u r v)).feasible = false := by
    intro r hr
    show (s.applyRelation a u r v).feasible = false
    rw [applyRelation_of_nan hux hvy (Or.inr hr) h.known]
  have hOpen : a.isVariable u = true ∨ Fact.decide? rel (s.fact a u) (s.fact a v) = none := by
    refine h.undecided.imp_right fun hTop => ?_
    rw [hTop, Fact.decide?_top]
  exact ⟨of_eq_relation hOpen, hNone h.ordering, hNone hNegated⟩

/-- **A NaN that is not dropped** fails an order with a constant. -/
theorem satisfies_apply_fails_of_nan (hArena : a.Coherent w.types) (hState : s.Coherent w.types a)
    (hρ : s.Satisfies w a ρ) (hu : Denotes w a ρ u (.double c)) (hv : Denotes w a ρ v (.double d))
    (hNaN : c = none ∨ d = none) (hNone : a.isVariable v = false)
    (hConstant : (s.fact a v).isConstant = true) (hOrdering : rel.isOrdering = true)
    (hNot : ¬ s.DropsNaN a u rel (s.fact a v)) :
    Condition.of a u rel v ≠ .always ∧
      (s.apply a (Condition.of a u rel v).negated).feasible = true ∧
      (s.apply a (Condition.of a u rel v).negated).state.Satisfies w a ρ := by
  by_cases hKnown : s.fact a u = .double .nan ∨ s.fact a v = .double .nan
  · rw [of_eq_never hux hvy hNone hConstant hOrdering hKnown hNot]
    exact ⟨nofun, rfl, hρ⟩
  · obtain ⟨hLeft, hRight⟩ := not_or.mp hKnown
    have hNegated : rel.negated.isOrdering = true := Relation.negated_isOrdering.trans hOrdering
    have hNoPair : (a.isVariable u && a.isVariable v) = false := by rw [hNone, Bool.and_false]
    have hOpen : Fact.decide? rel (s.fact a u) (s.fact a v) = none :=
      (Fact.decide?_of_nan hux hvy hNaN (Or.inr hOrdering)).resolve_right fun h => hKnown h.2
    have hNe : u ≠ v := by
      rintro rfl
      have hMayBe : (s.fact a u).Admits w (.double none) := by
        rcases hNaN with rfl | rfl
        · exact hux
        · exact hvy
      exact hLeft (Fact.eq_nan_of_constant hConstant hMayBe)
    obtain ⟨hFeasible, hSatisfies⟩ := satisfies_applyOpen_order hArena hState hρ hu hv hNaN hNegated
      hLeft hRight fun h => absurd (hNoPair.symm.trans h) Bool.false_ne_true
    rw [of_eq_relation (Or.inr hOpen)]
    refine ⟨nofun, ?_⟩
    show (s.applyRelation a u rel.negated v).feasible = true ∧
      (s.applyRelation a u rel.negated v).state.Satisfies w a ρ
    rw [applyRelation_eq_applyOpen hux hvy (Or.inr hNegated) hNaN hNe hLeft hRight]
    exact ⟨hFeasible, hSatisfies hNoPair⟩

end

end State

-- ---------------------------------------------------------------------------
-- The step
-- ---------------------------------------------------------------------------

namespace Step

variable {w : World} {σ : Session} {s : State} {a : Arena} {ρ : ValueId → Concrete} {o : Nat}
  {u : ValueId} {x y : Concrete} {rel : Relation} {expected : Fact} {ctx : Context}
  {index target : Nat} {makeEphemeral : Bool} {anchor : Option Anchor} {rest : List ValueId}

open State (Reached)

/-- The condition of an assertion. -/
def assertion (a : Arena) (u : ValueId) (rel : Relation) (expected : Fact) : Condition :=
  .of (a.typed expected).2 u rel (a.typed expected).1

/-- What is left where the assertion holds. -/
def holding (a : Arena) (s : State) (u : ValueId) (rel : Relation) (expected : Fact) : Narrowing :=
  s.apply (a.typed expected).2 (assertion a u rel expected)

/-- What is left where it fails. -/
def failing (a : Arena) (s : State) (u : ValueId) (rel : Relation) (expected : Fact) : Narrowing :=
  s.apply (a.typed expected).2 (assertion a u rel expected).negated

/-- What is reported of an assertion. -/
def assertionReport (anchor : Option Anchor) (a : Arena) (s : State) (u : ValueId)
    (verdict : Verdict) : List Event :=
  (anchor.map fun p => .condition (.unsatisfiedCondition p) u (s.fact a u) verdict s).toList

/-- **What an assertion does**: it goes on if it always holds, and else both ways as far as they are
feasible; the verdict says which. -/
theorem yields_ensured {t : Transfer} (hStack : s.stack = u :: rest) :
    Yields (ensure ctx index rel expected (some t) makeEphemeral anchor s) σ fun items τ =>
      τ.arena = (σ.arena.typed expected).2 ∧ ∃ verdict reported,
        τ.events.toList = σ.events.toList ++
          assertionReport anchor τ.arena reported u verdict ∧
        (assertion σ.arena u rel expected = .always ∧ verdict = .neverFails ∧
            items = [next index s] ∨
          assertion σ.arena u rel expected ≠ .always ∧
            verdict = verdictOf (holding σ.arena s u rel expected).feasible
              (failing σ.arena s u rel expected).feasible ∧
            items = (if (holding σ.arena s u rel expected).feasible = true then
                [next index (holding σ.arena s u rel expected).state] else []) ++
              if (failing σ.arena s u rel expected).feasible = true then
                dispatch ctx (failing σ.arena s u rel expected).state t makeEphemeral else []) := by
  have hReport : ∀ (τ : Session) (t : State) (verdict : Verdict) {items : List Item}
      {Q : List Item → Session → Prop},
      (∀ υ : Session, υ.arena = τ.arena →
        υ.events.toList = τ.events.toList ++ assertionReport anchor υ.arena t u verdict →
        Q items υ) →
      Yields (do
        report (anchor.map .unsatisfiedCondition) u verdict t
        return items) τ Q := by
    intro τ t verdict items Q hQ
    rw [yields_bind, yields_report, yields_pure]
    cases anchor with
    | none => exact hQ τ rfl (List.append_nil _).symm
    | some p => exact hQ _ rfl (Array.toList_push ..)
  unfold ensure
  rw [peek_of_stack hStack, yields_bind, yields_pure, yields_bind, yields_intern, yields_bind,
    yields_condition]
  dsimp only
  split
  · rename_i hAlways
    refine hReport _ s .neverFails fun υ hArena hEvents => ?_
    exact ⟨hArena, _, s, hEvents, Or.inl ⟨hAlways, rfl, rfl⟩⟩
  · rename_i hOpen
    rw [yields_bind, yields_apply]
    dsimp only
    rw [yields_bind, yields_apply]
    refine hReport _ _ _ fun υ hArena hEvents => ?_
    exact ⟨hArena, _, _, hEvents, Or.inr ⟨hOpen, rfl, rfl⟩⟩

section

variable (hArena : σ.arena.Coherent w.types) (hState : s.Coherent w.types σ.arena)
  (hρ : s.Satisfies w σ.arena ρ) (h : s.Asserted w σ.arena ρ o u x expected y)
  (hExpected : expected.Over w.types) (hu : u < σ.arena.size)
  (hConstant : expected.isConstant = true)
include hArena hState hρ h hExpected hu hConstant

/-- **Where an assertion holds**, the valuation is left. -/
theorem holding_fits (hHolds : Concrete.Holds rel x y) :
    (holding σ.arena s u rel expected).feasible = true ∧
      (holding σ.arena s u rel expected).state.Fits w (σ.arena.typed expected).2 ρ
        (s.UnmeasuredBy σ.arena ρ u expected) :=
  h.fits_apply hArena hState hρ hExpected hu hConstant (Or.inl ⟨rfl, hHolds⟩)

/-- **Where an assertion fails**, the valuation is left, unless a NaN is dropped. -/
theorem failing_fits (hNoTest : rel.isTypeTest = false) (hComparable : Concrete.Comparable rel x y)
    (hFails : ¬ Concrete.Holds rel x y) :
    assertion σ.arena u rel expected ≠ .always ∧
      (s.DropsNaN σ.arena u rel expected →
        (holding σ.arena s u rel expected).feasible = false ∧
          (failing σ.arena s u rel expected).feasible = false) ∧
      (¬ s.DropsNaN σ.arena u rel expected →
        (failing σ.arena s u rel expected).feasible = true ∧
          (failing σ.arena s u rel expected).state.Fits w (σ.arena.typed expected).2 ρ
            (s.UnmeasuredBy σ.arena ρ u expected)) := by
  rcases hComparable.holds_negated hNoTest hFails with hNegated | ⟨hOrdering, c, d, rfl, rfl, hNaN⟩
  · obtain ⟨hFeasible, hFits⟩ : (failing σ.arena s u rel expected).feasible = true ∧ _ :=
      h.fits_apply hArena hState hρ hExpected hu hConstant (Or.inr ⟨rfl, hNegated⟩)
    refine ⟨fun hAlways => ?_, fun hDrops => ?_, fun _ => ⟨hFeasible, hFits⟩⟩
    · rw [failing, hAlways] at hFeasible
      cases hFeasible
    · exact absurd hDrops (h.not_dropsNaN hρ hNegated)
  · have hGrows : σ.arena.Grows (σ.arena.typed expected).2 := Arena.grows_typed
    have hExtends : Arena.Extends w.types σ.arena (σ.arena.typed expected).2 :=
      Arena.extends_typed hArena hExpected
    have hρ' := (State.satisfies_grows hArena hGrows).mpr hρ
    have hLeft := h.left.grows hGrows hu
    have hRight : State.Denotes w (σ.arena.typed expected).2 ρ (σ.arena.typed expected).1
        (.double d) := .of_value Arena.isVariable_typed (Arena.inherent_typed.symm ▸ h.right)
    by_cases hDropped : s.DropsNaN σ.arena u rel expected
    · obtain ⟨hRelation, hHolding, hFailing⟩ := State.infeasible_of_dropsNaN (hLeft.admits hρ')
        (hRight.admits hρ') ((State.dropsNaN_typed_iff hArena hu).mpr hDropped)
      have hAssertion : assertion σ.arena u rel expected = .relation u rel _ := hRelation
      rw [holding, failing, hAssertion]
      exact ⟨nofun, fun _ => ⟨hHolding, hFailing⟩, fun hNot => absurd hDropped hNot⟩
    · obtain ⟨hOpen, hFeasible, hSatisfies⟩ := State.satisfies_apply_fails_of_nan
        (hLeft.admits hρ') (hRight.admits hρ') hExtends.coherent
        (State.coherent_grows hGrows hState) hρ' hLeft hRight hNaN Arena.isVariable_typed
        (by rw [State.fact_typed]; exact hConstant) hOrdering
        fun hNot => hDropped ((State.dropsNaN_typed_iff hArena hu).mp hNot)
      exact ⟨hOpen, fun h => absurd h hDropped, fun _ => ⟨hFeasible, hSatisfies.mono nofun⟩⟩

end

/-- **A verdict on an assertion that is right** for all valuations. -/
structure RightAssertion (w : World) (a : Arena) (s : State) (u : ValueId) (rel : Relation)
    (expected : Fact) (verdict : Verdict) : Prop where
  always : verdict = .alwaysFails → ∀ ρ o x y, s.Satisfies w a ρ →
    s.Asserted w a ρ o u x expected y → ¬ Concrete.Holds rel x y
  never  : verdict = .neverFails → ∀ ρ o x y, s.Satisfies w a ρ →
    s.Asserted w a ρ o u x expected y → Concrete.Comparable rel x y → Concrete.Holds rel x y

section

variable (hArena : σ.arena.Coherent w.types) (hState : s.Coherent w.types σ.arena)
  (hExpected : expected.Over w.types) (hu : u < σ.arena.size)
  (hConstant : expected.isConstant = true) (hNoTest : rel.isTypeTest = false)
include hArena hState hExpected hu hConstant hNoTest

/-- What always holds never fails. -/
theorem rightAssertion_always (hAlways : assertion σ.arena u rel expected = .always) :
    RightAssertion w σ.arena s u rel expected .neverFails := by
  refine ⟨nofun, fun _ ρ o x y hρ h hComparable => by_contra fun hFails => ?_⟩
  exact (failing_fits hArena hState hρ h hExpected hu hConstant hNoTest hComparable hFails).1 hAlways

/-- What is feasible tells the verdict. -/
theorem rightAssertion_verdictOf : RightAssertion w σ.arena s u rel expected
    (verdictOf (holding σ.arena s u rel expected).feasible
      (failing σ.arena s u rel expected).feasible) := by
  constructor
  · intro hVerdict ρ o x y hρ h hHolds
    rw [(holding_fits hArena hState hρ h hExpected hu hConstant hHolds).1] at hVerdict
    cases hFailing : (failing σ.arena s u rel expected).feasible <;> rw [hFailing] at hVerdict <;>
      cases hVerdict
  · intro hVerdict ρ o x y hρ h hComparable
    by_contra hFails
    obtain ⟨-, hDropped, hKept⟩ :=
      failing_fits hArena hState hρ h hExpected hu hConstant hNoTest hComparable hFails
    by_cases hDrops : s.DropsNaN σ.arena u rel expected
    · rw [(hDropped hDrops).1] at hVerdict
      cases hVerdict
    · rw [(hKept hDrops).1] at hVerdict
      cases hHolding : (holding σ.arena s u rel expected).feasible <;> rw [hHolding] at hVerdict <;>
        cases hVerdict

end

/-- **An assertion covers both outcomes.** Where the relation to the expected constant holds, the
valuation goes on at the next instruction. Where it fails, the valuation goes on at the target of the
transfer, as the usual handler has it, unless a NaN is dropped; the state is marked if that is asked
for, or if it was before. The verdict is right for all valuations. -/
theorem perform_ensure_covers (hReached : Reached w.types σ.arena s) (hu : u < σ.arena.size)
    (hStack : s.stack = u :: rest) (hExpected : expected.Over w.types)
    (hConstant : expected.isConstant = true) (hNoTest : rel.isTypeTest = false)
    (hHandler : ctx.handler = .usual) :
    Yields (perform ctx index s
        (.ensure rel expected (some (.goto target)) makeEphemeral anchor)) σ fun items τ =>
      (∃ verdict reported, RightAssertion w σ.arena s u rel expected verdict ∧
        τ.events.toList = σ.events.toList ++
          assertionReport anchor τ.arena reported u verdict) ∧
      ∀ ρ o x y, s.Satisfies w σ.arena ρ → s.Asserted w σ.arena ρ o u x expected y →
        (Concrete.Holds rel x y → ∃ it ∈ items, it.index = index + 1 ∧
          it.state.stack = s.stack ∧ it.state.isEphemeral = s.isEphemeral ∧
          it.state.Fits w τ.arena ρ (s.UnmeasuredBy σ.arena ρ u expected)) ∧
        (¬ Concrete.Holds rel x y → Concrete.Comparable rel x y →
          ((∃ it ∈ items, it.index = target ∧ it.state.stack = [] ∧
            it.state.isEphemeral = (makeEphemeral || s.isEphemeral) ∧
            it.state.Fits w τ.arena ρ (s.UnmeasuredBy σ.arena ρ u expected)) ↔
              ¬ s.DropsNaN σ.arena u rel expected)) := by
  obtain ⟨hArena, hState⟩ := hReached.coherent
  refine (yields_ensured (t := .goto target) hStack).mono ?_
  rintro items τ ⟨hSame, verdict, reported, hEvents, hWays⟩
  rw [hSame] at hEvents ⊢
  have hFitsGrown : ∀ {ρ}, s.Satisfies w σ.arena ρ →
      s.Satisfies w (σ.arena.typed expected).2 ρ :=
    (State.satisfies_grows hArena (Arena.grows_typed)).mpr
  rcases hWays with ⟨hAlways, rfl, rfl⟩ | ⟨hOpen, rfl, rfl⟩
  · refine ⟨⟨_, reported, rightAssertion_always hArena hState hExpected hu hConstant hNoTest hAlways,
      hEvents⟩, fun ρ o x y hρ h => ⟨fun _ => ?_, fun hFails hComparable => ?_⟩⟩
    · exact ⟨_, List.mem_singleton_self _, rfl, rfl, rfl, (hFitsGrown hρ).mono nofun⟩
    · exact absurd hAlways
        (failing_fits hArena hState hρ h hExpected hu hConstant hNoTest hComparable hFails).1
  · refine ⟨⟨_, reported, rightAssertion_verdictOf hArena hState hExpected hu hConstant hNoTest,
      hEvents⟩, fun ρ o x y hρ h => ⟨fun hHolds => ?_, fun hFails hComparable => ?_⟩⟩
    · obtain ⟨hFeasible, hFits⟩ := holding_fits hArena hState hρ h hExpected hu hConstant hHolds
      rw [if_pos hFeasible]
      refine ⟨_, List.mem_append_left _ (List.mem_singleton_self _), rfl, ?_, ?_, hFits⟩
      · exact State.frame_apply.stack
      · exact State.frame_apply.isEphemeral
    · obtain ⟨-, hDropped, hKept⟩ :=
        failing_fits hArena hState hρ h hExpected hu hConstant hNoTest hComparable hFails
      constructor
      · rintro ⟨it, hit, -⟩ hDrops
        obtain ⟨hHolding, hFailing⟩ := hDropped hDrops
        rw [hHolding, hFailing] at hit
        cases hit
      · intro hDrops
        obtain ⟨hFeasible, hFits⟩ := hKept hDrops
        rw [if_pos hFeasible, dispatch, hHandler]
        refine ⟨_, List.mem_append_right _ (List.mem_singleton_self _), rfl, rfl, ?_, ?_⟩
        · have hFrame : (failing σ.arena s u rel expected).state.isEphemeral = s.isEphemeral :=
            State.frame_apply.isEphemeral
          cases makeEphemeral
          · exact hFrame
          · rfl
        · cases makeEphemeral <;> exact hFits.congr rfl rfl

/-- A double that is found to be a NaN. -/
def knownNaN : State := (State.initial.apply State.doubles (.relation 1 .ne 1)).state

theorem evaluated_knownNaN :
    knownNaN.fact State.doubles 1 = .double .nan ∧ knownNaN.fact State.doubles 2 = .double .any ∧
      knownNaN.links.toList = [] := by
  decide +kernel

theorem satisfies_knownNaN :
    knownNaN.Satisfies State.plainWorld State.doubles fun _ => .double none := by
  obtain ⟨-, hVars, -⟩ := State.evaluated_doubles
  obtain ⟨hX, hY, hLinks⟩ := evaluated_knownNaN
  refine ⟨fun hv _ => ?_, fun _ _ _ hNone => (by cases hNone), fun l hl => ?_⟩
  · have hMem := Arena.mem_allVars.mpr hv
    rw [hVars] at hMem
    simp only [List.mem_cons, List.not_mem_nil, or_false] at hMem
    rcases hMem with rfl | rfl
    · rw [hX]
      exact Fact.admits_nan
    · rw [hY]
      exact Fact.admits_double.mpr trivial
  · have hMem : l ∈ knownNaN.links.toList := hl
    rw [hLinks] at hMem
    cases hMem

/-- That a double is not negative holds of zero and fails of a NaN, if that is not known to be one. -/
theorem ensure_covers_double :
    Yields (perform usualContext 0 (State.initial.push 1)
        (.ensure .ge (.double (.const .zero)) (some (.goto 7)) true none)) (.start State.doubles)
      (fun items τ =>
        (∃ it ∈ items, it.index = 1 ∧
          it.state.Satisfies State.plainWorld τ.arena fun _ => .double (some .zero)) ∧
        ∃ it ∈ items, it.index = 7 ∧ it.state.isEphemeral = true ∧
          it.state.Satisfies State.plainWorld τ.arena fun _ => .double none) ∧
    Yields (perform usualContext 0 (knownNaN.push 1)
        (.ensure .ge (.double (.const .zero)) (some (.goto 7)) true none)) (.start State.doubles)
      fun items τ => ¬ ∃ it ∈ items, it.index = 7 ∧ it.state.stack = [] ∧
        it.state.isEphemeral = true ∧
        it.state.Satisfies State.plainWorld τ.arena fun _ => .double none := by
  obtain ⟨hSize, hVars, hVariable, -, hX, -⟩ := State.evaluated_doubles
  have hu : 1 < (Session.start State.doubles).arena.size := hSize ▸ by decide
  have hOver : (Fact.double (.const .zero)).Over State.plainWorld.types := Fact.over_of_info rfl
  have hAsserted : ∀ (s : State) (c : Option Double),
      s.Asserted State.plainWorld State.doubles (fun _ => .double c) 0 1 (.double c)
        (.double (.const .zero)) (.double (some .zero)) := by
    intro s c
    refine ⟨.of_variable hVariable rfl, Fact.admits_double.mpr rfl, fun hTyped => ?_, ?_,
      fun _ _ => ⟨?_, nofun⟩⟩
    · obtain ⟨i, hi⟩ := Arena.isVariable_iff.mp hVariable
      cases hi.symm.trans hTyped
    · rintro p (hp | hp) <;> cases hp
    · rintro (hNull | hNull) <;> cases hNull
  -- a double is no null, so no length is exempt
  have hExempt : ∀ (s : State) (c : Option Double) (m : ValueId),
      s.UnmeasuredBy State.doubles (fun _ => .double c) 1 (.double (.const .zero)) m → False := by
    rintro s c m ⟨-, -, l, q, -, hNull, -⟩
    cases hNull
  have hInitial : ∀ c, (State.initial.push 1).Satisfies State.plainWorld State.doubles
      fun _ => .double c := fun c => (State.satisfies_doubles fun _ => ⟨c, rfl⟩).congr rfl rfl
  constructor
  · have hReached : Reached State.plainWorld.types State.doubles (State.initial.push 1) :=
      .same State.reached_doubles rfl rfl
    refine (perform_ensure_covers hReached hu rfl hOver rfl rfl rfl).mono ?_
    rintro items τ ⟨-, hCovers⟩
    constructor
    · obtain ⟨it, hit, hIndex, -, -, hFits⟩ := (hCovers _ 0 _ _ (hInitial (some .zero))
        (hAsserted _ _)).1 (Int.le_refl _)
      exact ⟨it, hit, hIndex, hFits.mono (hExempt _ _)⟩
    · obtain ⟨it, hit, hIndex, -, hMarked, hFits⟩ := ((hCovers _ 0 _ _ (hInitial none)
        (hAsserted _ _)).2 (fun hHolds => nomatch hHolds) .doubles).mpr fun hDrops => by
          rcases hDrops.known with hKnown | hKnown
          · exact nomatch hX.symm.trans hKnown
          · cases hKnown
      exact ⟨it, hit, hIndex, hMarked, hFits.mono (hExempt _ _)⟩
  · have hReached : Reached State.plainWorld.types State.doubles (knownNaN.push 1) :=
      .same (.apply _ State.reached_doubles) rfl rfl
    refine (perform_ensure_covers hReached hu rfl hOver rfl rfl rfl).mono ?_
    rintro items τ ⟨-, hCovers⟩ ⟨it, hit, hIndex, hStack, hMarked, hSatisfies⟩
    refine ((hCovers _ 0 _ _ (satisfies_knownNaN.congr rfl rfl) (hAsserted _ _)).2
      (fun hHolds => nomatch hHolds) .doubles).mp
      ⟨it, hit, hIndex, hStack, hMarked, hSatisfies.mono nofun⟩ ?_
    exact ⟨rfl, Or.inl evaluated_knownNaN.1, Or.inl hVariable⟩

end Step

end Pathwise
