import Pathwise.Proofs.Feasibility

/-!
# Doubles and NaN

A NaN comes before or after no number and equals none. Of two doubles one of which may be a NaN the
facts decide no order, and no order narrows them, as long as it is not known that one is. That it is
a NaN is what remains when it is narrowed, and a relation that is recorded of it is lost.

## Results

* `Fact.decide?_of_nan`, `Fact.narrow_of_nan` — nothing is decided of a NaN.
* `Fact.admits_narrow_iff`     — narrowing loses no boolean, integer or double but a known NaN.
* `admits_meetFact_iff`        — the doubles that are left by narrowing a variable.
* `satisfies_applyOpen_order`  — an order with a NaN can be assumed, if nothing is recorded.
* `not_satisfies_applyOpen`    — what is recorded of a NaN is not satisfied.
-/

namespace Pathwise

namespace Fact

variable {w : World} {f g : Fact} {rel : Relation} {c d : Option Double}

/-- **Nothing is decided of a NaN**, unless that it is one is known. -/
theorem decide?_of_nan (hf : f.Admits w (.double c)) (hg : g.Admits w (.double d))
    (hNaN : c = none ∨ d = none) (hRel : rel = .eq ∨ rel.isOrdering = true) :
    decide? rel f g = none ∨
      decide? rel f g = some false ∧ (f = .double .nan ∨ g = .double .nan) := by
  have hDecide : decide? rel f g = decideComparison? rel f g := by
    have hSome : (f.isBottom || g.isBottom) = false := by
      rw [isBottom_of_admits hf, isBottom_of_admits hg]
      rfl
    unfold decide?
    rw [hSome]
    cases rel <;> first | rfl | (rcases hRel with hRel | hRel <;> cases hRel)
  rw [hDecide]
  rcases admits_double_iff.mp hf with rfl | ⟨c', rfl, hc⟩
  · refine Or.inl ?_
    rcases admits_double_iff.mp hg with rfl | ⟨d', rfl, -⟩ <;> simp [decideComparison?, disjoint, isTop]
  · rcases admits_double_iff.mp hg with rfl | ⟨d', rfl, hd⟩
    · exact Or.inl (by simp [decideComparison?, disjoint, isTop])
    · cases c' <;> cases d' <;> simp_all [decideComparison?, DoubleFact.Admits]

/-- **An order tells nothing of a NaN**, unless that it is one is known. -/
theorem narrow_of_nan (hf : f.Admits w (.double c)) (hg : g.Admits w (.double d))
    (hNaN : c = none ∨ d = none) (hOrdering : rel.isOrdering = true) (hfNumber : f ≠ .double .nan)
    (hgNumber : g ≠ .double .nan) : f.narrow rel g = f := by
  have hNarrow : f.narrow rel g = f.narrowOrder rel g := by
    cases rel <;> first | rfl | cases hOrdering
  have hDecide : decide? rel f g ≠ some false := by
    rcases decide?_of_nan hf hg hNaN (Or.inr hOrdering) with h | ⟨-, h | h⟩
    · rw [h]
      nofun
    · exact absurd h hfNumber
    · exact absurd h hgNumber
  rw [hNarrow]
  unfold narrowOrder
  rw [decide_eq_false hfNumber, decide_eq_false hgNumber, Bool.or_self, if_neg Bool.false_ne_true]
  rcases admits_double_iff.mp hf with rfl | ⟨c', rfl, -⟩ <;>
    rcases admits_double_iff.mp hg with rfl | ⟨d', rfl, -⟩
  · rfl
  · rfl
  · rfl
  · exact if_neg hDecide

/-- A fact on a double that may be a number says of some number that it may be that one. -/
theorem exists_number (hf : f.Admits w (.double c)) (hNumber : f ≠ .double .nan) :
    ∃ z, f.Admits w (.double (some z)) := by
  rcases admits_double_iff.mp hf with rfl | ⟨c', rfl, -⟩
  · exact ⟨.zero, admits_top⟩
  · cases c' with
    | any => exact ⟨.zero, admits_double.mpr trivial⟩
    | const z => exact ⟨z, admits_double.mpr rfl⟩
    | nan => exact absurd rfl hNumber

theorem not_admits_nan {z : Double} : ¬ (double .nan).Admits w (.double (some z)) := by
  rw [admits_double]
  exact nofun

theorem admits_nan : (double .nan).Admits w (.double none) := admits_double.mpr rfl

end Fact

-- ---------------------------------------------------------------------------
-- Narrowing what is no reference
-- ---------------------------------------------------------------------------

namespace Concrete

/-- A boolean, an integer or a double. -/
def IsPrimitive : Concrete → Prop
  | .bool _ | .int _ _ | .double _ => True
  | .null | .object _ => False

variable {x y : Concrete} {rel : Relation}

/-- References are compared with references only. -/
theorem IsPrimitive.of_holds (hx : x.IsPrimitive) (h : Holds rel x y) : y.IsPrimitive := by
  cases x <;> cases y <;> simp_all [Holds, IsPrimitive]

end Concrete

namespace Fact

variable {w : World} {H : Hierarchy} {f g : Fact} {rel : Relation} {x y : Concrete}

/-- What admits a value that is no reference names no type. -/
theorem over_of_primitive (hx : x.IsPrimitive) (hfx : f.Admits w x) : f.Over H := by
  refine over_of_info ?_
  cases f with
  | ref r al sl =>
    rcases hfx with ⟨rfl, -⟩ | ⟨o, rfl, -⟩
    · exact hx.elim
    · exact hx.elim
  | _ => rfl

/-- A known NaN differs from every value but is narrowed by a known NaN only, which leaves nothing. -/
theorem narrowNe_nan (hgy : g.Admits w y) (h : Concrete.Holds .ne (.double none) y) :
    narrowNe (double .nan) g = if g = double .nan then bottom else double .nan := by
  cases y with
  | double d =>
    rcases admits_double_iff.mp hgy with rfl | ⟨e, rfl, -⟩
    · rfl
    · cases e with
      | any => rfl
      | nan => rfl
      | const z => simp [narrowNe, isConstant]
  | _ => exact h.elim

/-- **Narrowing loses no boolean, integer or double**, whichever comparison holds of it, but one:
that a NaN differs from a NaN is taken to be impossible if both are known to be NaN. -/
theorem admits_narrow_iff (hx : x.IsPrimitive) (hfx : f.Admits w x) (hgy : g.Admits w y)
    (h : Concrete.Holds rel x y) :
    (narrow rel f g).Admits w x ↔ ¬ (rel = .ne ∧ f = double .nan ∧ g = double .nan) := by
  have hNotNull : ∀ {z : Concrete}, z.IsPrimitive → z ≠ .null := by
    rintro z hz rfl
    exact hz
  by_cases hKnown : f = double .nan
  · subst hKnown
    obtain ⟨c, rfl, rfl⟩ := hfx
    have hNe : rel = .ne := Concrete.eq_ne_of_holds_nan h (Or.inl rfl)
    subst hNe
    rw [narrow, narrowNe_nan hgy h]
    by_cases hBoth : g = double .nan
    · simp [hBoth]
    · rw [if_neg hBoth]
      exact iff_of_true admits_nan fun hLost => hBoth hLost.2.2
  · have hOrdered : Ordered w 0 x := by
      rintro p (rfl | ⟨rfl, -⟩)
      · exact hx.elim
      · exact hx.elim
    have hKept := keeps_narrow (over_of_primitive hx hfx) (over_of_primitive (hx.of_holds h) hgy)
      hOrdered (keeps_of_admits (hNotNull hx) hfx) (keeps_of_admits (hNotNull (hx.of_holds h)) hgy) h
      hKnown
    exact iff_of_true hKept.admits fun hLost => hKnown hLost.2.1

/-- An integer below another is kept, and so is a NaN that differs from one that is not known to be
one. If both are known, nothing is left. -/
theorem admits_narrow_nan :
    (narrow .lt (int (.between 0 9)) (int (.between 0 9))).Admits State.plainWorld
        (.int 8 (by decide)) ∧
      (narrow .ne (double .nan) (double .any)).Admits State.plainWorld (.double none) ∧
      ¬ (narrow .ne (double .nan) (double .nan)).Admits State.plainWorld (.double none) := by
  have hLess : Concrete.Holds .lt (.int 8 (by decide)) (.int 9 (by decide)) :=
    show (8 : Int) < 9 by decide
  have hDiffers : Concrete.Holds .ne (.double none) (.double none) := rfl
  have hAny : (double .any).Admits State.plainWorld (.double none) := admits_double.mpr trivial
  have hRange : ∀ n (hn : n ∈ Range.full), n ∈ Range.between 0 9 →
      (int (.between 0 9)).Admits State.plainWorld (.int n hn) := fun _ _ => admits_int.mpr
  have hPrimitive : (Concrete.double none).IsPrimitive := trivial
  refine ⟨?_, ?_, ?_⟩
  · refine (admits_narrow_iff ?_ (hRange 8 _ (by decide)) (hRange 9 _ (by decide)) hLess).mpr ?_
    · exact trivial
    · simp
  · exact (admits_narrow_iff hPrimitive admits_nan hAny hDiffers).mpr (by simp)
  · rw [admits_narrow_iff hPrimitive admits_nan admits_nan hDiffers]
    simp

end Fact

-- ---------------------------------------------------------------------------
-- Doubles that are narrowed
-- ---------------------------------------------------------------------------

namespace State

variable {w : World} {H : Hierarchy} {a : Arena} {s : State} {ρ : ValueId → Concrete} {f : Fact}
  {rel : Relation} {u v m : ValueId} {c d : Option Double}

/-- A length is no double. -/
theorem not_admits_length {l : Length} {q : ValueId} (hArena : a.Coherent H) (hLength : a.LengthOf l q v) :
    ¬ (s.fact a v).Admits w (.double c) := by
  intro hAdmits
  obtain ⟨n, hn, hInt⟩ := (integral_fact hArena hLength).exists_int hAdmits
  cases hInt

/-- **The doubles that are left** when one variable is narrowed. -/
theorem admits_setFact_iff (hArena : a.Coherent H) (hVariable : a.isVariable m = true) :
    ((s.setFact a m ((s.fact a m).meet f)).fact a v).Admits w (.double c) ↔
      (s.fact a v).Admits w (.double c) ∧ (v = m → f.Admits w (.double c)) := by
  have hMeet : ∀ {f g : Fact}, (f.meet g).Admits w (.double c) ↔
      f.Admits w (.double c) ∧ g.Admits w (.double c) := Fact.admits_meet_value nofun nofun
  by_cases hNe : v = m
  · subst hNe
    obtain ⟨i, hi⟩ := Arena.isVariable_iff.mp hVariable
    have hFact : s.fact a v = (s.derived a i).meet (s.stored v) := fact_var hArena hi
    have hDeclared : (s.derived a i).Admits w (.double c) → (a.inherent v).Admits w (.double c) := by
      by_cases hLength : ∃ l q, a.LengthOf l q v
      · obtain ⟨l, q, hLength⟩ := hLength
        rw [derived_of_length hi hLength]
        exact fun h => (hMeet.mp h).1
      · rw [derived_of_not_length hi fun l q h => hLength ⟨l, q, h⟩]
        exact id
    rw [fact_setFact_self hArena hi, stored_setFact hVariable, hMeet]
    split
    · -- the declaration says what is to be stored
      rename_i hSaid
      constructor
      · rintro ⟨hDerived, -⟩
        have hBoth := hDeclared hDerived
        rw [← hSaid] at hBoth
        exact (hMeet.mp hBoth).imp_right fun h _ => h
      · rintro ⟨hOld, -⟩
        rw [hFact] at hOld
        exact ⟨(hMeet.mp hOld).1, Fact.admits_top⟩
    · rw [hMeet]
      constructor
      · rintro ⟨-, hOld, hNew⟩
        exact ⟨hOld, fun _ => hNew⟩
      · rintro ⟨hOld, hNew⟩
        have hDerived := hOld
        rw [hFact] at hDerived
        exact ⟨(hMeet.mp hDerived).1, hOld, hNew rfl⟩
  · by_cases hLength : ∃ l, a.LengthOf l m v
    · obtain ⟨l, hLength⟩ := hLength
      exact iff_of_false (not_admits_length hArena hLength)
        fun h => not_admits_length hArena hLength h.1
    · rw [fact_setFact_of_ne hArena hNe fun l h => hLength ⟨l, h⟩]
      exact (and_iff_left fun h => absurd h hNe).symm

/-- The doubles that are left when variables are narrowed one after the other. -/
theorem admits_meetFacts_iff {vs : List ValueId} (hArena : a.Coherent H)
    (hvs : ∀ m ∈ vs, a.isVariable m = true) (hFeasible : (meetFacts a f vs s).feasible = true) :
    ((meetFacts a f vs s).state.fact a v).Admits w (.double c) ↔
      (s.fact a v).Admits w (.double c) ∧ (v ∈ vs → f.Admits w (.double c)) := by
  induction vs generalizing s with
  | nil => exact (and_iff_left nofun).symm
  | cons m vs ih =>
    rw [meetFacts] at hFeasible ⊢
    split at hFeasible
    · cases hFeasible
    · rename_i hSome
      rw [if_neg hSome, ih (fun u hu => hvs u (List.mem_cons_of_mem _ hu)) hFeasible,
        admits_setFact_iff hArena (hvs m List.mem_cons_self), and_assoc, ← or_imp,
        ← List.mem_cons]

/-- **The doubles that are left** when a variable is narrowed together with all that equal it. -/
theorem admits_meetFact_iff (hArena : a.Coherent H) (hState : s.Coherent H a)
    (hVariable : a.isVariable v = true) (hFeasible : (s.meetFact a v f).feasible = true) :
    ((s.meetFact a v f).state.fact a v).Admits w (.double c) ↔
      (s.fact a v).Admits w (.double c) ∧ f.Admits w (.double c) := by
  have hMembers : ∀ m ∈ s.equalClass v, a.isVariable m = true := by
    intro m hm
    rcases isVariable_of_mem_equalClass hState hm with rfl | hMember
    · exact hVariable
    · exact hMember
  unfold meetFact at hFeasible ⊢
  rw [if_pos hVariable] at hFeasible ⊢
  rw [admits_meetFacts_iff hArena hMembers hFeasible]
  exact and_congr_right fun _ => ⟨fun h => h mem_equalClass_self, fun h _ => h⟩

theorem meetFact_of_not_variable (hNone : a.isVariable v = false) :
    s.meetFact a v f = ⟨!((s.fact a v).meet f).isBottom, s⟩ := by
  rw [meetFact, hNone]
  rfl

/-- **A double is narrowed.** -/
theorem satisfies_meetFact_double (hArena : a.Coherent w.types) (hState : s.Coherent w.types a)
    (hρ : s.Satisfies w a ρ) (hv : Denotes w a ρ v (.double c)) (hf : f.Over w.types)
    (hfc : f.Admits w (.double c)) :
    (s.meetFact a v f).feasible = true ∧ (s.meetFact a v f).state.Satisfies w a ρ :=
  satisfies_meetFact hArena hState hρ hv nofun nofun hf hfc

/-- **An order with a NaN** can be assumed where no link contradicts it, and is satisfied where none
is recorded. -/
theorem satisfies_applyOpen_order (hArena : a.Coherent w.types) (hState : s.Coherent w.types a)
    (hρ : s.Satisfies w a ρ) (hu : Denotes w a ρ u (.double c)) (hv : Denotes w a ρ v (.double d))
    (hNaN : c = none ∨ d = none) (hOrdering : rel.isOrdering = true)
    (hLeft : s.fact a u ≠ .double .nan) (hRight : s.fact a v ≠ .double .nan)
    (hLinks : (a.isVariable u && a.isVariable v) = true → s.contradictsLink u rel v = false) :
    (s.applyOpen a u rel v).feasible = true ∧ ((a.isVariable u && a.isVariable v) = false →
      (s.applyOpen a u rel v).state.Satisfies w a ρ) := by
  have hOver : ∀ {v}, (s.fact a v).Over w.types := over_fact hArena hState
  have hux := hu.admits hρ
  have hvy := hv.admits hρ
  obtain ⟨r, hFlipped, hFlippedOrdering⟩ : ∃ r, rel.flipped? = some r ∧ r.isOrdering = true := by
    cases rel <;> first | exact ⟨_, rfl, rfl⟩ | cases hOrdering
  have hNoTest : rel.isTypeTest = false := by
    cases rel <;> first | rfl | cases hOrdering
  have hNarrow := Fact.narrow_of_nan hux hvy hNaN hOrdering hLeft hRight
  obtain ⟨hFeasible, hNext⟩ :=
    satisfies_meetFact_double hArena hState hρ hu hOver hux
  -- the left operand may be a number as much as before
  have hStays : (s.meetFact a u (s.fact a u)).state.fact a u ≠ .double .nan := by
    intro hEq
    cases hVariable : a.isVariable u with
    | false =>
      rw [meetFact_of_not_variable hVariable] at hEq
      exact hLeft hEq
    | true =>
      obtain ⟨z, hz⟩ := Fact.exists_number hux hLeft
      have hStill := (admits_meetFact_iff hArena hState hVariable hFeasible).mpr ⟨hz, hz⟩
      rw [hEq] at hStill
      exact Fact.not_admits_nan hStill
  have hAgain : (s.fact a v).narrow r ((s.meetFact a u (s.fact a u)).state.fact a u) = s.fact a v :=
    Fact.narrow_of_nan hvy (hu.admits hNext) hNaN.symm hFlippedOrdering hRight hStays
  obtain ⟨hFeasible', hLast⟩ := satisfies_meetFact_double hArena
    ((coherent_invariant hArena).meetFact hOver hState) hNext hv hOver hvy
  unfold applyOpen
  simp only [hNoTest, hNarrow, hFeasible, hFlipped, hAgain, hFeasible', Bool.not_false, Bool.and_true,
    Bool.not_true, Bool.false_eq_true, if_false, Bool.true_and]
  cases hLinked : a.isVariable u && a.isVariable v with
  | false => exact ⟨hFeasible', fun _ => hLast⟩
  | true =>
    rw [hLinks hLinked]
    exact ⟨rfl, nofun⟩

-- ---------------------------------------------------------------------------
-- Relations that are recorded
-- ---------------------------------------------------------------------------

/-- A comparison is recorded, from one of its operands to the other. -/
theorem exists_mem_addLink (hNoTest : rel.isTypeTest = false) :
    ∃ l ∈ (s.addLink u rel v).links,
      l = ⟨u, rel, v⟩ ∨ ∃ r, rel.flipped? = some r ∧ l = ⟨v, r, u⟩ := by
  obtain ⟨r, hr⟩ : ∃ r, rel.flipped? = some r := by
    refine Option.ne_none_iff_exists'.mp fun hNone => ?_
    cases hNoTest.symm.trans (Relation.flipped?_eq_none_iff.mp hNone)
  unfold addLink
  split
  · exact ⟨_, OrdSet.mem_insert.mpr (Or.inl rfl), Or.inl rfl⟩
  · rw [hr]
    exact ⟨_, OrdSet.mem_insert.mpr (Or.inl rfl), Or.inr ⟨r, rfl, rfl⟩⟩

/-- **A comparison of variables** that the facts leave open is recorded. -/
theorem exists_mem_applyOpen (hu : a.isVariable u = true) (hv : a.isVariable v = true)
    (hNoTest : rel.isTypeTest = false) (hFeasible : (s.applyOpen a u rel v).feasible = true) :
    ∃ l ∈ (s.applyOpen a u rel v).state.links,
      l = ⟨u, rel, v⟩ ∨ ∃ r, rel.flipped? = some r ∧ l = ⟨v, r, u⟩ := by
  have hRecorded : ∀ {n : Narrowing},
      (if n.feasible = true then (⟨true, n.state.addLink u rel v⟩ : Narrowing) else n).feasible =
        true →
      ∃ l ∈ (if n.feasible = true then (⟨true, n.state.addLink u rel v⟩ : Narrowing)
        else n).state.links, l = ⟨u, rel, v⟩ ∨ ∃ r, rel.flipped? = some r ∧ l = ⟨v, r, u⟩ := by
    intro n hn
    split at hn
    · rename_i hFeasible
      rw [if_pos hFeasible]
      exact exists_mem_addLink hNoTest
    · exact absurd hn ‹_›
  unfold applyOpen at hFeasible ⊢
  simp only [hu, hv, hNoTest, Bool.not_false, Bool.and_true, Bool.true_and] at hFeasible ⊢
  split at hFeasible
  · cases hFeasible
  · rename_i hOpen
    rw [if_neg hOpen]
    split at hFeasible
    · rename_i hLeft
      rw [hFeasible] at hLeft
      cases hLeft
    · rename_i hLeft
      rw [if_neg hLeft]
      exact hRecorded hFeasible

/-- **No order with a NaN that is recorded is satisfied**, and no equality. -/
theorem not_satisfies_applyOpen (hu : a.isVariable u = true) (hv : a.isVariable v = true)
    (hNaN : ρ u = .double none ∨ ρ v = .double none) (hRel : rel = .eq ∨ rel.isOrdering = true)
    (hFeasible : (s.applyOpen a u rel v).feasible = true) :
    ¬ (s.applyOpen a u rel v).state.Satisfies w a ρ := by
  intro hρ
  have hNoTest : rel.isTypeTest = false ∧ rel ≠ .ne ∧ rel.flipped? ≠ some .ne := by
    cases rel <;> simp_all [Relation.isTypeTest, Relation.flipped?, Relation.isOrdering]
  obtain ⟨l, hl, rfl | ⟨r, hr, rfl⟩⟩ := exists_mem_applyOpen hu hv hNoTest.1 hFeasible
  · exact hNoTest.2.1 (Concrete.eq_ne_of_holds_nan (hρ.links _ hl) hNaN)
  · refine hNoTest.2.2 (hr.trans (congrArg some ?_))
    exact Concrete.eq_ne_of_holds_nan (hρ.links _ hl) hNaN.symm

/-- Only `≠` is known of a NaN, which contradicts no strict order. -/
theorem contradictsLink_of_nan (hρ : s.Satisfies w a ρ)
    (hNaN : ρ u = .double none ∨ ρ v = .double none) (hRel : rel = .lt ∨ rel = .gt) :
    s.contradictsLink u rel v = false := by
  rw [contradictsLink, List.any_eq_false]
  intro r hr
  obtain ⟨l, hl, hBetween⟩ := List.mem_filterMap.mp hr
  obtain rfl : r = .ne := by
    have hRecorded := hρ.links l hl
    unfold Link.between? at hBetween
    split at hBetween
    · rename_i hSame
      obtain ⟨rfl, rfl⟩ := hSame
      cases hBetween
      exact Concrete.eq_ne_of_holds_nan hRecorded hNaN
    · split at hBetween
      · rename_i hSwapped
        obtain ⟨rfl, rfl⟩ := hSwapped
        have hNe := Concrete.eq_ne_of_holds_nan hRecorded hNaN.symm
        rw [hNe] at hBetween
        cases hBetween
        rfl
      · cases hBetween
  rcases hRel with rfl | rfl <;> decide

-- ---------------------------------------------------------------------------
-- Relations with a NaN
-- ---------------------------------------------------------------------------

section

variable (hux : (s.fact a u).Admits w (.double c)) (hvy : (s.fact a v).Admits w (.double d))
  (hRel : rel = .eq ∨ rel.isOrdering = true)
include hux hvy hRel

/-- What is known to be a NaN is in no order, and equals nothing. -/
theorem applyRelation_of_nan (hKnown : s.fact a u = .double .nan ∨ s.fact a v = .double .nan) :
    s.applyRelation a u rel v = ⟨false, s⟩ := by
  have hTest : (decide (s.fact a u = .double .nan) || decide (s.fact a v = .double .nan)) = true := by
    simpa using hKnown
  unfold applyRelation
  simp only [Fact.isBottom_of_admits hux, Fact.isBottom_of_admits hvy, Bool.or_self, hTest,
    Bool.false_eq_true, if_false, if_true]
  cases rel <;> first | rfl | (rcases hRel with h | h <;> cases h)

/-- **The facts leave an order with a NaN open**, unless that it is one is known. -/
theorem applyRelation_eq_applyOpen (hNaN : c = none ∨ d = none) (hNe : u ≠ v)
    (hLeft : s.fact a u ≠ .double .nan) (hRight : s.fact a v ≠ .double .nan) :
    s.applyRelation a u rel v = s.applyOpen a u rel v := by
  have hDecide : Fact.decide? rel (s.fact a u) (s.fact a v) = none := by
    rcases Fact.decide?_of_nan hux hvy hNaN hRel with h | ⟨-, h | h⟩
    · exact h
    · exact absurd h hLeft
    · exact absurd h hRight
  unfold applyRelation
  simp only [Fact.isBottom_of_admits hux, Fact.isBottom_of_admits hvy, Bool.or_self, hLeft, hRight,
    hNe, hDecide, decide_false, Bool.false_and, Bool.false_eq_true, if_false]

/-- A condition on a NaN is the relation, also if it was decided when it was made. -/
theorem apply_of_nan (hNaN : c = none ∨ d = none) :
    Condition.of a u rel v ≠ .always ∧ s.apply a (.of a u rel v) = s.applyRelation a u rel v := by
  rcases condition_cases s a u rel v with hOf | ⟨-, b, hDecide, hOf⟩
  · rw [hOf]
    exact ⟨nofun, rfl⟩
  · rcases Fact.decide?_of_nan hux hvy hNaN hRel with h | ⟨h, hKnown⟩
    · cases hDecide.symm.trans h
    · cases hDecide.symm.trans h
      rw [hOf]
      exact ⟨nofun, (applyRelation_of_nan hux hvy hRel hKnown).symm⟩

end

/-- **What may be a NaN, compared with itself**: it is not taken for one. -/
theorem applyRelation_self_of_nan (hNaN : (s.fact a u).Admits w (.double none))
    (hNumber : s.fact a u ≠ .double .nan) (hRel : rel = .eq ∨ rel.isOrdering = true) :
    s.applyRelation a u rel u = ⟨rel == .eq || rel == .le || rel == .ge, s⟩ := by
  have hNoTest : rel.isTypeTest = false := by
    cases rel <;> first | rfl | (rcases hRel with h | h <;> cases h)
  unfold applyRelation applySelf
  simp only [Fact.isBottom_of_admits hNaN, hNumber, hNoTest, Bool.or_self, decide_false, decide_true,
    Bool.not_false, Bool.and_true, Bool.false_eq_true, if_false, if_true]
  split
  · cases rel <;> first | rfl | (rcases hRel with h | h <;> cases h)
  · rfl

-- ---------------------------------------------------------------------------
-- Two doubles
-- ---------------------------------------------------------------------------

/-- Two doubles of which nothing else is known. -/
def doubles : Arena :=
  ((Arena.new.var (.localVar "x" false) none (.double .any)).2.var (.localVar "y" false) none
    (.double .any)).2

theorem evaluated_doubles :
    doubles.size = 3 ∧ doubles.allVars = [1, 2] ∧ doubles.isVariable 1 = true ∧
      doubles.isVariable 2 = true ∧ initial.fact doubles 1 = .double .any ∧
      initial.fact doubles 2 = .double .any := by
  decide +kernel

theorem reached_doubles : Reached plainWorld.types doubles .initial :=
  .intern _ (.intern _ .start ⟨Fact.over_of_info rfl, by rintro y q ⟨⟩ ⟨⟩⟩)
    ⟨Fact.over_of_info rfl, by rintro y q ⟨⟩ ⟨⟩⟩

theorem satisfies_doubles (hDoubles : ∀ v, ∃ e, ρ v = .double e) :
    initial.Satisfies plainWorld doubles ρ := by
  obtain ⟨-, hVars, -, -, hX, hY⟩ := evaluated_doubles
  refine satisfies_initial fun v hv => ?_
  obtain ⟨e, he⟩ := hDoubles v
  rw [hVars] at hv
  simp only [List.mem_cons, List.not_mem_nil, or_false] at hv
  rcases hv with rfl | rfl
  · rw [hX, he]
    exact Fact.admits_double.mpr trivial
  · rw [hY, he]
    exact Fact.admits_double.mpr trivial

end State

end Pathwise
