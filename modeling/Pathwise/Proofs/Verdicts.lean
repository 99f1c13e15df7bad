import Pathwise.Proofs.Losses

/-!
# What a decision is worth

Where a relation is decided from two facts, its outcome is that of every pair of values that
the facts describe, with the exceptions that come from meets: two facts with nothing left of
their meet are taken to have no value in common, and bounds without a meet no class. So `==` is
decided to fail for a common value that the meet loses, and a type test for an object of a class
below array types that are not in a row. No order is affected.

## Results

* `Concrete.Truth`            — relations of two values, type tests among them.
* `eq_true_iff_of_decide_eq`  — what a decided equality says of two values.
* `Fact.Misjudged`            — the values of which a decision is wrong.
* `decide?_right_iff`         — a decision is right for all other values, and only for those.
* `decisions_misjudge`        — two nulls, and an array of two interfaces, are misjudged.
-/

namespace Pathwise

namespace Concrete

variable {w : World} {rel : Relation} {b : TypeBound} {x y : Concrete}

/-- The value is an object of a class that the bound allows. -/
def IsInstance (w : World) (b : TypeBound) (x : Concrete) : Prop :=
  ∃ o, x = .object o ∧ b.Allows (w.classOf o)

/-- **The relation is true of two values.** Values are different if they are not equal, also
where they are of two kinds; a type test asks about the left value and the bound of the type. -/
def Truth (w : World) (b : TypeBound) : Relation → Concrete → Concrete → Prop
  | .instanceOf, x, _ => IsInstance w b x
  | .notInstanceOf, x, _ => ¬ IsInstance w b x
  | .ne, x, y => ¬ Holds .eq x y
  | rel, x, y => Holds rel x y

end Concrete

-- ---------------------------------------------------------------------------
-- Type tests
-- ---------------------------------------------------------------------------

namespace Fact

variable {w : World} {f g : Fact} {rel : Relation} {x y : Concrete} {b : Bool}

/-- What is said to be null is. -/
theorem Describes.eq_null (h : f.Describes w x) (hNull : f.isNull = true) : x = .null :=
  h.elim (eq_null_of_isNull hNull) And.left

/-- A reference that is no object is null. -/
theorem Describes.isRef {r : RefInfo} {al sl : Option Fact} (h : (ref r al sl).Describes w x) :
    x = .null ∨ ∃ o, x = .object o := by
  rcases h with (⟨hx, -⟩ | ⟨o, hx, -⟩) | ⟨hx, -⟩
  · exact Or.inl hx
  · exact Or.inr ⟨o, hx⟩
  · exact Or.inl hx

/-- **How a type test is decided**: null is an instance of nothing, nothing is an instance of a
bound without a meet, and what is an object for certain is one of each bound that is covered. -/
theorem of_decideInstance? (h : decideInstance? f g = some b) :
    ∃ r al sl, f = ref r al sl ∧ g.bound.isTop = false ∧
      (r.nullness = .null ∧ b = false ∨ r.bound.meet? g.bound = none ∧ b = false ∨
        r.bound.meet? g.bound ≠ none ∧ r.nullness = .notNull ∧ g.bound.covers r.bound = true ∧
          b = true) := by
  unfold decideInstance? at h
  split at h
  · rename_i r al sl
    split at h
    · cases h
    · rename_i hTop
      refine ⟨r, al, sl, rfl, eq_false_of_ne_true hTop, ?_⟩
      split at h
      · rename_i hNull
        exact Or.inl ⟨hNull, (Option.some.inj h).symm⟩
      · split at h
        · rename_i hMeet
          exact Or.inr (Or.inl ⟨Option.isNone_iff_eq_none.mp hMeet, (Option.some.inj h).symm⟩)
        · rename_i hMeet
          split at h
          · rename_i hCovered
            rw [Bool.and_eq_true, decide_eq_true_eq] at hCovered
            exact Or.inr (Or.inr ⟨fun hNone => hMeet (Option.isNone_iff_eq_none.mpr hNone),
              hCovered.1, hCovered.2, (Option.some.inj h).symm⟩)
          · cases h
  · cases h

/-- **A type test that is decided to pass** does so for every value of the fact. -/
theorem isInstance_of_decideInstance? {D : TypeDesc → Prop} (hD : TypeDesc.Orderly D)
    (hClass : ∀ o, D (w.classOf o)) (hf : f.bound.NamesIn D) (hg : g.bound.NamesIn D)
    (hfx : f.Describes w x) (hDecide : decideInstance? f g = some true) :
    Concrete.IsInstance w g.bound x := by
  obtain ⟨r, al, sl, rfl, -, hCase⟩ := of_decideInstance? hDecide
  rcases hCase with ⟨-, hFalse⟩ | ⟨-, hFalse⟩ | ⟨-, hNotNull, hCovers, -⟩
  · cases hFalse
  · cases hFalse
  · have hAdmits := hfx.resolve_right fun hNull => hNull.2 hNotNull
    obtain ⟨o, rfl⟩ : ∃ o, x = .object o := by
      refine hfx.isRef.resolve_left ?_
      rintro rfl
      exact describes_null.mp hfx hNotNull
    have hAllows := allows_of_admits hAdmits
    exact ⟨o, rfl, TypeBound.allows_of_covers hD (hClass o) hg hf hCovers hAllows⟩

/-- **A decided type test** is right, but for an object of a class below array types that are
not in a row. -/
theorem eq_true_iff_of_decideInstance? (hf : f.Over w.types) (hg : g.Over w.types)
    (hfx : f.Describes w x) (hDecide : decideInstance? f g = some b) :
    (b = true ↔ Concrete.IsInstance w g.bound x) ↔
      ¬ ∃ o, x = .object o ∧ g.bound.Allows (w.classOf o) ∧ f.bound.SplitsArrays g.bound := by
  obtain ⟨r, al, sl, rfl, -, hCase⟩ := of_decideInstance? hDecide
  -- the class of an object is allowed by the bound of the fact
  have hAllows : ∀ {o}, x = .object o → r.nullness ≠ .null ∧ r.bound.Allows (w.classOf o) := by
    rintro o rfl
    have hAdmits := (describes_of_ne_null (x := .object o) nofun).mp hfx
    exact ⟨(admits_object.mp hAdmits).1.notNull, allows_of_admits hAdmits⟩
  have hNoMeet : ∀ {o}, x = .object o → g.bound.Allows (w.classOf o) →
      (r.bound.meet? g.bound = none ↔ r.bound.SplitsArrays g.bound) := fun {o} ho hgo =>
    TypeBound.meet?_eq_none_iff (w.declared o) hf hg (hAllows ho).2 hgo
  rcases hCase with ⟨hNull, rfl⟩ | ⟨hMeet, rfl⟩ | ⟨hMeet, -, -, rfl⟩
  · -- null is an instance of nothing
    have hNone : ∀ {o}, x ≠ .object o := fun ho => (hAllows ho).1 hNull
    refine iff_of_true (iff_of_false Bool.false_ne_true ?_) ?_
    · rintro ⟨o, ho, -⟩
      exact hNone ho
    · rintro ⟨o, ho, -⟩
      exact hNone ho
  · -- an instance has a class that both bounds allow, though they have no meet
    have hSplits : Concrete.IsInstance w g.bound x ↔ ∃ o, x = .object o ∧
        g.bound.Allows (w.classOf o) ∧ r.bound.SplitsArrays g.bound :=
      exists_congr fun o => and_congr_right fun ho =>
        (and_iff_left_of_imp fun hgo => (hNoMeet ho hgo).mp hMeet).symm
    rw [hSplits]
    simp [bound, info?]
  · have hInstance :=
      isInstance_of_decideInstance? w.types.orderly w.declared hf.namesIn hg.namesIn hfx hDecide
    refine iff_of_true (iff_of_true rfl hInstance) ?_
    rintro ⟨o, ho, hgo, hSplits⟩
    exact hMeet ((hNoMeet ho hgo).mpr hSplits)

-- ---------------------------------------------------------------------------
-- Equality
-- ---------------------------------------------------------------------------

/-- Values that are decided to be equal are. -/
theorem holds_of_decide_eq (hfx : f.Describes w x) (hgy : g.Describes w y)
    (hDecide : decideComparison? .eq f g = some true) : Concrete.Holds .eq x y := by
  have hAdmits : ∀ {h : Fact} {z : Concrete}, h.nullness = .notNull → h.Describes w z →
      h.Admits w z := fun hNotNull hz => hz.resolve_right fun hNull => hNull.2 hNotNull
  rcases of_decideComparison? hDecide with ⟨r, s, rfl, rfl, hRanges⟩ | ⟨c, d, rfl, rfl, hNumbers⟩ |
    ⟨-, ⟨a, a', rfl, rfl, hBools⟩ | ⟨hNull, hNull', -⟩ | ⟨hFalse, -⟩⟩
  · obtain ⟨m, hm, rfl, hMem⟩ := hAdmits rfl hfx
    obtain ⟨n, hn, rfl, hMem'⟩ := hAdmits rfl hgy
    exact not_not.mp (Range.not_holds_of_decide? hRanges hMem hMem')
  · rcases hNumbers with ⟨-, hFalse⟩ | ⟨p, q, rfl, rfl, hCompare⟩
    · cases hFalse
    · obtain ⟨u, rfl, rfl⟩ := hAdmits rfl hfx
      obtain ⟨v, rfl, rfl⟩ := hAdmits rfl hgy
      exact not_not.mp (Double.not_holds_of_compare? hCompare)
  · obtain ⟨c, rfl, hc⟩ := hAdmits rfl hfx
    obtain ⟨d, rfl, hd⟩ := hAdmits rfl hgy
    exact Or.inl ⟨rfl, (hc a rfl).trans ((beq_iff_eq.mp hBools.symm).trans (hd a' rfl).symm)⟩
  · rw [hfx.eq_null hNull, hgy.eq_null hNull']
    rfl
  · cases hFalse

/-- Only two references that are known to be null are decided to be equal. -/
theorem eq_false_of_loses (hLoses : Loses f g x) (hNull : ¬ (f.isNull = true ∧ g.isNull = true))
    (hDecide : decideComparison? .eq f g = some b) : b = false := by
  obtain ⟨r, al, sl, s, al', sl', rfl, rfl⟩ : ∃ r al sl s al' sl', f = ref r al sl ∧
      g = ref s al' sl' := by
    cases hLoses <;> exact ⟨_, _, _, _, _, _, rfl, rfl⟩
  rcases of_decideComparison? hDecide with ⟨r, s, hEq, -⟩ | ⟨c, d, hEq, -⟩ |
    ⟨-, ⟨a, a', hEq, -⟩ | ⟨hLeft, hRight, -⟩ | ⟨hFalse, -⟩⟩
  · cases hEq
  · cases hEq
  · cases hEq
  · exact absurd ⟨hLeft, hRight⟩ hNull
  · exact hFalse

/-- Two references that are known to be null are decided to be equal. -/
theorem decide_eq_of_isNull (hf : f.isNull = true) (hg : g.isNull = true) :
    decideComparison? .eq f g = some true := by
  obtain ⟨r, al, sl, rfl, hr⟩ := isNull_iff.mp hf
  obtain ⟨s, al', sl', rfl, hs⟩ := isNull_iff.mp hg
  simp [decideComparison?, hr, hs]

/-- A common value that the meet describes is not decided to differ from itself. -/
theorem eq_true_of_describes_meet (hfx : f.Describes w x) (hgx : g.Describes w x)
    (hMeet : (f.meet g).Describes w x) (hEq : Concrete.Holds .eq x x)
    (hDecide : decideComparison? .eq f g = some b) : b = true := by
  have hDisjoint : disjoint f g = false := by
    have hBottom : (f.meet g).isBottom = false := by
      rcases hMeet with hAdmits | ⟨-, hNull⟩
      · exact isBottom_of_admits hAdmits
      · cases hfg : f.meet g with
        | bottom => exact absurd (by rw [hfg]; rfl) hNull
        | _ => rfl
    rw [disjoint, hBottom, Bool.and_false]
  by_cases hNull : x = .null
  · subst hNull
    rw [describes_null] at hfx hgx
    rcases of_decideComparison? hDecide with ⟨r, s, rfl, -⟩ | ⟨c, d, rfl, -⟩ |
      ⟨-, ⟨a, a', rfl, -⟩ | ⟨-, -, hTrue⟩ | ⟨-, hOne | hOne | hCommon⟩⟩
    · exact absurd rfl hfx
    · exact absurd rfl hfx
    · exact absurd rfl hfx
    · exact hTrue
    · exact absurd hOne.2 hgx
    · exact absurd hOne.1 hfx
    · rw [hDisjoint] at hCommon
      cases hCommon
  · exact eq_true_of_decide_eq hDisjoint ((describes_of_ne_null hNull).mp hfx)
      ((describes_of_ne_null hNull).mp hgx) hEq hDecide

/-- **What a decided equality says of two values**: it is right, but for a common value that the
meet loses. -/
theorem eq_true_iff_of_decide_eq (hf : f.Over w.types) (hg : g.Over w.types)
    (hfx : f.Describes w x) (hgy : g.Describes w y)
    (hDecide : decideComparison? .eq f g = some b) :
    (b = true ↔ Concrete.Holds .eq x y) ↔
      ¬ (x = y ∧ Loses f g x ∧ ¬ (f.isNull = true ∧ g.isNull = true)) := by
  constructor
  · rintro hRight ⟨rfl, hLoses, hNull⟩
    have hSelf : Concrete.Holds .eq x x := by
      refine Concrete.holds_eq_iff.mpr ⟨rfl, ?_⟩
      rintro rfl
      exact not_loses_value (x := .double none) nofun nofun hLoses
    rw [eq_false_of_loses hLoses hNull hDecide] at hRight
    cases hRight.mpr hSelf
  · intro hKept
    constructor
    · rintro rfl
      exact holds_of_decide_eq hfx hgy hDecide
    · intro hEq
      have hSame := Concrete.eq_of_holds hEq
      subst hSame
      by_cases hLoses : Loses f g x
      · have hNull : f.isNull = true ∧ g.isNull = true := by
          by_contra hNull
          exact hKept ⟨rfl, hLoses, hNull⟩
        rw [decide_eq_of_isNull hNull.1 hNull.2] at hDecide
        exact (Option.some.inj hDecide).symm
      · have hMeet := (describes_meet_iff hf hg).mpr ⟨hfx, hgy, hLoses⟩
        exact eq_true_of_describes_meet hfx hgy hMeet hEq hDecide

-- ---------------------------------------------------------------------------
-- Orders
-- ---------------------------------------------------------------------------

/-- An order of integers, or its negation, holds. -/
theorem holds_of_not_negated (hOrdering : rel.isOrdering = true) {m n : Int}
    (h : ¬ rel.negated.HoldsOfInts m n) : rel.HoldsOfInts m n := by
  cases rel <;> simp only [Relation.negated, Relation.HoldsOfInts] at h ⊢ <;>
    first | omega | cases hOrdering

/-- **A decided order** is right. -/
theorem eq_true_iff_of_decide_order (hOrdering : rel.isOrdering = true) (hfx : f.Describes w x)
    (hgy : g.Describes w y) (hDecide : decideComparison? rel f g = some b) :
    b = true ↔ Concrete.Holds rel x y := by
  -- only numbers are decided
  have hAdmits : f.Admits w x ∧ g.Admits w y := by
    have hNumber : f.nullness = .notNull ∧ g.nullness = .notNull := by
      rcases of_decideComparison? hDecide with ⟨r, s, rfl, rfl, -⟩ | ⟨c, d, rfl, rfl, -⟩ |
        ⟨rfl, -⟩
      · exact ⟨rfl, rfl⟩
      · exact ⟨rfl, rfl⟩
      · cases hOrdering
    exact ⟨hfx.resolve_right fun h => h.2 hNumber.1, hgy.resolve_right fun h => h.2 hNumber.2⟩
  refine ⟨?_, fun h => eq_true_of_decide_order hOrdering hAdmits.1 hAdmits.2 h hDecide⟩
  rintro rfl
  obtain ⟨hfx, hgy⟩ := hAdmits
  rcases of_decideComparison? hDecide with ⟨r, s, rfl, rfl, hRanges⟩ | ⟨c, d, rfl, rfl, hNumbers⟩ |
    ⟨rfl, -⟩
  · obtain ⟨m, hm, rfl, hMem⟩ := hfx
    obtain ⟨n, hn, rfl, hMem'⟩ := hgy
    exact holds_of_not_negated hOrdering (Range.not_holds_of_decide? hRanges hMem hMem')
  · rcases hNumbers with ⟨-, hFalse⟩ | ⟨p, q, rfl, rfl, hCompare⟩
    · cases hFalse
    · obtain ⟨u, rfl, rfl⟩ := hfx
      obtain ⟨v, rfl, rfl⟩ := hgy
      exact holds_of_not_negated hOrdering (Double.not_holds_of_compare? hCompare)
  · cases hOrdering

-- ---------------------------------------------------------------------------
-- All relations
-- ---------------------------------------------------------------------------

/-- **The values of which a decision is wrong.** -/
inductive Misjudged (w : World) (f g : Fact) : Relation → Concrete → Concrete → Prop where
  /-- A value is decided to differ from itself, as the meet of the facts loses it. -/
  | common {rel : Relation} {x : Concrete} : rel = .eq ∨ rel = .ne → Loses f g x →
      ¬ (f.isNull = true ∧ g.isNull = true) → Misjudged w f g rel x x
  /-- An object is decided to be no instance, as the bounds split the arrays above its class. -/
  | test {rel : Relation} {o : Nat} {y : Concrete} : rel.isTypeTest = true →
      g.bound.Allows (w.classOf o) → f.bound.SplitsArrays g.bound →
      Misjudged w f g rel (.object o) y

theorem misjudged_eq_iff (hEquality : rel = .eq ∨ rel = .ne) : Misjudged w f g rel x y ↔
    x = y ∧ Loses f g x ∧ ¬ (f.isNull = true ∧ g.isNull = true) := by
  constructor
  · intro h
    cases h with
    | common _ hLoses hNull => exact ⟨rfl, hLoses, hNull⟩
    | test hTest => rcases hEquality with rfl | rfl <;> cases hTest
  · rintro ⟨rfl, hLoses, hNull⟩
    exact .common hEquality hLoses hNull

theorem misjudged_test_iff (hTest : rel.isTypeTest = true) : Misjudged w f g rel x y ↔
    ∃ o, x = .object o ∧ g.bound.Allows (w.classOf o) ∧ f.bound.SplitsArrays g.bound := by
  constructor
  · intro h
    cases h with
    | common hEquality => rcases hEquality with rfl | rfl <;> cases hTest
    | test _ hAllows hSplits => exact ⟨_, rfl, hAllows, hSplits⟩
  · rintro ⟨o, rfl, hAllows, hSplits⟩
    exact .test hTest hAllows hSplits

theorem not_misjudged_order (hOrdering : rel.isOrdering = true) : ¬ Misjudged w f g rel x y := by
  intro h
  cases h with
  | common hEquality => rcases hEquality with rfl | rfl <;> cases hOrdering
  | test hTest => cases rel <;> cases hTest <;> cases hOrdering

/-- The negation of a decision is right where the decision is. -/
theorem not_eq_true_iff {p : Prop} : ((!b) = true ↔ ¬ p) ↔ (b = true ↔ p) := by
  rw [Bool.not_eq_true', ← Bool.not_eq_true]
  exact not_iff_not

/-- **A decision is right** for all values that the facts describe, but for those that are
misjudged. -/
theorem decide?_right_iff (hf : f.Over w.types) (hg : g.Over w.types) (hfx : f.Describes w x)
    (hgy : g.Describes w y) (hDecide : decide? rel f g = some b) :
    (b = true ↔ Concrete.Truth w g.bound rel x y) ↔ ¬ Misjudged w f g rel x y := by
  unfold decide? at hDecide
  split at hDecide
  · cases hDecide
  · cases rel with
    | eq =>
      rw [misjudged_eq_iff (Or.inl rfl)]
      exact eq_true_iff_of_decide_eq hf hg hfx hgy hDecide
    | ne =>
      obtain ⟨c, hc, rfl⟩ := Option.map_eq_some_iff.mp hDecide
      rw [misjudged_eq_iff (Or.inr rfl), ← eq_true_iff_of_decide_eq hf hg hfx hgy hc]
      exact not_eq_true_iff
    | instanceOf =>
      rw [misjudged_test_iff rfl]
      exact eq_true_iff_of_decideInstance? hf hg hfx hDecide
    | notInstanceOf =>
      obtain ⟨c, hc, rfl⟩ := Option.map_eq_some_iff.mp hDecide
      rw [misjudged_test_iff rfl, ← eq_true_iff_of_decideInstance? hf hg hfx hc]
      exact not_eq_true_iff
    | _ =>
      exact iff_of_true (eq_true_iff_of_decide_order rfl hfx hgy hDecide)
        (not_misjudged_order rfl)

/-- **Decisions that misjudge values**: a nullable string is decided to differ from a nullable
class object, though both may be null, and an array of an interface to be no array of another
one, though it may be one of a class below both. That null differs from an object is right. -/
theorem decisions_misjudge :
    (let string := ofExactType .string .nullable
     let classObject := ofExactType .classObject .nullable
     decide? .eq string classObject = some false ∧
      ¬ (false = true ↔ Concrete.Truth State.plainWorld classObject.bound .eq .null .null)) ∧
    (decide? .instanceOf (arrayOf "I") (arrayOf "J") = some false ∧
      ¬ (false = true ↔ Concrete.Truth State.arrayWorld (arrayOf "J").bound .instanceOf
        (.object 0) (.object 0))) ∧
    decide? .ne null notNull = some true ∧
      (true = true ↔ Concrete.Truth State.plainWorld notNull.bound .ne .null (.object 0)) := by
  have hNullables : decide? .eq (ofExactType .string .nullable)
      (ofExactType .classObject .nullable) = some false := by decide +kernel
  have hArrays : decide? .instanceOf (arrayOf "I") (arrayOf "J") = some false := by decide +kernel
  have hNull : decide? .ne null notNull = some true := by decide +kernel
  refine ⟨⟨hNullables, ?_⟩, ⟨hArrays, ?_⟩, hNull, ?_⟩
  · rw [decide?_right_iff (over_ofExactType (by simp [State.plainWorld]))
      (over_ofExactType (by simp [State.plainWorld])) describes_null_nullable
      describes_null_nullable hNullables]
    exact not_not_intro (.common (Or.inl rfl) loses_null_nullables (by decide +kernel))
  · have hLeft := admits_arrayOf (Or.inl rfl)
    have hRight := admits_arrayOf (Or.inr rfl)
    rw [decide?_right_iff (over_arrayOf (Or.inl rfl)) (over_arrayOf (Or.inr rfl)) hLeft.describes
      hRight.describes hArrays]
    exact not_not_intro (.test rfl (allows_of_admits hRight) splitsArrays_arrayOf)
  · have hLeft : null.Describes State.plainWorld .null :=
      describes_null.mpr (by decide)
    have hRight : notNull.Describes State.plainWorld (.object 0) := Or.inl notNull_admits
    refine (decide?_right_iff over_ofNullness over_ofNullness hLeft hRight hNull).mpr fun h => ?_
    cases ((misjudged_eq_iff (Or.inr rfl)).mp h).1

end Fact

end Pathwise
