import Pathwise.Proofs.Coherence

/-!
# Assuming a comparison

What assuming a comparison does to a valuation under which it holds: the comparison is
feasible, and the valuation is kept by the narrowed state.

An operand is narrowed together with all that is known to be equal to it. Where it is null,
the facts of all of them have to leave room for one object, its company, since two facts that
contradict each other in everything but null have no meet. There is one way around: if the
fact of one operand is `null` and no more, then `null` is what all of them are narrowed to.

## Results

* `kept_applyOpen`     — a comparison that the facts leave open, given its two narrowings.
* `kept_applySelf`     — a value compared with itself.
* `kept_applyRelation` — a comparison that holds is feasible and keeps the valuation.
-/

namespace Pathwise.State

variable {w : World} {a : Arena} {s t : State} {ρ : ValueId → Concrete} {rel : Relation}
  {u v m : ValueId} {x y : Concrete} {o : Nat} {company : ValueId → Nat}
  {narrowed exempt : ValueId → Prop}

-- ---------------------------------------------------------------------------
-- Operands
-- ---------------------------------------------------------------------------

/-- **An operand**: the value `v` stands for `x`, and so do the variables known to be equal
to it, which are narrowed with it. If they are null their company is the object `o`. -/
structure Operand (w : World) (a : Arena) (ρ : ValueId → Concrete) (company : ValueId → Nat)
    (narrowed : ValueId → Prop) (s : State) (o : Nat) (v : ValueId) (x : Concrete) : Prop where
  own     : a.isVariable v = true → ρ v = x
  keeps   : (s.fact a v).Keeps w o x
  ordered : Fact.Ordered w o x
  narrows : ∀ m ∈ s.equalClass v, a.isVariable v = true →
    narrowed m ∧ (x = .null → company m = o)

/-- **An operand that is null**, in no company. -/
structure NullOperand (w : World) (a : Arena) (ρ : ValueId → Concrete)
    (exempt : ValueId → Prop) (s : State) (v : ValueId) : Prop where
  own    : a.isVariable v = true → ρ v = .null
  admits : (s.fact a v).Admits w .null
  apart  : ∀ m ∈ s.equalClass v, a.isVariable v = true → ¬ exempt m

/-- An operand stays one while others are narrowed. -/
theorem Operand.of_kept (h : Operand w a ρ company narrowed s o v x)
    (hKept : Kept w a ρ company narrowed exempt t) (hLinks : t.links = s.links) :
    Operand w a ρ company narrowed t o v x := by
  have hClass : t.equalClass v = s.equalClass v := equalClass_congr hLinks
  refine ⟨h.own, ?_, h.ordered, by rw [hClass]; exact h.narrows⟩
  cases hVariable : a.isVariable v with
  | true =>
    obtain ⟨hNarrowed, hCompany⟩ := h.narrows v mem_equalClass_self hVariable
    have hKeeps := hKept.keeps hNarrowed
    rw [h.own hVariable] at hKeeps
    exact hKeeps.congr fun hNull => (hCompany hNull).symm
  | false =>
    have hKeeps := h.keeps
    rw [fact_of_not_variable hVariable] at hKeeps ⊢
    exact hKeeps

theorem NullOperand.of_kept (h : NullOperand w a ρ exempt s v)
    (hKept : Kept w a ρ company narrowed exempt t) (hLinks : t.links = s.links) :
    NullOperand w a ρ exempt t v := by
  have hClass : t.equalClass v = s.equalClass v := equalClass_congr hLinks
  refine ⟨h.own, ?_, by rw [hClass]; exact h.apart⟩
  cases hVariable : a.isVariable v with
  | true =>
    rw [← h.own hVariable]
    exact hKept.fits.admits hVariable (h.apart v mem_equalClass_self hVariable)
  | false =>
    have hAdmits := h.admits
    rw [fact_of_not_variable hVariable] at hAdmits ⊢
    exact hAdmits

-- ---------------------------------------------------------------------------
-- A comparison that the facts leave open
-- ---------------------------------------------------------------------------

theorem kept_addLink (hKept : Kept w a ρ company narrowed exempt s) (hu : a.isVariable u = true)
    (hv : a.isVariable v = true) (h : Concrete.Holds rel (ρ u) (ρ v)) :
    Kept w a ρ company narrowed exempt (s.addLink u rel v) := by
  refine ⟨coherent_addLink hKept.coherent hu hv, fits_addLink hKept.fits h, ?_⟩
  intro m hm
  rw [fact_congr facts_addLink]
  exact hKept.keeps hm

/-- **A comparison that the facts leave open**: first the left operand is narrowed, then the
right one by what has become of it, and then the relation is recorded. -/
theorem kept_applyOpen {r : Relation} {f g : Fact} (hFlipped : rel.flipped? = some r)
    (hf : (s.fact a u).narrow rel (s.fact a v) = f)
    (hg : (s.fact a v).narrow r ((s.meetFact a u f).state.fact a u) = g)
    (hLinks : ∀ l ∈ s.links, Concrete.Holds l.rel (ρ l.left) (ρ l.right))
    (hHolds : a.isVariable u = true → a.isVariable v = true → Concrete.Holds rel (ρ u) (ρ v))
    (hLeft : (s.meetFact a u f).feasible = true)
    (hRight : ((s.meetFact a u f).state.meetFact a v g).feasible = true ∧
      Kept w a ρ company narrowed exempt ((s.meetFact a u f).state.meetFact a v g).state) :
    (s.applyOpen a u rel v).feasible = true ∧
      Kept w a ρ company narrowed exempt (s.applyOpen a u rel v).state := by
  obtain ⟨hFeasible, hKept⟩ := hRight
  have hContradicts : (a.isVariable u && a.isVariable v && !rel.isTypeTest &&
      s.contradictsLink u rel v) = false := by
    cases hVariables : a.isVariable u && a.isVariable v with
    | false => rfl
    | true =>
      obtain ⟨hu, hv⟩ := (Bool.and_eq_true _ _).mp hVariables
      rw [contradictsLink_eq_false hLinks (hHolds hu hv), Bool.and_false]
  unfold applyOpen
  simp only [hContradicts, hf, hg, hLeft, hFlipped, Bool.false_eq_true, if_false, Bool.not_true,
    hFeasible, Bool.true_and]
  split
  · -- between two variables the relation is recorded
    rename_i hLinked
    obtain ⟨hu, hv⟩ := (Bool.and_eq_true _ _).mp ((Bool.and_eq_true _ _).mp hLinked).1
    exact ⟨rfl, kept_addLink hKept hu hv (hHolds hu hv)⟩
  · exact ⟨hFeasible, hKept⟩

/-- The variables among two operands are in the relation. -/
theorem holds_of_own (hHolds : Concrete.Holds rel x y) (hu : a.isVariable u = true → ρ u = x)
    (hv : a.isVariable v = true → ρ v = y) (hLeft : a.isVariable u = true)
    (hRight : a.isVariable v = true) : Concrete.Holds rel (ρ u) (ρ v) := by
  rw [hu hLeft, hv hRight]
  exact hHolds

/-- A comparison of two operands in company. -/
theorem kept_applyOpen_operands (hArena : a.Coherent w.types)
    (hScope : Scope w a ρ company narrowed exempt) (hKept : Kept w a ρ company narrowed exempt s)
    (hu : Operand w a ρ company narrowed s o u x) (hv : Operand w a ρ company narrowed s o v y)
    (hHolds : Concrete.Holds rel x y) (hLeft : s.fact a u ≠ .double .nan)
    (hRight : s.fact a v ≠ .double .nan) :
    (s.applyOpen a u rel v).feasible = true ∧
      Kept w a ρ company narrowed exempt (s.applyOpen a u rel v).state := by
  have hCompares := Concrete.not_isTypeTest_of_holds hHolds
  obtain ⟨r, hr⟩ : ∃ r, rel.flipped? = some r := by
    cases rel with
    | instanceOf | notInstanceOf => cases hCompares
    | _ => exact ⟨_, rfl⟩
  have hOver : ∀ {v}, (s.fact a v).Over w.types := over_fact hArena hKept.coherent
  obtain ⟨hFeasible, hNext⟩ := kept_meetFact hArena hScope hKept
    (Fact.over_narrow hOver hOver) hu.ordered hu.keeps
    (Fact.keeps_narrow hOver hOver hu.ordered hu.keeps hv.keeps hHolds hLeft) hu.own hu.narrows
  refine kept_applyOpen hr rfl rfl hKept.fits.links (holds_of_own hHolds hu.own hv.own) hFeasible ?_
  have hu' := hu.of_kept hNext links_meetFact
  have hv' := hv.of_kept hNext links_meetFact
  have hOver' : ((s.meetFact a u ((s.fact a u).narrow rel (s.fact a v))).state.fact a u).Over
      w.types := over_fact hArena hNext.coherent
  exact kept_meetFact hArena hScope hNext (Fact.over_narrow hOver hOver') hv.ordered hv'.keeps
    (Fact.keeps_narrow hOver hOver' hv.ordered hv.keeps hu'.keeps
      (Concrete.holds_flipped hr hHolds) hRight) hv.own hv'.narrows

/-- A comparison of null with null, where one is known to be null. -/
theorem kept_applyOpen_nulls (hArena : a.Coherent w.types)
    (hScope : Scope w a ρ company narrowed exempt) (hKept : Kept w a ρ company narrowed exempt s)
    (hu : NullOperand w a ρ exempt s u) (hv : NullOperand w a ρ exempt s v)
    (hNull : s.fact a u = .null ∨ s.fact a v = .null) :
    (s.applyOpen a u .eq v).feasible = true ∧
      Kept w a ρ company narrowed exempt (s.applyOpen a u .eq v).state := by
  have hMeet : (s.fact a u).narrow .eq (s.fact a v) = .null := by
    show (s.fact a u).meet (s.fact a v) = .null
    rcases hNull with hNull | hNull
    · rw [hNull, Fact.null_meet hv.admits]
    · rw [hNull, Fact.meet_null hu.admits]
  have hHolds : Concrete.Holds .eq .null .null := rfl
  obtain ⟨hFeasible, hNext, hStays⟩ :=
    kept_meetNull hArena hScope hKept hu.admits hu.own hu.apart
  have hu' := hu.of_kept hNext links_meetFact
  have hv' := hv.of_kept hNext links_meetFact
  have hAgain : (s.fact a v).narrow .eq ((s.meetFact a u .null).state.fact a u) = .null := by
    show (s.fact a v).meet _ = .null
    rcases hNull with hNull | hNull
    · rw [hStays hNull, Fact.meet_null hv.admits]
    · rw [hNull, Fact.null_meet hu'.admits]
  obtain ⟨hFeasible', hLast, -⟩ := kept_meetNull hArena hScope hNext hv'.admits hv.own hv'.apart
  exact kept_applyOpen rfl hMeet hAgain hKept.fits.links (holds_of_own hHolds hu.own hv.own)
    hFeasible ⟨hFeasible', hLast⟩

/-- What differs from null is narrowed to the objects. -/
theorem kept_meet_notNull {p : Nat} {f : Fact} (hArena : a.Coherent w.types)
    (hScope : Scope w a ρ company narrowed exempt) (hKept : Kept w a ρ company narrowed exempt s)
    (hv : Operand w a ρ company narrowed s o v (.object p)) (hf : f.Over w.types)
    (hfx : f.Keeps w o (.object p)) :
    (s.meetFact a v (f.meet .notNull)).feasible = true ∧
      Kept w a ρ company narrowed exempt (s.meetFact a v (f.meet .notNull)).state := by
  have hNotNull : Fact.notNull.Keeps w o (.object p) :=
    Fact.keeps_of_admits nofun Fact.notNull_admits
  exact kept_meetFact hArena hScope hKept (Fact.over_meet hf Fact.over_ofNullness) hv.ordered
    hv.keeps (Fact.keeps_meet hf Fact.over_ofNullness hv.ordered hfx hNotNull) hv.own hv.narrows

/-- An object does not exclude null. -/
theorem narrowNe_of_object {f : Fact} {p : Nat} (hf : f.Admits w (.object p)) :
    Fact.null.narrowNe f = .null := by
  rcases Fact.admits_object_iff.mp hf with rfl | ⟨r, al, sl, rfl, hr, -⟩
  · rfl
  · have hNe : Fact.null ≠ .ref r al sl := by
      intro hEq
      have hNullness : (Fact.ref r al sl).nullness = .null := by rw [← hEq]; rfl
      exact hr.notNull hNullness
    unfold Fact.narrowNe
    split
    · rfl
    · exact if_neg hr.notNull

/-- A comparison of what is known to be null with an object. -/
theorem kept_applyOpen_null_left {p : Nat} (hArena : a.Coherent w.types)
    (hScope : Scope w a ρ company narrowed exempt) (hKept : Kept w a ρ company narrowed exempt s)
    (hu : NullOperand w a ρ exempt s u)
    (hv : Operand w a ρ company narrowed s o v (.object p)) (hNull : s.fact a u = .null) :
    (s.applyOpen a u .ne v).feasible = true ∧
      Kept w a ρ company narrowed exempt (s.applyOpen a u .ne v).state := by
  have hNarrow : (s.fact a u).narrow .ne (s.fact a v) = .null := by
    rw [hNull]
    exact narrowNe_of_object hv.keeps.admits
  have hHolds : Concrete.Holds .ne .null (.object p) := rfl
  obtain ⟨hFeasible, hNext, hStays⟩ :=
    kept_meetNull hArena hScope hKept hu.admits hu.own hu.apart
  have hNarrow' : (s.fact a v).narrow .ne ((s.meetFact a u .null).state.fact a u) =
      (s.fact a v).meet .notNull := by
    rw [hStays hNull]
    rfl
  exact kept_applyOpen rfl hNarrow hNarrow' hKept.fits.links (holds_of_own hHolds hu.own hv.own)
    hFeasible (kept_meet_notNull hArena hScope hNext (hv.of_kept hNext links_meetFact)
      (over_fact hArena hKept.coherent) hv.keeps)

/-- A comparison of an object with what is known to be null. -/
theorem kept_applyOpen_null_right {p : Nat} (hArena : a.Coherent w.types)
    (hScope : Scope w a ρ company narrowed exempt) (hKept : Kept w a ρ company narrowed exempt s)
    (hu : Operand w a ρ company narrowed s o u (.object p))
    (hv : NullOperand w a ρ exempt s v) (hNull : s.fact a v = .null) :
    (s.applyOpen a u .ne v).feasible = true ∧
      Kept w a ρ company narrowed exempt (s.applyOpen a u .ne v).state := by
  have hHolds : Concrete.Holds .ne (.object p) .null := rfl
  have hNarrow : (s.fact a u).narrow .ne (s.fact a v) = (s.fact a u).meet .notNull := by
    rw [hNull]
    rfl
  obtain ⟨hFeasible, hNext⟩ := kept_meet_notNull hArena hScope hKept hu
    (over_fact hArena hKept.coherent) hu.keeps
  have hu' := hu.of_kept hNext links_meetFact
  have hv' := hv.of_kept hNext links_meetFact
  have hNarrow' : (s.fact a v).narrow .ne
      ((s.meetFact a u ((s.fact a u).meet .notNull)).state.fact a u) = .null := by
    rw [hNull]
    exact narrowNe_of_object hu'.keeps.admits
  obtain ⟨hFeasible', hLast, -⟩ := kept_meetNull hArena hScope hNext hv'.admits hv.own hv'.apart
  exact kept_applyOpen rfl hNarrow hNarrow' hKept.fits.links (holds_of_own hHolds hu.own hv.own)
    hFeasible ⟨hFeasible', hLast⟩

-- ---------------------------------------------------------------------------
-- Comparisons
-- ---------------------------------------------------------------------------

/-- **A comparison that holds** of two values. Two occurrences of a value are one value, and
not a NaN of which nothing is known. -/
structure Compares (a : Arena) (s : State) (u : ValueId) (x : Concrete) (rel : Relation)
    (v : ValueId) (y : Concrete) : Prop where
  holds : Concrete.Holds rel x y
  same  : u = v → x = y ∧ (x = .double none → s.fact a u ≠ .top)

/-- **A value compared with itself**: only a NaN differs from itself. -/
theorem kept_applySelf (hArena : a.Coherent w.types)
    (hScope : Scope w a ρ company narrowed exempt) (hKept : Kept w a ρ company narrowed exempt s)
    (hu : Operand w a ρ company narrowed s o u x) (h : Compares a s u x rel u y)
    (hNaN : s.fact a u ≠ .double .nan) :
    (s.applySelf a u rel).feasible = true ∧
      Kept w a ρ company narrowed exempt (s.applySelf a u rel).state := by
  obtain ⟨hHolds, hSame⟩ := h
  obtain ⟨rfl, hKnown⟩ := hSame rfl
  unfold applySelf
  split
  · rename_i hAny
    cases hRel : rel with
    | ne =>
      -- what differs from itself is a NaN
      obtain ⟨-, rfl⟩ := Concrete.eq_nan_of_holds_self hHolds (Or.inl hRel)
      have hNumber : DoubleFact.nan.Admits none := rfl
      exact kept_meetFact hArena hScope hKept (Fact.over_of_info rfl) hu.ordered hu.keeps
        (Fact.keeps_of_admits nofun (Fact.admits_double.mpr hNumber)) hu.own hu.narrows
    | lt =>
      obtain ⟨hNe, -⟩ := Concrete.eq_nan_of_holds_self hHolds (Or.inr (Or.inl hRel))
      rw [hRel] at hNe
      cases hNe
    | gt =>
      obtain ⟨hNe, -⟩ := Concrete.eq_nan_of_holds_self hHolds (Or.inr (Or.inr hRel))
      rw [hRel] at hNe
      cases hNe
    | _ => exact ⟨rfl, hKept⟩
  · rename_i hAny
    refine ⟨?_, hKept⟩
    -- only a NaN fails to be equal to itself, and the fact leaves no NaN
    by_contra hOutcome
    have hStrict : rel = .ne ∨ rel = .lt ∨ rel = .gt := by
      have hCompares := Concrete.not_isTypeTest_of_holds hHolds
      cases rel <;> simp_all [Relation.isTypeTest]
    obtain ⟨-, rfl⟩ := Concrete.eq_nan_of_holds_self hHolds hStrict
    rcases Fact.admits_double_iff.mp hu.keeps.admits with hTop | ⟨d, hd, hAdmits⟩
    · exact hKnown rfl hTop
    · cases d with
      | any => exact hAny hd
      | nan => exact hNaN hd
      | const c => cases hAdmits

/-- **How two operands are narrowed**: in company, or because one is known to be null. -/
inductive Operands (w : World) (a : Arena) (ρ : ValueId → Concrete) (company : ValueId → Nat)
    (narrowed exempt : ValueId → Prop) (s : State) (u : ValueId) (x : Concrete) (v : ValueId)
    (y : Concrete) : Prop where
  | company (o : Nat) : Operand w a ρ company narrowed s o u x →
      Operand w a ρ company narrowed s o v y → Operands w a ρ company narrowed exempt s u x v y
  | nulls : x = .null → y = .null → NullOperand w a ρ exempt s u → NullOperand w a ρ exempt s v →
      s.fact a u = .null ∨ s.fact a v = .null → Operands w a ρ company narrowed exempt s u x v y
  | left (o p : Nat) : x = .null → y = .object p → NullOperand w a ρ exempt s u →
      Operand w a ρ company narrowed s o v y → s.fact a u = .null →
      Operands w a ρ company narrowed exempt s u x v y
  | right (o p : Nat) : x = .object p → y = .null → Operand w a ρ company narrowed s o u x →
      NullOperand w a ρ exempt s v → s.fact a v = .null →
      Operands w a ρ company narrowed exempt s u x v y

namespace Operands

/-- **Where null is known**, only objects are narrowed with others. -/
theorem of_known (hKnown : s.fact a u = .null ∨ s.fact a v = .null)
    (hHolds : Concrete.Holds rel x y) (hux : (s.fact a u).Admits w x)
    (hvy : (s.fact a v).Admits w y) (hu : x = .null → NullOperand w a ρ exempt s u)
    (hv : y = .null → NullOperand w a ρ exempt s v)
    (huObject : ∀ p, x = .object p → ∃ o, Operand w a ρ company narrowed s o u x)
    (hvObject : ∀ p, y = .object p → ∃ o, Operand w a ρ company narrowed s o v y) :
    Operands w a ρ company narrowed exempt s u x v y := by
  have hNull : ∀ {f : Fact} {z : Concrete}, f = .null → f.Admits w z → z = .null := by
    rintro f z rfl hz
    exact Fact.eq_null_of_isNull rfl hz
  rcases hKnown with hKnown | hKnown
  · have hx := hNull hKnown hux
    subst hx
    rcases Concrete.holds_null_left hHolds with ⟨rfl, -⟩ | ⟨-, p, rfl⟩
    · exact .nulls rfl rfl (hu rfl) (hv rfl) (Or.inl hKnown)
    · obtain ⟨o, ho⟩ := hvObject p rfl
      exact .left o p rfl rfl (hu rfl) ho hKnown
  · have hy := hNull hKnown hvy
    subst hy
    rcases Concrete.holds_null_right hHolds with ⟨rfl, -⟩ | ⟨-, p, rfl⟩
    · exact .nulls rfl rfl (hu rfl) (hv rfl) (Or.inr hKnown)
    · obtain ⟨o, ho⟩ := huObject p rfl
      exact .right o p rfl rfl ho (hv rfl) hKnown

variable (h : Operands w a ρ company narrowed exempt s u x v y)
include h

theorem admits : (s.fact a u).Admits w x ∧ (s.fact a v).Admits w y := by
  cases h with
  | company o hu hv => exact ⟨hu.keeps.admits, hv.keeps.admits⟩
  | nulls hx hy hu hv => exact ⟨hx ▸ hu.admits, hy ▸ hv.admits⟩
  | left o p hx hy hu hv => exact ⟨hx ▸ hu.admits, hv.keeps.admits⟩
  | right o p hx hy hu hv => exact ⟨hu.keeps.admits, hy ▸ hv.admits⟩

/-- The facts have the values in common that the operands have. -/
theorem disjoint_eq_false (hArena : a.Coherent w.types) (hState : s.Coherent w.types a)
    (hSame : x = y) : (s.fact a u).disjoint (s.fact a v) = false := by
  cases h with
  | company o hu hv =>
    subst hSame
    exact Fact.disjoint_eq_false (over_fact hArena hState) (over_fact hArena hState) hu.ordered
      hu.keeps hv.keeps
  | nulls hx hy hu hv hNull =>
    have hMeet : (s.fact a u).meet (s.fact a v) = .null := by
      rcases hNull with hNull | hNull
      · rw [hNull, Fact.null_meet hv.admits]
      · rw [hNull, Fact.meet_null hu.admits]
    rw [Fact.disjoint, hMeet]
    exact Bool.and_false _
  | left o p hx hy =>
    rw [hx, hy] at hSame
    cases hSame
  | right o p hx hy =>
    rw [hx, hy] at hSame
    cases hSame

end Operands

/-- **A comparison that holds** is feasible and keeps the valuation. -/
theorem kept_applyRelation (hArena : a.Coherent w.types)
    (hScope : Scope w a ρ company narrowed exempt) (hKept : Kept w a ρ company narrowed exempt s)
    (hOperands : Operands w a ρ company narrowed exempt s u x v y)
    (h : Compares a s u x rel v y) :
    (s.applyRelation a u rel v).feasible = true ∧
      Kept w a ρ company narrowed exempt (s.applyRelation a u rel v).state := by
  have hCompares := Concrete.not_isTypeTest_of_holds h.holds
  obtain ⟨hu, hv⟩ := hOperands.admits
  unfold applyRelation
  simp only [Fact.isBottom_of_admits hu, Fact.isBottom_of_admits hv, hCompares, Bool.or_false,
    Bool.false_eq_true, if_false, Bool.not_false, Bool.and_true]
  split
  · -- one of the operands is a NaN, so the relation is `ne`
    rename_i hNaN
    refine ⟨?_, hKept⟩
    rw [beq_iff_eq]
    refine Concrete.eq_ne_of_holds_nan h.holds ?_
    have hValue : ∀ {f : Fact} {z : Concrete}, f = .double .nan → f.Admits w z →
        z = .double none := by
      rintro f z rfl ⟨d, rfl, rfl⟩
      rfl
    simp only [Bool.or_eq_true, decide_eq_true_eq] at hNaN
    exact hNaN.imp (hValue · hu) (hValue · hv)
  · rename_i hNaN
    simp only [Bool.or_eq_true, decide_eq_true_eq, not_or] at hNaN
    split
    · rename_i hSame
      have hSame : u = v := by simpa using hSame
      subst hSame
      obtain ⟨rfl, -⟩ := h.same rfl
      cases hOperands with
      | company o hu => exact kept_applySelf hArena hScope hKept hu h hNaN.1
      | nulls hx _ _ _ hNull =>
        subst hx
        have hRel : rel = .eq := h.holds
        subst hRel
        have hNull : s.fact a u = .null := hNull.elim id id
        have hNumber : s.fact a u ≠ .double .any := by
          rw [hNull]
          nofun
        unfold applySelf
        rw [if_neg hNumber]
        exact ⟨rfl, hKept⟩
      | left o p hx hy => cases hx.symm.trans hy
      | right o p hx hy => cases hx.symm.trans hy
    · split
      · rename_i b hDecide
        exact ⟨Fact.eq_true_of_decide?_of_admits
          (hOperands.disjoint_eq_false hArena hKept.coherent) hu hv h.holds hDecide, hKept⟩
      · have hHolds := h.holds
        cases hOperands with
        | company o hLeft hRight =>
          exact kept_applyOpen_operands hArena hScope hKept hLeft hRight hHolds hNaN.1 hNaN.2
        | nulls hx hy hLeft hRight hNull =>
          subst hx hy
          have hRel : rel = .eq := hHolds
          subst hRel
          exact kept_applyOpen_nulls hArena hScope hKept hLeft hRight hNull
        | left o p hx hy hLeft hRight hNull =>
          subst hx hy
          have hRel : rel = .ne := hHolds
          subst hRel
          exact kept_applyOpen_null_left hArena hScope hKept hLeft hRight hNull
        | right o p hx hy hLeft hRight hNull =>
          subst hx hy
          have hRel : rel = .ne := hHolds
          subst hRel
          exact kept_applyOpen_null_right hArena hScope hKept hLeft hRight hNull

/-- **A condition is the relation**, unless it is between values that are no variables, whose facts are
the same in every state, and is decided by them. -/
theorem condition_cases (s : State) (a : Arena) (u : ValueId) (rel : Relation) (v : ValueId) :
    Condition.of a u rel v = .relation u rel v ∨
      (a.isVariable u = false ∧ a.isVariable v = false) ∧
        ∃ b, Fact.decide? rel (s.fact a u) (s.fact a v) = some b ∧
          Condition.of a u rel v = .ofBool b := by
  unfold Condition.of
  split
  · exact Or.inl rfl
  · rename_i hNone
    obtain ⟨hu, hv⟩ := Bool.or_eq_false_iff.mp (Bool.eq_false_iff.mpr hNone)
    split
    · rename_i b hDecide
      rw [fact_of_not_variable hu, fact_of_not_variable hv]
      exact Or.inr ⟨⟨hu, hv⟩, b, hDecide, rfl⟩
    · exact Or.inl rfl

/-- **A condition that holds**, also if it was decided when it was made. -/
theorem kept_apply_of (hArena : a.Coherent w.types)
    (hScope : Scope w a ρ company narrowed exempt) (hKept : Kept w a ρ company narrowed exempt s)
    (hOperands : Operands w a ρ company narrowed exempt s u x v y)
    (h : Compares a s u x rel v y) :
    (s.apply a (.of a u rel v)).feasible = true ∧
      Kept w a ρ company narrowed exempt (s.apply a (.of a u rel v)).state := by
  obtain ⟨hu, hv⟩ := hOperands.admits
  rcases condition_cases s a u rel v with hOf | ⟨-, b, hDecide, hOf⟩
  · rw [hOf]
    exact kept_applyRelation hArena hScope hKept hOperands h
  · rw [hOf, Fact.eq_true_of_decide?_of_admits (hOperands.disjoint_eq_false hArena hKept.coherent)
      hu hv h.holds hDecide]
    exact ⟨rfl, hKept⟩

/-- **A condition that fails**: its negation holds. -/
theorem kept_apply_negated (hArena : a.Coherent w.types)
    (hScope : Scope w a ρ company narrowed exempt) (hKept : Kept w a ρ company narrowed exempt s)
    (hOperands : Operands w a ρ company narrowed exempt s u x v y)
    (h : Compares a s u x rel.negated v y) :
    (s.apply a (Condition.of a u rel v).negated).feasible = true ∧
      Kept w a ρ company narrowed exempt (s.apply a (Condition.of a u rel v).negated).state := by
  obtain ⟨hu, hv⟩ := hOperands.admits
  rcases condition_cases s a u rel v with hOf | ⟨-, b, hDecide, hOf⟩
  · rw [hOf]
    exact kept_applyRelation hArena hScope hKept hOperands h
  · rw [hOf, Fact.eq_false_of_decide?_of_admits (hOperands.disjoint_eq_false hArena hKept.coherent)
      hu hv h.holds hDecide]
    exact ⟨rfl, hKept⟩

-- ---------------------------------------------------------------------------
-- Recorded relations
-- ---------------------------------------------------------------------------

/-- The link is one between the two values. -/
def Relates (l : Link) (u v : ValueId) : Prop :=
  l.left = u ∧ l.right = v ∨ l.left = v ∧ l.right = u

theorem mem_links_applyOpen {l : Link} (hl : l ∈ (s.applyOpen a u rel v).state.links) :
    l ∈ s.links ∨ a.isVariable u = true ∧ a.isVariable v = true ∧ Relates l u v := by
  -- narrowing records nothing, and the relation is recorded between variables only
  have hRecorded : ∀ {n : Narrowing}, n.state.links = s.links →
      l ∈ (if (n.feasible && (a.isVariable u && a.isVariable v && !rel.isTypeTest)) = true then
        (⟨true, n.state.addLink u rel v⟩ : Narrowing) else n).state.links →
      l ∈ s.links ∨ a.isVariable u = true ∧ a.isVariable v = true ∧ Relates l u v := by
    intro n hn hl
    split at hl
    · rename_i hLinked
      simp only [Bool.and_eq_true] at hLinked
      rcases mem_addLink hl with hl | rfl | ⟨r, -, rfl⟩
      · exact Or.inl (hn ▸ hl)
      · exact Or.inr ⟨hLinked.2.1.1, hLinked.2.1.2, Or.inl ⟨rfl, rfl⟩⟩
      · exact Or.inr ⟨hLinked.2.1.1, hLinked.2.1.2, Or.inr ⟨rfl, rfl⟩⟩
    · exact Or.inl (hn ▸ hl)
  unfold applyOpen at hl
  dsimp only at hl
  split at hl
  · exact Or.inl hl
  · split at hl
    · exact Or.inl (links_meetFact ▸ hl)
    · split at hl
      · exact hRecorded (links_meetFact.trans links_meetFact) hl
      · exact hRecorded links_meetFact hl

/-- **What assuming a relation records** relates its operands, which are variables. -/
theorem mem_links_applyRelation {l : Link} (hl : l ∈ (s.applyRelation a u rel v).state.links) :
    l ∈ s.links ∨ a.isVariable u = true ∧ a.isVariable v = true ∧ Relates l u v := by
  unfold applyRelation at hl
  dsimp only at hl
  split at hl
  · exact Or.inl hl
  · split at hl
    · exact Or.inl hl
    · split at hl
      · unfold applySelf at hl
        split at hl
        · split at hl
          · exact Or.inl (links_meetFact ▸ hl)
          all_goals exact Or.inl hl
        · exact Or.inl hl
      · split at hl
        · exact Or.inl hl
        · exact mem_links_applyOpen hl

end Pathwise.State
