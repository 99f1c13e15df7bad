import Pathwise.Proofs.Feasibility
import Pathwise.Proofs.Growth
import Pathwise.Proofs.Steps

/-!
# Contracts split the cases of a call

Each condition of a contract splits a state in two: one in which it holds, and one in which its
negation does. A valuation that satisfies the state goes with one of them, provided that of the
two the one or the other holds of its values. An order has no such alternative where a NaN is
compared: both are false.

A valuation is followed through the whole expansion. Which variables may be narrowed on the
way, and what the company of those is that are null, is chosen once for all (`Companions`): the
choice has to go along with recorded equalities, also with those that the conditions add.

## Results

* `Companions`, `Alive`        — a choice of variables, and a state that keeps the valuation.
* `Alive.apply`                — a condition that holds, or the negation of one, keeps it.
* `expand_covers`              — the expansion of the contracts of a call covers all cases.
* `expand_loses_nan`           — a NaN that is compared in an order is lost.
-/

namespace Pathwise.Step

variable {w : World} {H : Hierarchy} {a b : Arena} {ρ : ValueId → Concrete}
  {narrowed : ValueId → Prop} {company : ValueId → Nat} {s t : State} {u v m : ValueId}
  {x y : Concrete} {rel : Relation} {p : Nat}

-- ---------------------------------------------------------------------------
-- The variables that are narrowed
-- ---------------------------------------------------------------------------

/-- The lengths of null among the variables. -/
def NullLength (a : Arena) (ρ : ValueId → Concrete) (narrowed : ValueId → Prop) (m : ValueId) :
    Prop :=
  ∃ l q, narrowed q ∧ ρ q = .null ∧ a.LengthOf l q m

/-- **A choice of variables that may be narrowed**, each one that is null with an object of its
own that could be in its place. Variables known to be equal are chosen together. -/
structure Companions (w : World) (a : Arena) (s : State) (ρ : ValueId → Concrete)
    (narrowed : ValueId → Prop) (company : ValueId → Nat) : Prop where
  isVar     : ∀ {m}, narrowed m → a.isVariable m = true
  ordered   : ∀ {m}, narrowed m → Fact.Ordered w (company m) (ρ m)
  apart     : ∀ {m}, narrowed m → ¬ NullLength a ρ narrowed m
  room      : ∀ {m}, narrowed m → ρ m = .null →
    (s.fact a m).isNull = true ∨ (s.fact a m).Admits w (.object (company m))
  linked    : ∀ l ∈ s.links, l.rel = .eq → (narrowed l.left ↔ narrowed l.right) ∧
    (narrowed l.left → ρ l.left = .null → company l.left = company l.right)

/-- **A state that keeps the valuation**, in an arena `b` that has grown from `a`. -/
structure Alive (w : World) (a b : Arena) (ρ : ValueId → Concrete) (narrowed : ValueId → Prop)
    (company : ValueId → Nat) (t : State) : Prop where
  kept   : State.Kept w b ρ company narrowed (NullLength a ρ narrowed) t
  linked : ∀ l ∈ t.links, l.rel = .eq → (narrowed l.left ↔ narrowed l.right) ∧
    (narrowed l.left → ρ l.left = .null → company l.left = company l.right)

/-- An operand of a condition: what it stands for, and that it may be narrowed unless it is
null. -/
structure Stands (w : World) (a : Arena) (ρ : ValueId → Concrete) (narrowed : ValueId → Prop)
    (v : ValueId) (x : Concrete) : Prop where
  lt_size : v < a.size
  denotes : State.Denotes w a ρ v x
  narrows : a.isVariable v = true → x ≠ .null → narrowed v

/-- The object `p` could be in the place of an operand that is null. -/
structure Accompanied (w : World) (a : Arena) (narrowed : ValueId → Prop)
    (company : ValueId → Nat) (p : Nat) (v : ValueId) : Prop where
  own   : a.isVariable v = true → narrowed v ∧ company v = p
  other : a.isVariable v = false →
    (a.inherent v).isNull = true ∨ (a.inherent v).Admits w (.object p)

theorem Companions.scope (h : Companions w a s ρ narrowed company) (hGrows : a.Grows b) :
    State.Scope w b ρ company narrowed (NullLength a ρ narrowed) :=
  ⟨h.ordered, h.apart, fun hq hNull hLength => ⟨_, _, hq, hNull, hGrows.lengthOf.mp hLength⟩⟩

/-- The length of null that a valuation gives is an integer. -/
theorem NullLength.ne_null (hArena : a.Coherent w.types) (hρ : s.Satisfies w a ρ)
    (h : NullLength a ρ narrowed m) : ρ m ≠ .null := by
  obtain ⟨l, q, -, -, hLength⟩ := h
  obtain ⟨n, hn, hInt⟩ :=
    (State.integral_fact hArena hLength).exists_int (hρ.admits hLength.isVariable nofun)
  rw [hInt]
  nofun

/-- The state at the start keeps the valuation. -/
theorem Companions.alive (h : Companions w a s ρ narrowed company)
    (hState : s.Coherent w.types a) (hρ : s.Satisfies w a ρ) :
    Alive w a a ρ narrowed company s :=
  ⟨⟨hState, hρ.mono nofun, fun hm => ⟨hρ.admits (h.isVar hm) nofun, h.room hm⟩⟩, h.linked⟩

/-- A state keeps the valuation while the arena grows. -/
theorem Alive.grows {c : Arena} (h : Alive w a b ρ narrowed company t)
    (hVariables : ∀ {m}, narrowed m → b.isVariable m = true) (hArena : b.Coherent w.types)
    (hGrows : b.Grows c) : Alive w a c ρ narrowed company t := by
  refine ⟨⟨State.coherent_grows hGrows h.kept.coherent,
    (State.fits_grows hArena hGrows).mpr h.kept.fits, ?_⟩, h.linked⟩
  intro m hm
  rw [State.fact_grows hArena hGrows (Arena.lt_of_isVariable (hVariables hm))]
  exact h.kept.keeps hm

theorem Stands.grows (h : Stands w a ρ narrowed v x) (hGrows : a.Grows b) :
    Stands w b ρ narrowed v x := by
  refine ⟨Nat.lt_of_lt_of_le h.lt_size hGrows.size, h.denotes.grows hGrows h.lt_size, ?_⟩
  rw [hGrows.isVariable]
  exact h.narrows

theorem Accompanied.grows (h : Accompanied w a narrowed company p v) (hv : v < a.size)
    (hGrows : a.Grows b) : Accompanied w b narrowed company p v := by
  constructor
  · rw [hGrows.isVariable]
    exact h.own
  · rw [hGrows.isVariable, hGrows.inherent hv]
    exact h.other

-- ---------------------------------------------------------------------------
-- One condition
-- ---------------------------------------------------------------------------

section

variable (hAlive : Alive w a b ρ narrowed company t)
include hAlive

/-- What is known to be equal to a variable is narrowed with it. -/
theorem Alive.narrows_class (hu : narrowed u) (hm : m ∈ t.equalClass u) :
    narrowed m ∧ (ρ u = .null → company m = company u) := by
  refine (State.equalClass_induction (P := fun m => narrowed m ∧ ρ m = ρ u ∧
    (ρ u = .null → company m = company u)) ⟨hu, rfl, fun _ => rfl⟩ ?_ hm).imp_right And.right
  intro l hl hEq
  obtain ⟨hBoth, hSame⟩ := hAlive.linked l hl hEq
  have hHolds := hAlive.kept.fits.links l hl
  rw [hEq] at hHolds
  have hValues := Concrete.eq_of_holds hHolds
  constructor
  · rintro ⟨hLeft, hValue, hCompany⟩
    refine ⟨hBoth.mp hLeft, hValues.symm.trans hValue, fun hNull => ?_⟩
    rw [← hSame hLeft (hValue.trans hNull), hCompany hNull]
  · rintro ⟨hRight, hValue, hCompany⟩
    have hLeft := hBoth.mpr hRight
    refine ⟨hLeft, hValues.trans hValue, fun hNull => ?_⟩
    rw [hSame hLeft (hValues.trans (hValue.trans hNull)), hCompany hNull]

/-- The fact on an operand admits its value, unless it is a null that is not narrowed. -/
theorem Stands.admits (hu : Stands w b ρ narrowed u x) (hNull : x = .null →
    b.isVariable u = true → ¬ NullLength a ρ narrowed u)
    (hApart : ∀ {m}, narrowed m → ¬ NullLength a ρ narrowed m) : (t.fact b u).Admits w x := by
  cases hVariable : b.isVariable u with
  | false =>
    rw [State.fact_of_not_variable hVariable]
    exact hu.denotes.other hVariable
  | true =>
    rw [← hu.denotes.own hVariable]
    refine hAlive.kept.fits.admits hVariable ?_
    by_cases hx : x = .null
    · exact hNull hx hVariable
    · exact hApart (hu.narrows hVariable hx)

/-- An operand that is not null, or in company. -/
theorem Stands.operand (hu : Stands w b ρ narrowed u x)
    (hAdmits : (t.fact b u).Admits w x) (hOrdered : Fact.Ordered w p x)
    (hCompany : x = .null → Accompanied w b narrowed company p u) :
    State.Operand w b ρ company narrowed t p u x := by
  have hNarrowed : b.isVariable u = true → narrowed u ∧ (x = .null → company u = p) := by
    intro hVariable
    by_cases hx : x = .null
    · obtain ⟨hu, hp⟩ := (hCompany hx).own hVariable
      exact ⟨hu, fun _ => hp⟩
    · exact ⟨hu.narrows hVariable hx, fun h => absurd h hx⟩
  refine ⟨hu.denotes.own, ?_, hOrdered, ?_⟩
  · cases hVariable : b.isVariable u with
    | false =>
      rw [State.fact_of_not_variable hVariable] at hAdmits ⊢
      exact ⟨hAdmits, fun hx => (hCompany hx).other hVariable⟩
    | true =>
      obtain ⟨hu', hp⟩ := hNarrowed hVariable
      have hKeeps := hAlive.kept.keeps hu'
      rw [hu.denotes.own hVariable] at hKeeps
      exact hKeeps.congr fun hx => (hp hx).symm
  · intro m hm hVariable
    obtain ⟨hu', hp⟩ := hNarrowed hVariable
    obtain ⟨hm, hSame⟩ := hAlive.narrows_class hu' hm
    refine ⟨hm, fun hx => ?_⟩
    rw [hSame ((hu.denotes.own hVariable).trans hx), hp hx]

end

/-- **Two operands of a condition**: two occurrences of a value are one value and no NaN, and
where one is null that is known, or both are in company. -/
structure Pair (w : World) (a : Arena) (ρ : ValueId → Concrete) (narrowed : ValueId → Prop)
    (company : ValueId → Nat) (u : ValueId) (x : Concrete) (v : ValueId) (y : Concrete) : Prop where
  left    : Stands w a ρ narrowed u x
  right   : Stands w a ρ narrowed v y
  same    : u = v → x = y ∧ x ≠ .double none
  ordered : ∀ p, x = .object p ∨ y = .object p → w.Orders p
  company : a.get u ≠ .typed .null → a.get v ≠ .typed .null → ∃ p,
    (x = .null ∨ y = .null → w.Orders p) ∧ (x = .null → Accompanied w a narrowed company p u) ∧
      (y = .null → Accompanied w a narrowed company p v)

theorem fact_of_null (h : b.get v = .typed .null) : t.fact b v = .null := by
  have hNone : b.isVariable v = false :=
    Arena.isVariable_of_get_ne h (by simp)
  rw [State.fact_of_not_variable hNone, Arena.inherent, h]
  rfl

section

variable (hArena : a.Coherent w.types) (hρ : s.Satisfies w a ρ)
  (hChoice : Companions w a s ρ narrowed company) (hb : Arena.Extends w.types a b)
  (hAlive : Alive w a b ρ narrowed company t) (hPair : Pair w b ρ narrowed company u x v y)
include hArena hρ hChoice hAlive hPair

/-- How the operands of a condition are narrowed. -/
theorem Pair.operands (hHolds : Concrete.Holds rel x y) :
    State.Operands w b ρ company narrowed (NullLength a ρ narrowed) t u x v y := by
  obtain ⟨hu, hv, -, hOrdered, hCompany⟩ := hPair
  -- a variable that is null is no length
  have hNull : ∀ {m}, ρ m = .null → ¬ NullLength a ρ narrowed m := fun h hm =>
    hm.ne_null hArena hρ h
  have hux : (t.fact b u).Admits w x := hu.admits hAlive
    (fun hx hVariable => hNull ((hu.denotes.own hVariable).trans hx)) hChoice.apart
  have hvy : (t.fact b v).Admits w y := hv.admits hAlive
    (fun hy hVariable => hNull ((hv.denotes.own hVariable).trans hy)) hChoice.apart
  by_cases hKnown : b.get u = .typed .null ∨ b.get v = .typed .null
  · have hNullOperand : ∀ {m z}, Stands w b ρ narrowed m z → (t.fact b m).Admits w z → z = .null →
        State.NullOperand w b ρ (NullLength a ρ narrowed) t m := by
      rintro m z hm hAdmits rfl
      refine ⟨hm.denotes.own, hAdmits, fun n hn hVariable => hNull ?_⟩
      obtain ⟨-, hSame⟩ := State.of_mem_equalClass hAlive.kept.coherent hAlive.kept.fits.links
        hVariable hn
      exact hSame.trans (hm.denotes.own hVariable)
    have hObject : ∀ {m z p}, Stands w b ρ narrowed m z → (t.fact b m).Admits w z →
        z = .object p → w.Orders p → ∃ o, State.Operand w b ρ company narrowed t o m z := by
      rintro m z p hm hAdmits rfl hp
      refine ⟨p, hm.operand hAlive hAdmits ?_ nofun⟩
      rintro q (hq | ⟨hq, -⟩)
      · cases hq
        exact hp
      · cases hq
    exact .of_known (hKnown.imp fact_of_null fact_of_null) hHolds hux hvy (hNullOperand hu hux)
      (hNullOperand hv hvy) (fun p hp => hObject hu hux hp (hOrdered p (Or.inl hp)))
      (fun p hp => hObject hv hvy hp (hOrdered p (Or.inr hp)))
  · obtain ⟨p, hOrders, hLeft, hRight⟩ :=
      hCompany (fun h => hKnown (Or.inl h)) (fun h => hKnown (Or.inr h))
    refine .company p (hu.operand hAlive hux ?_ hLeft) (hv.operand hAlive hvy ?_ hRight)
    · rintro q (hq | ⟨hq, rfl⟩)
      · exact hOrdered q (Or.inl hq)
      · exact hOrders (Or.inl hq)
    · rintro q (hq | ⟨hq, rfl⟩)
      · exact hOrdered q (Or.inr hq)
      · exact hOrders (Or.inr hq)

include hb

/-- **A condition that holds keeps the valuation**, and so does the negation of one that does
not hold. -/
theorem Alive.apply {c : Condition} (hHolds : Concrete.Holds rel x y)
    (hc : c = .of b u rel v ∨
      ∃ r : Relation, r.negated = rel ∧ c = (Condition.of b u r v).negated) :
    (t.apply b c).feasible = true ∧ Alive w a b ρ narrowed company (t.apply b c).state := by
  have hOperands := hPair.operands hArena hρ hChoice hAlive hHolds
  have hScope := hChoice.scope hb.grows
  have hCompares : State.Compares b t u x rel v y :=
    ⟨hHolds, fun hSame => (hPair.same hSame).imp_right fun hNumber h => absurd h hNumber⟩
  have hKept : (t.apply b c).feasible = true ∧
      State.Kept w b ρ company narrowed (NullLength a ρ narrowed) (t.apply b c).state := by
    rcases hc with rfl | ⟨r, rfl, rfl⟩
    · exact State.kept_apply_of hb.coherent hScope hAlive.kept hOperands hCompares
    · exact State.kept_apply_negated hb.coherent hScope hAlive.kept hOperands hCompares
  refine ⟨hKept.1, hKept.2, ?_⟩
  -- variables that the condition makes equal have been chosen together
  have hBoth : b.isVariable u = true → b.isVariable v = true → ρ u = ρ v →
      (narrowed u ∧ narrowed v) ∧ (ρ u = .null → company u = company v) := by
    intro hu hv hEq
    have hx := hPair.left.denotes.own hu
    have hy := hPair.right.denotes.own hv
    by_cases hNull : ρ u = .null
    · have hVar : ∀ {m}, b.isVariable m = true → b.get m ≠ .typed .null := by
        intro m hm hEq
        obtain ⟨i, hi⟩ := Arena.isVariable_iff.mp hm
        cases hi.symm.trans hEq
      obtain ⟨p, -, hLeft, hRight⟩ := hPair.company (hVar hu) (hVar hv)
      obtain ⟨hu', hup⟩ := (hLeft (hx.symm.trans hNull)).own hu
      obtain ⟨hv', hvp⟩ := (hRight (hy.symm.trans (hEq.symm.trans hNull))).own hv
      exact ⟨⟨hu', hv'⟩, fun _ => hup.trans hvp.symm⟩
    · refine ⟨⟨hPair.left.narrows hu fun h => hNull (hx.trans h),
        hPair.right.narrows hv fun h => hNull (hEq.trans (hy.trans h))⟩, fun h => absurd h hNull⟩
  intro l hl hEq
  have hLinks : l ∈ t.links ∨ b.isVariable u = true ∧ b.isVariable v = true ∧
      State.Relates l u v := by
    rcases hc with rfl | ⟨r, rfl, rfl⟩
    all_goals
      unfold Condition.of at hl
      split at hl
      · exact State.mem_links_applyRelation hl
      · split at hl
        · rename_i d _
          cases d <;> exact Or.inl hl
        · exact State.mem_links_applyRelation hl
  rcases hLinks with hOld | ⟨hu, hv, hNew⟩
  · exact hAlive.linked l hOld hEq
  · have hHolds := hKept.2.fits.links l hl
    rw [hEq] at hHolds
    have hValues := Concrete.eq_of_holds hHolds
    rcases hNew with ⟨hLeft, hRight⟩ | ⟨hLeft, hRight⟩
    · rw [hLeft, hRight] at hValues ⊢
      obtain ⟨⟨hu', hv'⟩, hSame⟩ := hBoth hu hv hValues
      exact ⟨iff_of_true hu' hv', fun _ => hSame⟩
    · rw [hLeft, hRight] at hValues ⊢
      obtain ⟨⟨hu', hv'⟩, hSame⟩ := hBoth hu hv hValues.symm
      exact ⟨iff_of_true hv' hu', fun _ hNull => (hSame (hValues.symm.trans hNull)).symm⟩

end

-- ---------------------------------------------------------------------------
-- The conditions of a contract
-- ---------------------------------------------------------------------------

section

variable {args : CallArgs} {κ : Value → Concrete} {c : ContractCondition} {z : ContractValue}
  {σ : Session}

/-- The value of the arena that an operand of a contract is. -/
def symbol (args : CallArgs) (a : Arena) (z : ContractValue) : Value :=
  (z.resolve args a).2.get (z.resolve args a).1

theorem symbol_constant {f : Fact} : symbol args a (.constant f) = .typed f := Arena.get_typed

theorem extends_resolve (ha : a.Coherent H) (hz : ∀ f, z = .constant f → f.Over H) :
    Arena.Extends H a (z.resolve args a).2 := by
  cases z with
  | constant f => exact Arena.extends_typed ha (hz f rfl)
  | qualifier | arg i => exact .refl ha

/-- What a constant stands for, whatever the arena is. -/
theorem stands_typed {f : Fact} :
    Stands w (a.typed f).2 ρ narrowed (a.typed f).1 x ↔ f.Admits w x := by
  have hNone := Arena.isVariable_typed (a := a) (f := f)
  constructor
  · intro h
    have hAdmits := h.denotes.other hNone
    rw [Arena.inherent_typed] at hAdmits
    exact hAdmits
  · intro h
    refine ⟨Arena.lt_size_intern, .of_value hNone (by rw [Arena.inherent_typed]; exact h), ?_⟩
    intro hVariable
    rw [hNone] at hVariable
    cases hVariable

theorem accompanied_typed {f : Fact} :
    Accompanied w (a.typed f).2 narrowed company p (a.typed f).1 ↔
      f.isNull = true ∨ f.Admits w (.object p) := by
  have hNone := Arena.isVariable_typed (a := a) (f := f)
  constructor
  · intro h
    have hRoom := h.other hNone
    rw [Arena.inherent_typed] at hRoom
    exact hRoom
  · intro h
    refine ⟨fun hVariable => ?_, fun _ => by rw [Arena.inherent_typed]; exact h⟩
    rw [hNone] at hVariable
    cases hVariable

/-- **An operand of a contract** is the same in every arena that has grown. -/
theorem resolve_grows (hGrows : a.Grows b)
    (h : Stands w (z.resolve args a).2 ρ narrowed (z.resolve args a).1 x) :
    symbol args b z = symbol args a z ∧
      Stands w (z.resolve args b).2 ρ narrowed (z.resolve args b).1 x ∧
      ∀ (company : ValueId → Nat) (p : Nat),
        Accompanied w (z.resolve args a).2 narrowed company p (z.resolve args a).1 →
          Accompanied w (z.resolve args b).2 narrowed company p (z.resolve args b).1 := by
  cases z with
  | constant f =>
    refine ⟨Arena.get_typed.trans Arena.get_typed.symm, stands_typed.mpr (stands_typed.mp h), ?_⟩
    exact fun _ _ hp => accompanied_typed.mpr (accompanied_typed.mp hp)
  | qualifier | arg i =>
    exact ⟨hGrows.get h.lt_size, h.grows hGrows, fun _ _ hp => hp.grows h.lt_size hGrows⟩

/-- A condition of a contract holds of the values that its operands stand for. -/
def Applies (args : CallArgs) (a : Arena) (κ : Value → Concrete) (c : ContractCondition) : Prop :=
  Concrete.Holds c.rel (κ (symbol args a c.left)) (κ (symbol args a c.right))

/-- All conditions of a contract hold. -/
def Applicable (args : CallArgs) (a : Arena) (κ : Value → Concrete) (c : Contract) : Prop :=
  ∀ d ∈ c.conditions, Applies args a κ d

/-- **A condition that the values of a call judge**: it holds, or its negation does. The values
are those of variables, and admitted by the facts on everything else. Where one is null, it is
the other operand that is the null reference, or both have company. -/
structure Judged (w : World) (a : Arena) (ρ : ValueId → Concrete) (κ : Value → Concrete)
    (narrowed : ValueId → Prop) (company : ValueId → Nat) (args : CallArgs)
    (c : ContractCondition) : Prop where
  declared : ∀ f, c.left = .constant f ∨ c.right = .constant f → f.Over w.types
  left     : Stands w (c.left.resolve args a).2 ρ narrowed (c.left.resolve args a).1
    (κ (symbol args a c.left))
  right    : Stands w (c.right.resolve args a).2 ρ narrowed (c.right.resolve args a).1
    (κ (symbol args a c.right))
  outcome  : Applies args a κ c ∨
    Concrete.Holds c.rel.negated (κ (symbol args a c.left)) (κ (symbol args a c.right))
  number   : symbol args a c.left = symbol args a c.right →
    κ (symbol args a c.left) ≠ .double none
  ordered  : ∀ p, κ (symbol args a c.left) = .object p ∨ κ (symbol args a c.right) = .object p →
    w.Orders p
  company  : symbol args a c.left ≠ .typed .null → symbol args a c.right ≠ .typed .null → ∃ p,
    (κ (symbol args a c.left) = .null ∨ κ (symbol args a c.right) = .null → w.Orders p) ∧
    (κ (symbol args a c.left) = .null →
      Accompanied w (c.left.resolve args a).2 narrowed company p (c.left.resolve args a).1) ∧
    (κ (symbol args a c.right) = .null →
      Accompanied w (c.right.resolve args a).2 narrowed company p (c.right.resolve args a).1)

/-- The operands of a condition once they are in the arena. -/
theorem Judged.pair {d e : Arena} (h : Judged w a ρ κ narrowed company args c)
    (hb : Arena.Extends w.types a b) (hu : c.left.resolve args b = (u, d))
    (hv : c.right.resolve args d = (v, e)) :
    Arena.Extends w.types b e ∧ Pair w e ρ narrowed company u (κ (symbol args a c.left)) v
      (κ (symbol args a c.right)) := by
  have hLeft : Arena.Extends w.types b (c.left.resolve args b).2 :=
    extends_resolve hb.coherent fun f hf => h.declared f (Or.inl hf)
  rw [hu] at hLeft
  have hRight : Arena.Extends w.types d (c.right.resolve args d).2 :=
    extends_resolve hLeft.coherent fun f hf => h.declared f (Or.inr hf)
  rw [hv] at hRight
  obtain ⟨hSymbol, hStands, hAccompanied⟩ := resolve_grows hb.grows h.left
  obtain ⟨hSymbol', hStands', hAccompanied'⟩ := resolve_grows (hb.trans hLeft).grows h.right
  rw [symbol, hu] at hSymbol
  rw [symbol, hv] at hSymbol'
  rw [hu] at hStands hAccompanied
  rw [hv] at hStands' hAccompanied'
  have hGet : e.get u = symbol args a c.left := (hRight.grows.get hStands.lt_size).trans hSymbol
  refine ⟨hLeft.trans hRight, hStands.grows hRight.grows, hStands', ?_, h.ordered, ?_⟩
  · intro hSame
    have hSymbols : symbol args a c.left = symbol args a c.right := by
      rw [← hGet, hSame]
      exact hSymbol'
    exact ⟨congrArg κ hSymbols, h.number hSymbols⟩
  · intro hNotLeft hNotRight
    rw [hGet] at hNotLeft
    obtain ⟨p, hOrders, hl, hr⟩ := h.company hNotLeft fun h' => hNotRight (hSymbol'.trans h')
    exact ⟨p, hOrders,
      fun hx => (hAccompanied company p (hl hx)).grows hStands.lt_size hRight.grows,
      fun hy => hAccompanied' company p (hr hy)⟩

-- ---------------------------------------------------------------------------
-- The expansion
-- ---------------------------------------------------------------------------

/-- The call that is expanded: the state it starts from, and the choice of variables. -/
structure Called (w : World) (a : Arena) (s : State) (ρ : ValueId → Concrete)
    (narrowed : ValueId → Prop) (company : ValueId → Nat) : Prop where
  coherent  : a.Coherent w.types
  satisfied : s.Satisfies w a ρ
  choice    : Companions w a s ρ narrowed company

/-- A session in which values that are no variables have been asked for. -/
structure Interned (H : Hierarchy) (σ τ : Session) : Prop where
  arena : Arena.Extends H σ.arena τ.arena
  log   : τ.log = σ.log

theorem Interned.refl (h : σ.arena.Coherent H) : Interned H σ σ := ⟨.refl h, rfl⟩

theorem Interned.trans {τ υ : Session} (h : Interned H σ τ) (h' : Interned H τ υ) :
    Interned H σ υ :=
  ⟨h.arena.trans h'.arena, h'.log.trans h.log⟩

/-- Some of the states keeps the valuation. -/
def Lives (w : World) (a b : Arena) (ρ : ValueId → Concrete) (narrowed : ValueId → Prop)
    (company : ValueId → Nat) (ts : List State) : Prop :=
  ∃ t ∈ ts, Alive w a b ρ narrowed company t

section

variable (hCalled : Called w a s ρ narrowed company)
include hCalled

theorem Called.alive_grows {d : Arena} (hb : Arena.Extends w.types a b) (hd : b.Grows d)
    (h : Alive w a b ρ narrowed company t) : Alive w a d ρ narrowed company t := by
  refine h.grows (fun hm => ?_) hb.coherent hd
  rw [hb.grows.isVariable]
  exact hCalled.choice.isVar hm

/-- **One condition** keeps the valuation in the state in which it holds or in the other one. -/
theorem Called.outcomes {d e : Arena} (hJudged : Judged w a ρ κ narrowed company args c)
    (hb : Arena.Extends w.types a b) (hu : c.left.resolve args b = (u, d))
    (hv : c.right.resolve args d = (v, e)) (hAlive : Alive w a b ρ narrowed company t) :
    (Applies args a κ c → (t.apply e (.of e u c.rel v)).feasible = true ∧
      Alive w a e ρ narrowed company (t.apply e (.of e u c.rel v)).state) ∧
    (¬ Applies args a κ c → (t.apply e (Condition.of e u c.rel v).negated).feasible = true ∧
      Alive w a e ρ narrowed company (t.apply e (Condition.of e u c.rel v).negated).state) := by
  obtain ⟨hNext, hPair⟩ := hJudged.pair hb hu hv
  have hAlive' := hCalled.alive_grows hb hNext.grows hAlive
  constructor
  · intro hHolds
    exact hAlive'.apply hCalled.coherent hCalled.satisfied hCalled.choice (hb.trans hNext) hPair
      hHolds (Or.inl rfl)
  · intro hFails
    exact hAlive'.apply hCalled.coherent hCalled.satisfied hCalled.choice (hb.trans hNext) hPair
      (hJudged.outcome.resolve_left hFails) (Or.inr ⟨c.rel, rfl, rfl⟩)

/-- **The conditions of one contract**: if all hold the state that is left keeps the valuation,
and else one of those in which a condition fails. -/
theorem splits_splitByConditions (cs : List ContractCondition)
    (hJudged : ∀ c ∈ cs, Judged w a ρ κ narrowed company args c) {left : List State}
    (hb : Arena.Extends w.types a σ.arena) :
    Yields (splitByConditions args cs t left) σ fun r τ =>
      Interned w.types σ τ ∧ (∀ u ∈ left, u ∈ r.2) ∧
        (Alive w a σ.arena ρ narrowed company t →
          ((∀ c ∈ cs, Applies args a κ c) →
            ∃ u, r.1 = some u ∧ Alive w a τ.arena ρ narrowed company u) ∧
          (¬ (∀ c ∈ cs, Applies args a κ c) → Lives w a τ.arena ρ narrowed company r.2)) := by
  induction cs generalizing t left σ with
  | nil =>
    refine yields_pure.mpr ⟨.refl hb.coherent, fun _ => id, fun hAlive => ⟨?_, ?_⟩⟩
    · exact fun _ => ⟨t, rfl, hAlive⟩
    · exact fun h => absurd nofun h
  | cons c cs ih =>
    have hHead := hJudged c List.mem_cons_self
    have hRest : ∀ c ∈ cs, Judged w a ρ κ narrowed company args c := fun c hc =>
      hJudged c (List.mem_cons_of_mem _ hc)
    obtain ⟨u, d, hu⟩ : ∃ u d, c.left.resolve args σ.arena = (u, d) := ⟨_, _, rfl⟩
    obtain ⟨v, e, hv⟩ : ∃ v e, c.right.resolve args d = (v, e) := ⟨_, _, rfl⟩
    obtain ⟨hNext, -⟩ := hHead.pair hb hu hv
    have hOutcomes := fun hAlive : Alive w a σ.arena ρ narrowed company t =>
      hCalled.outcomes hHead hb hu hv hAlive
    unfold splitByConditions contractCondition
    simp only [yields_bind, yields_intern, yields_condition, yields_arena, hu, hv]
    generalize Condition.of e u c.rel v = cond at hOutcomes ⊢
    -- the state in which the condition fails is among those that are left
    generalize hLeft : (if ((t.apply e cond.negated).feasible &&
        !left.contains (t.apply e cond.negated).state) = true then
      left ++ [(t.apply e cond.negated).state] else left) = left'
    have hGrown : ∀ u ∈ left, u ∈ left' := by
      intro u hu
      rw [← hLeft]
      split
      · exact List.mem_append_left _ hu
      · exact hu
    have hFailing : (t.apply e cond.negated).feasible = true →
        (t.apply e cond.negated).state ∈ left' := by
      intro hFeasible
      rw [← hLeft, hFeasible, Bool.true_and]
      split
      · exact List.mem_append_right _ (List.mem_singleton.mpr rfl)
      · rename_i hContains
        simpa using hContains
    split
    · refine (ih hRest (hb.trans hNext)).mono ?_
      rintro r τ ⟨hLast, hStay, hSplit⟩
      refine ⟨⟨hNext.trans hLast.arena, hLast.log⟩, fun u hu => hStay u (hGrown u hu),
        fun hAlive => ⟨?_, ?_⟩⟩
      · intro hAll
        obtain ⟨hc, hcs⟩ := List.forall_mem_cons.mp hAll
        exact (hSplit ((hOutcomes hAlive).1 hc).2).1 hcs
      · intro hSome
        by_cases hc : Applies args a κ c
        · exact (hSplit ((hOutcomes hAlive).1 hc).2).2 fun hcs =>
            hSome (List.forall_mem_cons.mpr ⟨hc, hcs⟩)
        · obtain ⟨hFeasible, hFails⟩ := (hOutcomes hAlive).2 hc
          exact ⟨_, hStay _ (hFailing hFeasible),
            hCalled.alive_grows (hb.trans hNext) hLast.arena.grows hFails⟩
    · rename_i hInfeasible
      refine yields_pure.mpr ⟨⟨hNext, rfl⟩, hGrown, fun hAlive => ⟨?_, ?_⟩⟩
      · intro hAll
        exact absurd ((hOutcomes hAlive).1 (hAll c List.mem_cons_self)).1 hInfeasible
      · intro _
        have hc : ¬ Applies args a κ c := fun hc =>
          hInfeasible ((hOutcomes hAlive).1 hc).1
        obtain ⟨hFeasible, hFails⟩ := (hOutcomes hAlive).2 hc
        exact ⟨_, hFailing hFeasible, hFails⟩

end

/-- The value is what a contract returns in a call. -/
def Returns (args : CallArgs) (a : Arena) (v : ValueId) : ContractResult → Prop
  | .value f => v < a.size ∧ a.get v = .typed f
  | .qualifier => v = args.qualifier
  | .arg i => v = args.arg i
  | .fail => False

theorem Returns.grows {r : ContractResult} (h : Returns args a v r) (hGrows : a.Grows b) :
    Returns args b v r := by
  cases r with
  | value f => exact ⟨Nat.lt_of_lt_of_le h.1 hGrows.size, (hGrows.get h.1).trans h.2⟩
  | _ => exact h

/-- A state that keeps the valuation has been finished with the result of a contract. -/
def Finishes (w : World) (a b : Arena) (ρ : ValueId → Concrete) (narrowed : ValueId → Prop)
    (company : ValueId → Nat) (args : CallArgs) (r : ContractResult)
    (finished : List (State × ValueId)) : Prop :=
  ∃ f ∈ finished, Alive w a b ρ narrowed company f.1 ∧ Returns args b f.2 r

/-- Finishing a state. -/
theorem yields_finish {r : ContractResult} {finished : List (State × ValueId)}
    (hr : ∀ f, r = .value f → f.Over H) (hArena : σ.arena.Coherent H) :
    Yields (finish args r t finished) σ fun fs τ => Interned H σ τ ∧ (∀ f ∈ finished, f ∈ fs) ∧
        (r.isFail = false → ∃ v, (t, v) ∈ fs ∧ Returns args τ.arena v r) := by
  have hAdded : ∀ v, (∀ f ∈ finished, f ∈ finished ++ [(t, v)]) ∧ (t, v) ∈ finished ++ [(t, v)] :=
    fun v => ⟨fun f hf => List.mem_append_left _ hf,
      List.mem_append_right _ (List.mem_singleton.mpr rfl)⟩
  unfold finish contractResult?
  rw [yields_bind, yields_modifyGet]
  cases r with
  | fail => exact yields_pure.mpr ⟨.refl hArena, fun _ => id, nofun⟩
  | value f =>
    refine yields_pure.mpr ⟨⟨Arena.extends_typed hArena (hr f rfl), rfl⟩, (hAdded _).1,
      fun _ => ?_⟩
    exact ⟨_, (hAdded _).2, Arena.lt_size_intern, Arena.get_typed⟩
  | qualifier => exact yields_pure.mpr ⟨.refl hArena, (hAdded _).1, fun _ => ⟨_, (hAdded _).2, rfl⟩⟩
  | arg i => exact yields_pure.mpr ⟨.refl hArena, (hAdded _).1, fun _ => ⟨_, (hAdded _).2, rfl⟩⟩

section

variable (hCalled : Called w a s ρ narrowed company)
include hCalled

theorem Called.finishes_grows {d : Arena} {r : ContractResult}
    {finished finished' : List (State × ValueId)} (hb : Arena.Extends w.types a b)
    (hd : b.Grows d) (hMore : ∀ f ∈ finished, f ∈ finished')
    (h : Finishes w a b ρ narrowed company args r finished) :
    Finishes w a d ρ narrowed company args r finished' := by
  obtain ⟨f, hf, hAlive, hReturns⟩ := h
  exact ⟨f, hMore f hf, hCalled.alive_grows hb hd hAlive, hReturns.grows hd⟩

/-- **One contract**, applied to one state after the other. -/
theorem splits_applyContract (c : Contract)
    (hJudged : ∀ d ∈ c.conditions, Judged w a ρ κ narrowed company args d)
    (hResult : ∀ f, c.result = .value f → f.Over w.types) (ts : List State) {e : Expansion}
    (hb : Arena.Extends w.types a σ.arena) :
    Yields (applyContract args c ts e) σ fun e' τ =>
      Interned w.types σ τ ∧ (∀ f ∈ e.finished, f ∈ e'.finished) ∧ (∀ u ∈ e.live, u ∈ e'.live) ∧
        (Lives w a σ.arena ρ narrowed company ts →
          (Applicable args a κ c → c.result.isFail = false →
            Finishes w a τ.arena ρ narrowed company args c.result e'.finished) ∧
          (¬ Applicable args a κ c →
            Lives w a τ.arena ρ narrowed company e'.live)) := by
  induction ts generalizing e σ with
  | nil =>
    refine yields_pure.mpr ⟨.refl hb.coherent, fun _ => id, fun _ => id, ?_⟩
    rintro ⟨t, ht, -⟩
    cases ht
  | cons t ts ih =>
    unfold applyContract
    refine (splits_splitByConditions hCalled c.conditions hJudged hb).bind ?_
    rintro ⟨holding, left⟩ σ' ⟨hNext, hLeft, hSplit⟩
    have hb' := hb.trans hNext.arena
    -- what is finished goes on with the other states
    have hContinue : ∀ {fs : List (State × ValueId)} {τ : Session}, Interned w.types σ' τ →
        (∀ f ∈ e.finished, f ∈ fs) →
        (∀ u, holding = some u → c.result.isFail = false →
          ∃ v, (u, v) ∈ fs ∧ Returns args τ.arena v c.result) →
        Yields (applyContract args c ts ⟨fs, left⟩) τ fun e' υ =>
          Interned w.types σ υ ∧ (∀ f ∈ e.finished, f ∈ e'.finished) ∧
            (∀ u ∈ e.live, u ∈ e'.live) ∧
              (Lives w a σ.arena ρ narrowed company (t :: ts) →
                (Applicable args a κ c → c.result.isFail = false →
                  Finishes w a υ.arena ρ narrowed company args c.result e'.finished) ∧
                (¬ Applicable args a κ c →
                  Lives w a υ.arena ρ narrowed company e'.live)) := by
      intro fs τ hThen hStay hAdded
      refine (ih (hb'.trans hThen.arena)).mono ?_
      rintro e' υ ⟨hLast, hFinished, hLive, hRest⟩
      refine ⟨(hNext.trans hThen).trans hLast, fun f hf => hFinished f (hStay f hf),
        fun u hu => hLive u (hLeft u hu), ?_⟩
      rintro ⟨u, hu, hAlive⟩
      rcases List.mem_cons.mp hu with rfl | hu
      · obtain ⟨hHolds, hFails⟩ := hSplit hAlive
        constructor
        · intro hAll hResult
          obtain ⟨u', hu', hAlive'⟩ := hHolds hAll
          obtain ⟨v, hv, hReturns⟩ := hAdded u' hu' hResult
          exact hCalled.finishes_grows (hb'.trans hThen.arena) hLast.arena.grows hFinished
            ⟨_, hv, hCalled.alive_grows hb' hThen.arena.grows hAlive', hReturns⟩
        · intro hSome
          obtain ⟨u', hu', hAlive'⟩ := hFails hSome
          exact ⟨u', hLive u' hu',
            hCalled.alive_grows hb' (hThen.trans hLast).arena.grows hAlive'⟩
      · exact hRest ⟨u, hu, hCalled.alive_grows hb (hNext.trans hThen).arena.grows hAlive⟩
    cases holding with
    | none => exact yields_bind.mpr (yields_pure.mpr
        (hContinue (.refl hb'.coherent) (fun _ => id) nofun))
    | some u =>
      refine (yields_finish hResult hb'.coherent).bind fun fs τ ⟨hThen, hStay, hAdded⟩ => ?_
      refine hContinue hThen hStay ?_
      rintro u' hu'
      cases hu'
      exact hAdded

/-- **All contracts**: the first one that applies finishes a state that keeps the valuation,
and if none applies such a state is left. -/
theorem splits_applyContracts (limit : Nat) (cs : List Contract)
    (hJudged : ∀ c ∈ cs, ∀ d ∈ c.conditions, Judged w a ρ κ narrowed company args d)
    (hResult : ∀ c ∈ cs, ∀ f, c.result = .value f → f.Over w.types) {e : Expansion}
    (hb : Arena.Extends w.types a σ.arena) :
    Yields (applyContracts args limit cs e) σ fun r τ =>
      Interned w.types σ τ ∧ ∀ e', r = some e' → (∀ f ∈ e.finished, f ∈ e'.finished) ∧
        (Lives w a σ.arena ρ narrowed company e.live →
          (∀ before c after, cs = before ++ c :: after →
            (∀ b ∈ before, ¬ Applicable args a κ b) → Applicable args a κ c →
            c.result.isFail = false →
            Finishes w a τ.arena ρ narrowed company args c.result e'.finished) ∧
          ((∀ c ∈ cs, ¬ Applicable args a κ c) →
            Lives w a τ.arena ρ narrowed company e'.live)) := by
  induction cs generalizing e σ with
  | nil =>
    refine yields_pure.mpr ⟨.refl hb.coherent, ?_⟩
    rintro e' he'
    cases he'
    refine ⟨fun _ => id, fun hLives => ⟨?_, fun _ => hLives⟩⟩
    intro before c after hEq
    exact absurd hEq (by simp)
  | cons c cs ih =>
    unfold applyContracts
    refine (splits_applyContract hCalled c (hJudged c List.mem_cons_self)
      (hResult c List.mem_cons_self) e.live hb).bind ?_
    rintro e₁ τ ⟨hNext, hFinished, -, hSplit⟩
    have hb' := hb.trans hNext.arena
    split
    · exact yields_pure.mpr ⟨hNext, nofun⟩
    · refine (ih (fun c hc => hJudged c (List.mem_cons_of_mem _ hc))
        (fun c hc => hResult c (List.mem_cons_of_mem _ hc)) hb').mono ?_
      rintro r υ ⟨hLast, hRest⟩
      refine ⟨hNext.trans hLast, fun e' he' => ?_⟩
      obtain ⟨hStay, hLater⟩ := hRest e' he'
      refine ⟨fun f hf => hStay f (hFinished f hf), fun hLives => ?_⟩
      obtain ⟨hHolds, hFails⟩ := hSplit hLives
      constructor
      · intro before d after hEq hBefore hAll hNoFail
        cases before with
        | nil =>
          obtain ⟨rfl, -⟩ := List.cons.inj hEq
          exact hCalled.finishes_grows hb' hLast.arena.grows hStay (hHolds hAll hNoFail)
        | cons b before =>
          obtain ⟨rfl, hRest⟩ := List.cons.inj hEq
          obtain ⟨hb, hBefore⟩ := List.forall_mem_cons.mp hBefore
          exact (hLater (hFails hb)).1 before d after hRest hBefore hAll hNoFail
      · intro hNone
        obtain ⟨hc, hcs⟩ := List.forall_mem_cons.mp hNone
        exact (hLater (hFails hc)).2 hcs

end

/-- **The contracts of a call cover its cases.** The first contract that applies, unless it
fails, leaves a state that the valuation fits with the result of the contract, and where none
applies there is one with the usual result. Contracts may be ignored, because the usual result
is a constant or because they make too many states: then the state is left as it was. -/
theorem expand_covers {ctx : Context} {index : Nat} {info : MethodInfo} {usual : ValueId}
    (hReached : State.Reached w.types σ.arena s) (hρ : s.Satisfies w σ.arena ρ)
    (hChoice : Companions w σ.arena s ρ narrowed company)
    (hJudged : ∀ c ∈ info.contracts, ∀ d ∈ c.conditions,
      Judged w σ.arena ρ κ narrowed company args d)
    (hResult : ∀ c ∈ info.contracts, ∀ f, c.result = .value f → f.Over w.types) :
    Yields (expand ctx index info args usual s) σ fun rs τ =>
      (rs = [(s, usual)] ∧ s.Satisfies w τ.arena ρ ∧
        ((σ.arena.inherent usual).isConstant = true ∨
          τ.log = σ.log.push (.contractsTooComplex index))) ∨
      ((∀ before c after, info.contracts = before ++ c :: after →
          (∀ b ∈ before, ¬ Applicable args σ.arena κ b) → Applicable args σ.arena κ c →
          c.result.isFail = false →
          ∃ r ∈ rs, r.1.Fits w τ.arena ρ (NullLength σ.arena ρ narrowed) ∧
            Returns args τ.arena r.2 c.result) ∧
        ((∀ c ∈ info.contracts, ¬ Applicable args σ.arena κ c) →
          ∃ r ∈ rs, r.1.Fits w τ.arena ρ (NullLength σ.arena ρ narrowed) ∧ r.2 = usual)) := by
  obtain ⟨hArena, hState⟩ := hReached.coherent
  have hCalled : Called w σ.arena s ρ narrowed company := ⟨hArena, hρ, hChoice⟩
  have hStart : Lives w σ.arena σ.arena ρ narrowed company [s] :=
    ⟨s, List.mem_singleton.mpr rfl, hChoice.alive hState hρ⟩
  unfold expand
  rw [yields_bind, yields_arena]
  split
  · rename_i hConstant
    exact yields_pure.mpr (Or.inl ⟨rfl, hρ, Or.inl hConstant⟩)
  · refine (splits_applyContracts hCalled ctx.config.contractLimit info.contracts hJudged hResult
      (.refl hArena)).bind ?_
    rintro r τ ⟨hNext, hSplit⟩
    cases r with
    | none =>
      refine yields_bind.mpr (yields_log.mpr (yields_pure.mpr (Or.inl ⟨rfl, ?_, Or.inr ?_⟩)))
      · exact (State.satisfies_grows hArena hNext.arena.grows).mpr hρ
      · show τ.log.push _ = _
        rw [hNext.log]
    | some e =>
      obtain ⟨-, hCover⟩ := hSplit e rfl
      obtain ⟨hFirst, hNone⟩ := hCover hStart
      refine yields_pure.mpr (Or.inr ⟨?_, ?_⟩)
      · intro before c after hEq hBefore hc hNoFail
        obtain ⟨f, hf, hAlive, hReturns⟩ := hFirst before c after hEq hBefore hc hNoFail
        exact ⟨f, List.mem_eraseDups.mpr (List.mem_append_left _ hf), hAlive.kept.fits, hReturns⟩
      · intro hAll
        obtain ⟨t, ht, hAlive⟩ := hNone hAll
        exact ⟨(t, usual), List.mem_eraseDups.mpr
          (List.mem_append_right _ (List.mem_map_of_mem ht)), hAlive.kept.fits, rfl⟩

/-- A call that fails for null and returns true for everything else. -/
def presence : MethodInfo :=
  { MethodInfo.unknown with
    contracts := [⟨[.argIsNull 0], .fail⟩, ⟨[.argNotNull 0], .value (.ofBool true)⟩] }

/-- The argument is an object. -/
def presentValue (x : Value) : Concrete := if x = .typed .null then .null else .object 0

theorem presentValue_null :
    presentValue (symbol ⟨0, [1], .pure⟩ State.nullTest (.constant .null)) = .null :=
  if_pos symbol_constant

theorem presentValue_arg :
    presentValue (symbol ⟨0, [1], .pure⟩ State.nullTest (.arg 0)) = .object 0 := by
  obtain ⟨x, hx⟩ := Arena.isVariable_iff.mp State.evaluated_nullTest.2.2.1
  refine if_neg ?_
  rw [show symbol ⟨0, [1], .pure⟩ State.nullTest (.arg 0) = .var x from hx]
  nofun

theorem judged_presence (hRel : rel = .eq ∨ rel = .ne) :
    Judged State.plainWorld State.nullTest (fun _ => .object 0) presentValue (· = 1) (fun _ => 0)
      ⟨0, [1], .pure⟩ ⟨.arg 0, rel, .constant .null⟩ := by
  obtain ⟨hSize, -, hVariable, -⟩ := State.evaluated_nullTest
  refine ⟨?_, ⟨hSize ▸ Nat.one_lt_succ_succ 1, .of_variable hVariable presentValue_arg.symm,
    fun _ _ => rfl⟩, ?_, ?_, ?_, fun _ _ => State.orders_plainWorld,
    fun _ hNot => absurd symbol_constant hNot⟩
  · rintro f (hf | hf) <;> cases hf
    exact Fact.over_ofNullness
  · dsimp only
    rw [presentValue_null]
    exact stands_typed.mpr (Fact.admits_null.mpr ⟨nofun, rfl⟩)
  · unfold Applies
    dsimp only
    rw [presentValue_arg, presentValue_null]
    rcases hRel with rfl | rfl
    · exact Or.inr rfl
    · exact Or.inl rfl
  · intro _ h
    rw [presentValue_arg] at h
    cases h

/-- **What is not null is known to be**: the contract for null is left behind, and the state has
the result of the other one. -/
theorem expand_presence_covers :
    Yields (expand usualContext 0 presence ⟨0, [1], .pure⟩ 0 .initial)
      (.start State.nullTest) fun rs τ => ∃ r ∈ rs,
        r.1.Fits State.plainWorld τ.arena (fun _ => .object 0)
          (NullLength State.nullTest (fun _ => .object 0) (· = 1)) ∧
        τ.arena.get r.2 = .typed (.ofBool true) := by
  obtain ⟨-, -, hVariable, -, -, -, hUnknown, -⟩ := State.evaluated_nullTest
  have hAdmits : Fact.nullable.Admits State.plainWorld (.object 0) := Fact.ofNullness_admits nofun
  have hChoice : Companions State.plainWorld State.nullTest .initial (fun _ => .object 0) (· = 1)
      fun _ => 0 := by
    refine ⟨?_, fun _ _ _ => State.orders_plainWorld, ?_, nofun, nofun⟩
    · rintro m rfl
      exact hVariable
    · rintro m - ⟨l, q, -, hNull, -⟩
      cases hNull
  have hJudged : ∀ c ∈ presence.contracts, ∀ d ∈ c.conditions,
      Judged State.plainWorld State.nullTest (fun _ => .object 0) presentValue (· = 1)
        (fun _ => 0) ⟨0, [1], .pure⟩ d := by
    simp only [presence, List.forall_mem_cons, List.not_mem_nil, false_imp_iff, implies_true,
      and_true]
    exact ⟨judged_presence (Or.inl rfl), judged_presence (Or.inr rfl)⟩
  have hResult : ∀ c ∈ presence.contracts, ∀ f, c.result = .value f →
      f.Over State.plainWorld.types := by
    simp only [presence, List.forall_mem_cons, List.not_mem_nil, false_imp_iff, implies_true,
      and_true]
    exact ⟨nofun, by rintro f ⟨⟩; exact Fact.over_of_info rfl⟩
  -- the contracts are not ignored
  have hLog : (match expand usualContext 0 presence ⟨0, [1], .pure⟩ 0 .initial
      (.start State.nullTest) with
    | .ok _ τ => τ.log.size
    | .error _ τ => τ.log.size) = 0 := by decide +kernel
  have hCovers : Yields (expand usualContext 0 presence ⟨0, [1], .pure⟩ 0 .initial)
      (.start State.nullTest) _ := expand_covers State.reached_nullTest
    (State.satisfies_nullTest hAdmits) hChoice hJudged hResult
  obtain ⟨rs, τ, hRun, hCover⟩ := hCovers
  rw [hRun] at hLog
  refine ⟨rs, τ, hRun, ?_⟩
  rcases hCover with ⟨-, -, hConstant | hComplex⟩ | ⟨hFirst, -⟩
  · rw [show (Session.start State.nullTest).arena.inherent 0 = .top from hUnknown] at hConstant
    cases hConstant
  · dsimp only at hLog
    rw [hComplex] at hLog
    cases hLog
  · have hNull : ¬ Applicable ⟨0, [1], .pure⟩ State.nullTest presentValue
        ⟨[.argIsNull 0], .fail⟩ := by
      intro hAll
      have hHolds := hAll _ List.mem_cons_self
      unfold Applies at hHolds
      dsimp only [ContractCondition.argIsNull] at hHolds
      rw [presentValue_arg, presentValue_null] at hHolds
      cases hHolds
    have hPresent : Applicable ⟨0, [1], .pure⟩ State.nullTest presentValue
        ⟨[.argNotNull 0], .value (.ofBool true)⟩ := by
      intro d hd
      rw [List.mem_singleton.mp hd]
      unfold Applies
      dsimp only [ContractCondition.argNotNull]
      rw [presentValue_arg, presentValue_null]
      rfl
    obtain ⟨r, hr, hFits, hReturns⟩ := hFirst [_] _ [] rfl
      (List.forall_mem_singleton.mpr hNull) hPresent rfl
    exact ⟨r, hr, hFits, hReturns.2⟩

-- ---------------------------------------------------------------------------
-- NaN
-- ---------------------------------------------------------------------------

/-- **A NaN is in no order, and in no negation of one**: neither can be assumed. -/
theorem infeasible_of_nan (hOrder : rel.isOrdering = true) (hVariable : a.isVariable u = true)
    (hNaN : s.fact a u = .double .nan) :
    (s.apply a (.of a u rel v)).feasible = false ∧
      (s.apply a (Condition.of a u rel v).negated).feasible = false := by
  have hInfeasible : ∀ r : Relation, r.isOrdering = true →
      (s.apply a (.relation u r v)).feasible = false := by
    intro r hr
    show (s.applyRelation a u r v).feasible = false
    unfold State.applyRelation
    simp only [hNaN, decide_true, Bool.true_or, if_true]
    split
    · rfl
    · cases r <;> first | rfl | cases hr
  have hOf : Condition.of a u rel v = .relation u rel v := by
    rw [Condition.of, hVariable]
    rfl
  rw [hOf]
  refine ⟨hInfeasible rel hOrder, hInfeasible rel.negated ?_⟩
  cases rel <;> first | rfl | cases hOrder

/-- Where no state is left there is nothing to do for contracts. -/
theorem yields_applyContracts_nil {limit : Nat} {cs : List Contract} :
    Yields (applyContracts args limit cs ⟨[], []⟩) σ fun r _ => r = some ⟨[], []⟩ := by
  induction cs generalizing σ with
  | nil => exact yields_pure.mpr rfl
  | cons c cs ih =>
    unfold applyContracts applyContract
    rw [yields_bind, yields_pure]
    split
    · rename_i hLimit
      exact absurd hLimit (Nat.not_lt_zero _)
    · exact ih

/-- **A call whose contract compares a NaN in an order has no outcome**: the condition of the
first contract leaves neither a state in which it holds nor one in which it fails. -/
theorem expand_loses_nan {ctx : Context} {index : Nat} {info : MethodInfo} {usual : ValueId}
    {i : Nat} {f : Fact} {ds : List ContractCondition} {result : ContractResult}
    {cs : List Contract} (hArena : σ.arena.Coherent H)
    (hContracts : info.contracts = ⟨⟨.arg i, rel, .constant f⟩ :: ds, result⟩ :: cs)
    (hOrder : rel.isOrdering = true) (hVariable : σ.arena.isVariable (args.arg i) = true)
    (hNaN : s.fact σ.arena (args.arg i) = .double .nan)
    (hUsual : (σ.arena.inherent usual).isConstant = false) :
    Yields (expand ctx index info args usual s) σ fun rs _ => rs = [] := by
  have hGrows : σ.arena.Grows (σ.arena.typed f).2 := Arena.grows_typed
  have hVariable' := hGrows.isVariable.trans hVariable
  have hNaN' : s.fact (σ.arena.typed f).2 (args.arg i) = .double .nan :=
    (State.fact_grows hArena hGrows (Arena.lt_of_isVariable hVariable)).trans hNaN
  obtain ⟨hHolds, hFails⟩ :=
    infeasible_of_nan (v := (σ.arena.typed f).1) hOrder hVariable' hNaN'
  have hSplit : Yields (splitByConditions args (⟨.arg i, rel, .constant f⟩ :: ds) s []) σ
      fun r _ => r = (none, []) := by
    unfold splitByConditions contractCondition
    simp only [yields_bind, yields_intern, yields_condition, yields_arena,
      ContractValue.resolve, hHolds, hFails]
    exact yields_pure.mpr rfl
  have hFirst : Yields (applyContract args ⟨⟨.arg i, rel, .constant f⟩ :: ds, result⟩ [s]
      ⟨[], []⟩) σ fun e _ => e = ⟨[], []⟩ := by
    unfold applyContract
    refine hSplit.bind ?_
    rintro _ τ rfl
    exact yields_bind.mpr (yields_pure.mpr (yields_pure.mpr rfl))
  unfold expand
  rw [yields_bind, yields_arena, hUsual, hContracts]
  have hAll : Yields (applyContracts args ctx.config.contractLimit
      (⟨⟨.arg i, rel, .constant f⟩ :: ds, result⟩ :: cs) ⟨[], [s]⟩) σ
      fun r _ => r = some ⟨[], []⟩ := by
    unfold applyContracts
    refine hFirst.bind ?_
    rintro _ τ rfl
    split
    · rename_i hLimit
      exact absurd hLimit (Nat.not_lt_zero _)
    · exact yields_applyContracts_nil
  refine hAll.bind ?_
  rintro _ τ rfl
  exact yields_pure.mpr rfl

end

end Pathwise.Step
