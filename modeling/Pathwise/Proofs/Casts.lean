import Pathwise.Proofs.CommonClasses
import Pathwise.Proofs.Dereferences
import Pathwise.Proofs.Verdicts

/-!
# Casts

A cast narrows the value on top of the stack to the values of a type, null among them. An object of
the type is always left, and goes on at the next instruction. Where the cast may fail, the path goes
on at the target of a transfer from the state before, and there an object of another type is left.

Null passes every cast, but the narrowing is not made for it: it fails where nothing but null is left.
Without a transfer the path goes on all the same, from a state that was narrowed as far as it went;
with one it is taken to fail, so that null is lost. `State.Survives` says when it is not, and
`State.survives_of_keeps` that this is so where an object could be in the place of null.

## Results

* `State.fits_meetFact_null`  — null stays however far it is narrowed.
* `Step.perform_cast_covers`  — a cast covers what passes and what fails.
* `Step.casts_lose_values`    — each proviso is needed.
-/

namespace Pathwise

-- ---------------------------------------------------------------------------
-- Facts of casts
-- ---------------------------------------------------------------------------

namespace Fact

variable {w : World} {f g : Fact} {t : TypeDesc} {n : Nullness} {o : Nat}

theorem ofType_of_reference (hRef : t.isPrimitive = false) :
    ofType t n = ofBound n (.subtypeOf t) := by
  rw [ofType, hRef]
  rfl

/-- The objects of a type. -/
theorem admits_ofType_object (ht : w.types.Declares t) (hRef : t.isPrimitive = false)
    (hn : n ≠ .null) (hClass : (w.classOf o).isSubtypeOf t = true) :
    (ofType t n).Admits w (.object o) := by
  rw [ofType_of_reference hRef]
  exact admits_object.mpr ⟨⟨hn, TypeBound.allows_subtypeOf (w.declared o) ht hClass, nofun, trivial,
    nofun⟩, trivial, trivial⟩

/-- Null is of every type. -/
theorem admits_ofType_null (hRef : t.isPrimitive = false) (hn : n ≠ .notNull) :
    (ofType t n).Admits w .null := by
  rw [ofType_of_reference hRef]
  exact admits_null.mpr ⟨hn, rfl⟩

/-- **An object that is no instance** is not found to be one. -/
theorem decide?_notInstanceOf (hf : f.Over w.types) (ht : w.types.Declares t)
    (hRef : t.isPrimitive = false) (hfo : f.Admits w (.object o))
    (hClass : (w.classOf o).isSubtypeOf t = false) :
    decide? .notInstanceOf f (ofType t .notNull) ≠ some false := by
  have hOver : (TypeBound.subtypeOf t).Over w.types := TypeBound.over_subtypeOf ht
  rw [ofType_of_reference hRef, decide?, isBottom_of_admits hfo, Bool.false_or]
  show (decideInstance? f (ofBound .notNull (.subtypeOf t))).map (!·) ≠ some false
  rw [Ne, Option.map_eq_some_iff]
  rintro ⟨b, hDecide, hb⟩
  obtain rfl : b = true := by simpa using hb
  obtain ⟨-, -, -, -, hTop, -⟩ := of_decideInstance? hDecide
  obtain ⟨p, hp, hAllows⟩ := isInstance_of_decideInstance? (g := ofBound .notNull (.subtypeOf t))
    w.types.orderly w.declared hf.namesIn hOver.namesIn (Or.inl hfo) hDecide
  cases hp
  rw [TypeBound.isSubtypeOf_of_allows hAllows (TypeBound.isTop_subtypeOf hTop)] at hClass
  cases hClass

/-- **An object that is no instance** is left when instances are excluded. -/
theorem admits_narrow_notInstanceOf (hf : f.Over w.types) (ht : w.types.Declares t)
    (hRef : t.isPrimitive = false) (hfo : f.Admits w (.object o)) (hOrders : w.Orders o)
    (hClass : (w.classOf o).isSubtypeOf t = false) :
    (f.narrow .notInstanceOf (ofType t .notNull)).Admits w (.object o) := by
  rw [ofType_of_reference hRef]
  show (f.narrowNotInstance (ofBound .notNull (.subtypeOf t))).Admits w (.object o)
  unfold narrowNotInstance
  split
  · exact hfo
  · split
    · exact hfo
    · rename_i u hu
      obtain rfl := TypeBound.eq_of_mostSpecific?_subtypeOf hu
      have hExcluded : (ofBound .unknown (.notSubtypeOf u)).Admits w (.object o) := by
        refine admits_object.mpr ⟨⟨nofun, ⟨nofun, ?_, ?_⟩, nofun, trivial, nofun⟩, trivial, trivial⟩
        · exact fun _ hs => absurd hs OrdSet.not_mem_empty
        · intro s hs
          rw [(OrdSet.mem_insert.mp hs).resolve_right OrdSet.not_mem_empty]
          exact hClass
      have hMeet := admits_meet_object hOrders hf
        (over_ofBound (TypeBound.over_notSubtypeOf ht)) hfo hExcluded
      dsimp only
      rw [isBottom_of_admits hMeet, Bool.false_and]
      exact hMeet

end Fact

-- ---------------------------------------------------------------------------
-- What is left by a cast
-- ---------------------------------------------------------------------------

namespace State

variable {w : World} {a : Arena} {s : State} {ρ : ValueId → Concrete} {f : Fact} {t : TypeDesc}
  {u v m : ValueId} {x : Concrete} {o : Nat} {exempt : ValueId → Prop}

/-- **A value survives being narrowed** to a fact: it is as the fact says already, or more than null
is left of it and of all that equal it. -/
def Survives (a : Arena) (s : State) (v : ValueId) (f : Fact) : Prop :=
  (s.fact a v).meet f = s.fact a v ∨
    ((s.fact a v).meet f).isNull = false ∧ (s.meetFact a v ((s.fact a v).meet f)).feasible = true

/-- **What survives**: an object that the fact admits, and null where there could be one. -/
theorem survives_of_keeps (hArena : a.Coherent w.types) (hState : s.Coherent w.types a)
    (hρ : s.Satisfies w a ρ) (hv : Denotes w a ρ v x)
    (hRef : x = .null ∧ (s.fact a v).Admits w (.object o) ∧ f.Admits w (.object o) ∨
      ∃ p, x = .object p)
    (hOrdered : Fact.Ordered w o x) (hCompany : s.InCompany w a o v x) (hf : f.Over w.types)
    (hfx : f.Admits w x) : s.Survives a v f := by
  have hOver := over_fact (v := v) hArena hState
  have hKeeps : ((s.fact a v).meet f).Keeps w o x := by
    refine Fact.keeps_meet hOver hf hOrdered
      ⟨hv.admits hρ, fun hNull => hCompany hNull v mem_equalClass_self⟩ ⟨hfx, fun hNull => ?_⟩
    rcases hRef with ⟨-, -, hObject⟩ | ⟨p, rfl⟩
    · exact Or.inr hObject
    · cases hNull
  -- there is an object that is left
  obtain ⟨p, hp⟩ : ∃ p, ((s.fact a v).meet f).Admits w (.object p) := by
    rcases hRef with ⟨rfl, hvo, hfo⟩ | ⟨p, rfl⟩
    · exact ⟨o, Fact.admits_meet_object (hOrdered o (Or.inr ⟨rfl, rfl⟩)) hOver hf hvo hfo⟩
    · exact ⟨p, hKeeps.admits⟩
  refine Or.inr ⟨eq_false_of_ne_true fun hNull => ?_, ?_⟩
  · cases Fact.eq_null_of_isNull hNull hp
  · exact (fits_meetFact hArena hState hρ hv hOrdered hCompany (Fact.over_meet hOver hf) hKeeps).1

-- ---------------------------------------------------------------------------
-- Null that is narrowed
-- ---------------------------------------------------------------------------

/-- **One variable that is null** is narrowed to what null is in. -/
theorem admits_setNarrowed_null (hArena : a.Coherent w.types) (hState : s.Coherent w.types a)
    (hVariable : a.isVariable m = true) (hMeasurable : (a.inherent m).Measurable w)
    (hf : f.Over w.types) (hNull : (s.fact a m).Admits w .null) (hfNull : f.Admits w .null)
    (hSome : ((s.fact a m).meet f).isBottom = false) :
    ((s.setFact a m ((s.fact a m).meet f)).fact a m).Admits w .null := by
  have hNarrowed : ((s.fact a m).meet f).Admits w .null :=
    Fact.admits_null_of_meet hNull hfNull (Fact.ne_bottom_of_isBottom hSome)
  obtain ⟨i, hi⟩ := Arena.isVariable_iff.mp hVariable
  have hNone : ∀ l q, ¬ a.LengthOf l q m := by
    intro l q hLength
    obtain ⟨n, hn, hInt⟩ := (integral_fact hArena hLength).exists_int hNull
    cases hInt
  have hFact : s.fact a m = (a.inherent m).meet (s.stored m) := by
    rw [fact_var hArena hi, derived_of_not_length hi hNone]
  rw [fact_setFact_self hArena hi, stored_setFact hVariable, derived_of_not_length hi hNone]
  split
  · rename_i hSaid
    rw [Fact.meet_top, ← hSaid]
    exact hNarrowed
  · -- the declaration was met with what is stored already
    rename_i hNew
    rw [hFact] at hSome hNew hNarrowed ⊢
    rcases Fact.meet_again (hArena.declared m) (over_stored hState) hf hMeasurable hSome with
      hSaid | hAgain
    · exact absurd hSaid hNew
    · rw [hAgain]
      exact hNarrowed

/-- Variables that are null are narrowed one after the other, as far as it goes. -/
theorem fits_meetFacts_null (hArena : a.Coherent w.types) (hf : f.Over w.types)
    (hfNull : f.Admits w .null) (vs : List ValueId)
    (hvs : ∀ m ∈ vs, a.isVariable m = true ∧ ρ m = .null ∧ (a.inherent m).Measurable w ∧
      ¬ exempt m ∧ ∀ l v, a.LengthOf l m v → exempt v)
    (hState : s.Coherent w.types a) (hFits : s.Fits w a ρ exempt) :
    (meetFacts a f vs s).state.Fits w a ρ exempt := by
  induction vs generalizing s with
  | nil => exact hFits
  | cons m vs ih =>
    obtain ⟨hVariable, hNull, hMeasurable, hNot, hLengths⟩ := hvs m List.mem_cons_self
    have hOld : (s.fact a m).Admits w .null := by
      rw [← hNull]
      exact hFits.admits hVariable hNot
    rw [meetFacts]
    split
    · exact hFits
    · rename_i hSome
      have hNew := admits_setNarrowed_null hArena hState hVariable hMeasurable hf hOld hfNull
        (eq_false_of_ne_true hSome)
      refine ih (fun u hu => hvs u (List.mem_cons_of_mem _ hu))
        (coherent_setFact hState (Fact.over_meet (over_fact hArena hState) hf))
        (fits_setFact_of hArena hFits (hNull ▸ hNew) ?_)
      exact fun {l v} hLength _ hExempt => absurd (hLengths l v hLength) hExempt

/-- No variable is narrowed to nothing. -/
theorem meetFacts_bottom {vs : List ValueId} (hSome : vs ≠ []) :
    meetFacts a .bottom vs s = ⟨false, s⟩ := by
  cases vs with
  | nil => exact absurd rfl hSome
  | cons m vs =>
    have hBottom : ((s.fact a m).meet .bottom).isBottom = true := by
      cases s.fact a m <;> rfl
    rw [meetFacts, if_pos hBottom]

theorem meetFact_bottom : s.meetFact a v .bottom = ⟨false, s⟩ := by
  unfold meetFact
  split
  · exact meetFacts_bottom (List.ne_nil_of_mem mem_equalClass_self)
  · have hBottom : ((s.fact a v).meet .bottom).isBottom = true := by
      cases s.fact a v <;> rfl
    rw [hBottom]
    rfl

/-- The declarations of a value and of all that equal it state lengths that there can be. -/
def Declarable (w : World) (a : Arena) (s : State) (v : ValueId) : Prop :=
  a.isVariable v = true → ∀ m ∈ s.equalClass v, (a.inherent m).Measurable w

/-- **Null stays when it is narrowed**, also if nothing could be in its place and the narrowing is
not feasible. -/
theorem fits_meetFact_null (hArena : a.Coherent w.types) (hState : s.Coherent w.types a)
    (hρ : s.Satisfies w a ρ) (hv : Denotes w a ρ v .null) (hDeclarable : s.Declarable w a v)
    (hf : f.Over w.types) (hfNull : f.Admits w .null) :
    (s.meetFact a v ((s.fact a v).meet f)).state.Fits w a ρ (s.NullLength a ρ v v) := by
  have hFits : s.Fits w a ρ (s.NullLength a ρ v v) := hρ.mono nofun
  by_cases hBottom : (s.fact a v).meet f = .bottom
  · rw [hBottom, meetFact_bottom]
    exact hFits
  · have hNarrowed := Fact.admits_null_of_meet (hv.admits hρ) hfNull hBottom
    unfold meetFact
    split
    · rename_i hVariable
      refine fits_meetFacts_null hArena (Fact.over_meet (over_fact hArena hState) hf) hNarrowed _ ?_
        hState hFits
      intro m hm
      obtain ⟨hMember, hSame⟩ := of_mem_equalClass hState hρ.links hVariable hm
      have hNull := hSame.trans (hv.own hVariable)
      refine ⟨hMember, hNull, hDeclarable hVariable m hm, ?_, ?_⟩
      · rintro ⟨l, q, -, -, hLength⟩
        obtain ⟨n, hn, hInt⟩ := (integral_fact hArena hLength).exists_int (hρ.admits hMember nofun)
        cases hInt.symm.trans hNull
      · exact fun l v' hLength => ⟨l, m, Or.inl ⟨hVariable, hm⟩, hNull, hLength⟩
    · exact hFits

-- ---------------------------------------------------------------------------
-- Objects that are not cast
-- ---------------------------------------------------------------------------

/-- An object is left with nothing exempt. -/
theorem satisfies_meetFact_object (hArena : a.Coherent w.types) (hState : s.Coherent w.types a)
    (hρ : s.Satisfies w a ρ) (hv : Denotes w a ρ v (.object o)) (hOrders : w.Orders o)
    (hf : f.Over w.types) (hfo : f.Admits w (.object o)) :
    (s.meetFact a v f).feasible = true ∧ (s.meetFact a v f).state.Satisfies w a ρ := by
  refine satisfies_meetFact hArena hState hρ hv nofun ?_ hf hfo
  rintro p ⟨⟩
  exact hOrders

/-- **An object is not null.** -/
theorem satisfies_apply_notNull (hArena : a.Coherent w.types) (hState : s.Coherent w.types a)
    (hρ : s.Satisfies w a ρ) (hv : Denotes w a ρ v (.object o)) (hOrders : w.Orders o)
    (hNull : s.fact a u = .null) (hu : a.isVariable u = false) :
    (s.apply a (.of a v .ne u)).feasible = true ∧
      (s.apply a (.of a v .ne u)).state.Satisfies w a ρ := by
  have hScope : Scope w a ρ (fun _ => 0) (fun m => a.isVariable m = true ∧ ρ m = .object o)
      fun _ => False := by
    refine ⟨?_, fun _ => id, ?_⟩
    · rintro m ⟨-, hm⟩ p (hp | ⟨hp, -⟩)
      · cases hm.symm.trans hp
        exact hOrders
      · cases hm.symm.trans hp
    · rintro l q m ⟨-, hq⟩ hp
      cases hq.symm.trans hp
  have hKept : Kept w a ρ (fun _ => 0) (fun m => a.isVariable m = true ∧ ρ m = .object o)
      (fun _ => False) s := by
    refine ⟨hState, hρ, ?_⟩
    rintro m ⟨hVariable, hm⟩
    exact Fact.keeps_of_admits (by rw [hm]; nofun) (hρ.admits hVariable nofun)
  have hObject : Operand w a ρ (fun _ => 0) (fun m => a.isVariable m = true ∧ ρ m = .object o) s 0 v
      (.object o) :=
    hv.operand_object hState hρ.links (hv.admits hρ) hOrders fun m hm hVariable hSame =>
      ⟨(of_mem_equalClass hState hρ.links hVariable hm).1, hSame⟩
  have hNullOperand : NullOperand w a ρ (fun _ => False) s u := by
    refine ⟨fun h => ?_, ?_, fun _ _ _ => id⟩
    · rw [hu] at h
      cases h
    · rw [hNull]
      exact Fact.admits_null.mpr RefInfo.admitsNull_null
  have hNe : v ≠ u := by
    rintro rfl
    have hAdmits := hv.admits hρ
    rw [hNull] at hAdmits
    cases Fact.eq_null_of_isNull rfl hAdmits
  have hNext := kept_apply_of hArena hScope hKept
    (.right 0 o rfl rfl hObject hNullOperand hNull) ⟨rfl, fun h => absurd h hNe⟩
  exact ⟨hNext.1, hNext.2.fits⟩

section

variable (hArena : a.Coherent w.types) (hState : s.Coherent w.types a) (hρ : s.Satisfies w a ρ)
  (hv : Denotes w a ρ v (.object o)) (hOrders : w.Orders o) (ht : w.types.Declares t)
  (hRef : t.isPrimitive = false) (hClass : (w.classOf o).isSubtypeOf t = false)
  (hTarget : s.fact a u = .ofType t .notNull)
include hArena hState hρ hv hOrders ht hRef hClass hTarget

/-- The value is narrowed, the type is not. -/
theorem satisfies_applyOpen_notInstance : (s.applyOpen a v .notInstanceOf u).feasible = true ∧
    (s.applyOpen a v .notInstanceOf u).state.Satisfies w a ρ := by
  have hOver := over_fact (v := v) hArena hState
  have hNarrowed : ((s.fact a v).narrow .notInstanceOf (.ofType t .notNull)).Over w.types :=
    Fact.over_narrow hOver (Fact.over_ofType ht)
  have hNarrow := satisfies_meetFact_object hArena hState hρ hv hOrders hNarrowed
    (Fact.admits_narrow_notInstanceOf hOver ht hRef (hv.admits hρ) hOrders hClass)
  have hTest : Relation.notInstanceOf.isTypeTest = true := rfl
  have hFlipped : Relation.notInstanceOf.flipped? = none := rfl
  unfold applyOpen
  simp only [hTest, hFlipped, hTarget, hNarrow.1, Bool.not_true, Bool.and_false, Bool.false_and,
    Bool.false_eq_true, if_false]
  exact ⟨trivial, hNarrow.2⟩

theorem satisfies_applyRelation_notInstance :
    (s.applyRelation a v .notInstanceOf u).feasible = true ∧
      (s.applyRelation a v .notInstanceOf u).state.Satisfies w a ρ := by
  have hAdmits := hv.admits hρ
  have hSome := Fact.isBottom_of_admits hAdmits
  have hTest : Relation.notInstanceOf.isTypeTest = true := rfl
  have hNumber : s.fact a v ≠ .double .nan := by
    intro h
    rw [h] at hAdmits
    obtain ⟨d, hd, -⟩ := hAdmits
    cases hd
  have hTargetSome : (s.fact a u).isBottom = false ∧ s.fact a u ≠ .double .nan := by
    rw [hTarget, Fact.ofType_of_reference hRef]
    exact ⟨rfl, nofun⟩
  unfold applyRelation
  simp only [hSome, hTargetSome.1, hNumber, hTargetSome.2, hTest, Bool.or_self, Bool.false_eq_true,
    if_false, decide_false, Bool.not_true, Bool.and_false]
  split
  · rename_i b hDecide
    rw [hTarget] at hDecide
    cases b with
    | true => exact ⟨rfl, hρ⟩
    | false =>
      exact absurd hDecide
        (Fact.decide?_notInstanceOf (over_fact hArena hState) ht hRef hAdmits hClass)
  · exact satisfies_applyOpen_notInstance hArena hState hρ hv hOrders ht hRef hClass hTarget

/-- **An object of another type is no instance.** -/
theorem satisfies_apply_notInstance : (s.apply a (.of a v .notInstanceOf u)).feasible = true ∧
    (s.apply a (.of a v .notInstanceOf u)).state.Satisfies w a ρ := by
  rcases condition_cases s a v .notInstanceOf u with hOf | ⟨-, b, hDecide, hOf⟩
  · rw [hOf]
    exact satisfies_applyRelation_notInstance hArena hState hρ hv hOrders ht hRef hClass hTarget
  · rw [hTarget] at hDecide
    rw [hOf]
    cases b with
    | true => exact ⟨rfl, hρ⟩
    | false =>
      exact absurd hDecide
        (Fact.decide?_notInstanceOf (over_fact hArena hState) ht hRef (hv.admits hρ) hClass)

end

end State

-- ---------------------------------------------------------------------------
-- The step
-- ---------------------------------------------------------------------------

namespace Step

variable {w : World} {σ : Session} {s : State} {ρ : ValueId → Concrete} {v : ValueId} {f : Fact}
  {t : TypeDesc} {o : Nat} {x : Concrete} {ctx : Context} {index : Nat} {anchor : Option Anchor}
  {onFail : Option Transfer} {rest : List ValueId} {exempt : ValueId → Prop}

open State (Denotes Reached)

/-- **A valuation is left**, and the top of the stack still stands for the value. -/
def Held (w : World) (b : Arena) (ρ : ValueId → Concrete) (exempt : ValueId → Prop)
    (rest : List ValueId) (x : Concrete) (s : State) : Prop :=
  s.Fits w b ρ exempt ∧ ∃ r, s.stack = r :: rest ∧ Denotes w b ρ r x

/-- **The top of the stack was narrowed**: it is feasible if the value survives, and the valuations
are left that are left by the narrowing of the value. -/
structure TopNarrowed (w : World) (a b : Arena) (s : State) (v : ValueId) (f : Fact)
    (rest : List ValueId) (n : Narrowing) : Prop where
  extends_arena : Arena.Extends w.types a b
  feasible : n.feasible = true ↔ s.Survives a v f
  stack    : ∃ r, n.state.stack = r :: rest ∧ r < b.size
  held     : ∀ ρ x exempt, s.Satisfies w a ρ → Denotes w a ρ v x →
    (s.meetFact a v ((s.fact a v).meet f)).state.Fits w a ρ exempt →
    (s.Survives a v f → ((s.fact a v).meet f).Admits w x) → Held w b ρ exempt rest x n.state

theorem Held.grows {a b : Arena} (h : Held w a ρ exempt rest x s) (hArena : a.Coherent w.types)
    (hGrows : a.Grows b) (hStack : ∃ r, s.stack = r :: rest ∧ r < a.size) :
    Held w b ρ exempt rest x s := by
  obtain ⟨hFits, r, hTop, hr⟩ := h
  obtain ⟨u, hTop', hu⟩ := hStack
  cases hTop.symm.trans hTop'
  exact ⟨(State.fits_grows hArena hGrows).mpr hFits, r, hTop, hr.grows hGrows hu⟩

/-- **Narrowing the top of the stack**: a variable stays, and any other value is replaced by what is
left of it. -/
theorem yields_castTop_narrowed (hArena : σ.arena.Coherent w.types)
    (hState : s.Coherent w.types σ.arena) (hv : v < σ.arena.size) (hStack : s.stack = v :: rest)
    (hf : f.Over w.types) :
    Yields (castTop index f s) σ fun n τ => TopNarrowed w σ.arena τ.arena s v f rest n := by
  have hRefl : Arena.Extends w.types σ.arena σ.arena := .refl hArena
  unfold castTop
  rw [peek_of_stack hStack, yields_bind, yields_pure, yields_bind, yields_arena]
  dsimp only
  split
  · rename_i hSame
    refine yields_pure.mpr ⟨hRefl, iff_of_true rfl (Or.inl hSame), ⟨v, hStack, hv⟩, ?_⟩
    exact fun ρ x exempt hρ hx _ _ => ⟨hρ.mono nofun, v, hStack, hx⟩
  · rename_i hOther
    split
    · -- nothing but null is left, and the state stays as it is
      rename_i hNull
      refine yields_pure.mpr ⟨hRefl, iff_of_false Bool.false_ne_true ?_, ⟨v, hStack, hv⟩, ?_⟩
      · rintro (hSame | ⟨hSome, -⟩)
        · exact hOther hSame
        · cases hNull.symm.trans hSome
      · exact fun ρ x exempt hρ hx _ _ => ⟨hρ.mono nofun, v, hStack, hx⟩
    · rename_i hSome
      have hMet : (s.meetFact σ.arena v ((s.fact σ.arena v).meet f)).state.stack = v :: rest :=
        State.frame_meetFact.stack.trans hStack
      have hSurvives : (s.meetFact σ.arena v ((s.fact σ.arena v).meet f)).feasible = true ↔
          s.Survives σ.arena v f := by
        constructor
        · exact fun h => Or.inr ⟨eq_false_of_ne_true hSome, h⟩
        · rintro (hSame | ⟨-, h⟩)
          · exact absurd hSame hOther
          · exact h
      split
      · exact yields_pure.mpr ⟨hRefl, hSurvives, ⟨v, hMet, hv⟩,
          fun ρ x exempt _ hx hFits _ => ⟨hFits, v, hMet, hx⟩⟩
      · rename_i hReplaced
        simp only [Bool.or_eq_true, Bool.not_eq_true', not_or, Bool.not_eq_false,
          Bool.not_eq_true] at hReplaced
        obtain ⟨hFeasible, hVariable⟩ := hReplaced
        have hTyped : Arena.Extends w.types σ.arena
            (σ.arena.typed ((s.fact σ.arena v).meet f)).2 :=
          Arena.extends_typed hArena (Fact.over_meet (State.over_fact hArena hState) hf)
        rw [pop_of_stack hMet, yields_bind, yields_pure]
        dsimp only
        rw [yields_bind, yields_intern, yields_pure]
        refine ⟨hTyped, iff_of_true rfl (hSurvives.mp hFeasible), ⟨_, rfl, Arena.lt_size_intern⟩, ?_⟩
        intro ρ x exempt _ hx hFits hLeft
        refine ⟨?_, _, rfl, .of_value Arena.isVariable_typed ?_⟩
        · exact ((State.fits_grows hArena hTyped.grows).mpr hFits).congr rfl rfl
        · rw [Arena.inherent_typed]
          exact hLeft (hSurvives.mp hFeasible)

/-- **What a cast leaves** of an object of the type, and of null. -/
structure CastKeeps (w : World) (a b : Arena) (s : State) (v : ValueId) (t : TypeDesc)
    (rest : List ValueId) (n : Narrowing) : Prop where
  object : ∀ ρ o, s.Satisfies w a ρ → Denotes w a ρ v (.object o) → w.Orders o →
    (w.classOf o).isSubtypeOf t = true →
    n.feasible = true ∧ Held w b ρ (fun _ => False) rest (.object o) n.state
  null   : ∀ ρ, s.Satisfies w a ρ → Denotes w a ρ v .null → s.Declarable w a v →
    Held w b ρ (s.NullLength a ρ v v) rest .null n.state

theorem TopNarrowed.castKeeps {a b : Arena} {n : Narrowing}
    (h : TopNarrowed w a b s v (.ofType t .unknown) rest n) (hArena : a.Coherent w.types)
    (hState : s.Coherent w.types a) (ht : w.types.Declares t) (hRef : t.isPrimitive = false) :
    CastKeeps w a b s v t rest n := by
  have hOver : (Fact.ofType t .unknown).Over w.types := Fact.over_ofType ht
  have hFact := State.over_fact (v := v) hArena hState
  constructor
  · intro ρ o hρ hv hOrders hClass
    have hAdmits := Fact.admits_ofType_object (n := .unknown) ht hRef nofun hClass
    have hOrdered : Fact.Ordered w o (.object o) := by
      rintro p (hp | ⟨hp, -⟩) <;> cases hp
      exact hOrders
    have hMeet := Fact.admits_meet_object hOrders hFact hOver (hv.admits hρ) hAdmits
    obtain ⟨-, hNext⟩ := State.satisfies_meetFact_object hArena hState hρ hv hOrders
      (Fact.over_meet hFact hOver) hMeet
    exact ⟨h.feasible.mpr (State.survives_of_keeps hArena hState hρ hv (Or.inr ⟨o, rfl⟩) hOrdered
      nofun hOver hAdmits), h.held ρ _ _ hρ hv hNext fun _ => hMeet⟩
  · intro ρ hρ hv hDeclarable
    have hAdmits : (Fact.ofType t .unknown).Admits w .null := Fact.admits_ofType_null hRef nofun
    refine h.held ρ _ _ hρ hv
      (State.fits_meetFact_null hArena hState hρ hv hDeclarable hOver hAdmits) ?_
    rintro (hSame | ⟨-, hFeasible⟩)
    · rw [hSame]
      exact hv.admits hρ
    · refine Fact.admits_null_of_meet (hv.admits hρ) hAdmits fun hBottom => ?_
      rw [hBottom, State.meetFact_bottom] at hFeasible
      cases hFeasible

/-- The report of a cast changes no value. -/
theorem yields_castReport {n : Narrowing} {rest' : Step (List Item)}
    {Q : List Item → Session → Prop} (hStack : ∃ r, n.state.stack = r :: rest ∧ r < σ.arena.size)
    (h : ∀ τ, τ.arena = σ.arena → Yields rest' τ Q) : Yields (do
      if anchor.isSome then
        let v ← peek index n.state
        report (anchor.map .classCast) v (if n.feasible then .unsure else .alwaysFails) n.state
      rest') σ Q := by
  obtain ⟨r, hTop, -⟩ := hStack
  dsimp only
  split
  · rw [peek_of_stack hTop, yields_bind, yields_pure, yields_bind, yields_report]
    refine h _ ?_
    cases anchor.map Problem.classCast <;> rfl
  · exact h σ rfl

/-- **What fails a cast**: an object of another type is not null, and no instance. -/
theorem satisfies_applyAll_notInstance {a : Arena} {null target : ValueId}
    (hArena : a.Coherent w.types) (hState : s.Coherent w.types a) (hρ : s.Satisfies w a ρ)
    (hv : Denotes w a ρ v (.object o)) (hOrders : w.Orders o) (ht : w.types.Declares t)
    (hRef : t.isPrimitive = false) (hClass : (w.classOf o).isSubtypeOf t = false)
    (hNull : a.isVariable null = false ∧ a.inherent null = .null)
    (hTarget : a.isVariable target = false ∧ a.inherent target = .ofType t .notNull) :
    (applyAll a [.of a v .ne null, .of a v .notInstanceOf target] s).feasible = true ∧
      (applyAll a [.of a v .ne null, .of a v .notInstanceOf target] s).state.Satisfies w a ρ := by
  have hNullFact : s.fact a null = .null := by
    rw [State.fact_of_not_variable hNull.1, hNull.2]
  obtain ⟨hFeasible, hNext⟩ :=
    State.satisfies_apply_notNull hArena hState hρ hv hOrders hNullFact hNull.1
  have hTargetFact : (s.apply a (.of a v .ne null)).state.fact a target = .ofType t .notNull := by
    rw [State.fact_of_not_variable hTarget.1, hTarget.2]
  have hLast := State.satisfies_apply_notInstance hArena
    ((State.coherent_invariant hArena).apply hState _) hNext hv hOrders ht hRef hClass hTargetFact
  simp only [applyAll, hFeasible, hLast.1, if_true]
  exact ⟨trivial, hLast.2⟩

/-- **What passes a cast** goes on at the next instruction: an object of the type, with or without a
transfer, and null if there is no transfer or if the value survives, as it does where an object of the
type could be in the place of null. Only the lengths of null may be narrowed away. -/
structure CastPasses (w : World) (a b : Arena) (index : Nat) (s : State) (v : ValueId)
    (t : TypeDesc) (onFail : Option Transfer) (rest : List ValueId) (ρ : ValueId → Concrete)
    (items : List Item) : Prop where
  object   : ∀ o, Denotes w a ρ v (.object o) → w.Orders o → (w.classOf o).isSubtypeOf t = true →
    ∃ it ∈ items, it.index = index + 1 ∧ Held w b ρ (fun _ => False) rest (.object o) it.state
  null     : Denotes w a ρ v .null → s.Declarable w a v →
    onFail = none ∨ s.Survives a v (.ofType t .unknown) →
    ∃ it ∈ items, it.index = index + 1 ∧ Held w b ρ (s.NullLength a ρ v v) rest .null it.state
  survives : ∀ o, Denotes w a ρ v .null → w.Orders o → (w.classOf o).isSubtypeOf t = true →
    s.InCompany w a o v .null → (s.fact a v).Admits w (.object o) →
    s.Survives a v (.ofType t .unknown)

/-- **What fails a cast** goes on at the target of the transfer: an object of another type. -/
def CastFails (w : World) (a b : Arena) (v : ValueId) (t : TypeDesc) (onFail : Option Transfer)
    (ρ : ValueId → Concrete) (items : List Item) : Prop :=
  ∀ o target, Denotes w a ρ v (.object o) → w.Orders o → (w.classOf o).isSubtypeOf t = false →
    onFail = some (.goto target) → ∃ it ∈ items, it.index = target ∧
      it.state.isEphemeral = true ∧ it.state.stack = [] ∧ it.state.Satisfies w b ρ

/-- What passes goes on, whatever else is in the list and in the arena. -/
theorem TopNarrowed.castPasses {a b c : Arena} {n : Narrowing} {others : List Item}
    (h : TopNarrowed w a b s v (.ofType t .unknown) rest n) (hArena : a.Coherent w.types)
    (hState : s.Coherent w.types a) (ht : w.types.Declares t) (hRef : t.isPrimitive = false)
    (hGrows : b.Grows c) (hρ : s.Satisfies w a ρ) :
    CastPasses w a c index s v t onFail rest ρ
      ((if (n.feasible && true || onFail.isNone) = true then [next index n.state] else []) ++
        others) := by
  have hKeeps := h.castKeeps hArena hState ht hRef
  have hPasses : ∀ exempt x, Held w b ρ exempt rest x n.state → n.feasible = true ∨ onFail = none →
      ∃ it ∈ (if (n.feasible && true || onFail.isNone) = true then [next index n.state] else []) ++
        others, it.index = index + 1 ∧ Held w c ρ exempt rest x it.state := by
    intro exempt x hHeld hPass
    have hTest : (n.feasible && true || onFail.isNone) = true := by
      rcases hPass with hPass | rfl
      · rw [hPass]
        rfl
      · exact Bool.or_true _
    rw [if_pos hTest]
    exact ⟨_, List.mem_append_left _ (List.mem_singleton.mpr rfl), rfl,
      hHeld.grows h.extends_arena.coherent hGrows h.stack⟩
  constructor
  · intro o hv hOrders hClass
    obtain ⟨hFeasible, hHeld⟩ := hKeeps.object ρ o hρ hv hOrders hClass
    exact hPasses _ _ hHeld (Or.inl hFeasible)
  · intro hv hDeclarable hPass
    exact hPasses _ _ (hKeeps.null ρ hρ hv hDeclarable) (hPass.symm.imp_left h.feasible.mpr)
  · intro o hv hOrders hClass hCompany hObject
    have hOrdered : Fact.Ordered w o .null := by
      rintro p (hp | ⟨-, rfl⟩)
      · cases hp
      · exact hOrders
    exact State.survives_of_keeps hArena hState hρ hv
      (Or.inl ⟨rfl, hObject, Fact.admits_ofType_object ht hRef nofun hClass⟩) hOrdered hCompany
      (Fact.over_ofType ht) (Fact.admits_ofType_null hRef nofun)

/-- A cast loses nothing that passes it, whatever the value is that the top of the stack stands for. -/
def PassesOn (w : World) (a : Arena) (s : State) (t : TypeDesc) (onFail : Option Transfer) : Prop :=
  Reached w.types a s → ∀ ρ v rest x, s.stack = v :: rest → s.Satisfies w a ρ →
    Denotes w a ρ v x → (x = .null ∨ ∃ o, x = .object o ∧ (w.classOf o).isSubtypeOf t = true) →
    Yields (perform usualContext 0 s (.cast t true onFail none)) (.start a) fun items τ =>
      ∃ it ∈ items, it.index = 1 ∧ it.state.Satisfies w τ.arena ρ

/-- Where the items of a cast go on, and with which fact on a variable. -/
def castItems (a : Arena) (s : State) (t : TypeDesc) (onFail : Option Transfer) (m : ValueId) :
    List (Nat × Bool × Fact) :=
  match perform usualContext 0 s (.cast t true onFail none) (.start a) with
  | .ok items τ => items.map fun it => (it.index, τ.arena.isVariable m, it.state.fact τ.arena m)
  | .error _ _ => []

/-- What passes is seen. -/
theorem PassesOn.observed {a : Arena} (h : PassesOn w a s t onFail)
    (hReached : Reached w.types a s) (hStack : s.stack = v :: rest) (hρ : s.Satisfies w a ρ)
    (hv : Denotes w a ρ v x)
    (hPasses : x = .null ∨ ∃ o, x = .object o ∧ (w.classOf o).isSubtypeOf t = true)
    (m : ValueId) :
    ∃ p ∈ castItems a s t onFail m, p.1 = 1 ∧ (p.2.1 = true → p.2.2.Admits w (ρ m)) := by
  obtain ⟨items, τ, hRun, it, hit, hIndex, hSatisfies⟩ :=
    h hReached ρ v rest x hStack hρ hv hPasses
  unfold castItems
  rw [hRun]
  exact ⟨_, List.mem_map_of_mem hit, hIndex, fun hVariable => hSatisfies.admits hVariable nofun⟩

/-- An array, its length, and another array. -/
def twins : Arena :=
  (((Arena.new.var (.localVar "x" false) none .unknownRef).2.var (.length .array) (some 1)
    (.int .lengths)).2.var (.localVar "y" false) none .unknownRef).2

/-- The arrays are equal, and one of them is known to be of length 3, if it is not null. -/
def twinsEqual : State :=
  ((State.initial.apply twins (.relation 1 .eq 3)).state.setFact twins 3
    (Fact.unknownRef.withLength .array (.ofInt 3))).push 3

theorem evaluated_twins :
    (Arena.new.var (.localVar "x" false) none .unknownRef).2.size = 2 ∧ twins.allVars = [1, 2, 3] ∧
      twins.isVariable 3 = true ∧ twinsEqual.stack = [3] ∧ twinsEqual.links.toList = [⟨1, .eq, 3⟩] ∧
      twinsEqual.fact twins 1 = .unknownRef ∧ twinsEqual.fact twins 2 = .int .lengths ∧
      twinsEqual.fact twins 3 = Fact.unknownRef.withLength .array (.ofInt 3) := by
  decide +kernel

/-- What is seen of the casts. -/
theorem evaluated_casts :
    (castItems State.nullables (State.initial.push 1) .classObject (some (.goto 7)) 0).map
        Prod.fst = [7] ∧
      castItems twins twinsEqual .classObject none 2 = [(1, true, .ofInt 3)] ∧
      (castItems State.interfaces (State.initial.push 1) (.array (.ofClass "J" [] false))
        (some (.goto 7)) 0).map Prod.fst = [7] := by
  decide +kernel

theorem reached_twinsEqual : Reached State.plainWorld.types twins twinsEqual := by
  have hOver : (Fact.unknownRef.withLength .array (.ofInt 3)).Over State.plainWorld.types :=
    Fact.over_withLength Fact.over_ofNullness
  have hReached : Reached State.plainWorld.types twins .initial :=
    .intern _ (.intern _ (.intern _ .start ⟨Fact.over_ofNullness, by rintro y q ⟨⟩ ⟨⟩⟩)
      ⟨Fact.over_of_info rfl, by rintro y q ⟨⟩ ⟨⟩; rw [evaluated_twins.1]; decide⟩)
      ⟨Fact.over_ofNullness, by rintro y q ⟨⟩ ⟨⟩⟩
  exact .same (.store 3 _ (.apply _ hReached) hOver) rfl rfl

/-- The arrays are null, and the variable for their length is some integer. -/
def nullTwins : ValueId → Concrete := fun v => if v = 2 then .int 2 (by decide) else .null

theorem satisfies_twinsEqual : twinsEqual.Satisfies State.plainWorld twins nullTwins := by
  obtain ⟨-, hVars, -, -, hLinks, hX, hLength, hY⟩ := evaluated_twins
  refine ⟨fun hv _ => ?_, fun _ _ _ hNone => (by cases hNone), fun l hl => ?_⟩
  · have hMem := Arena.mem_allVars.mpr hv
    rw [hVars] at hMem
    simp only [List.mem_cons, List.not_mem_nil, or_false] at hMem
    rcases hMem with rfl | rfl | rfl
    · rw [hX]
      exact Fact.admits_null.mpr ⟨nofun, rfl⟩
    · rw [hLength]
      exact Fact.admits_int.mpr (by decide)
    · rw [hY]
      exact Fact.admits_null.mpr ⟨nofun, rfl⟩
  · have hMem : l ∈ twinsEqual.links.toList := hl
    rw [hLinks] at hMem
    rw [List.mem_singleton.mp hMem]
    rfl

theorem not_passesOn_null :
    ¬ PassesOn State.plainWorld State.nullables (State.initial.push 1) .classObject
      (some (.goto 7)) := by
  intro h
  obtain ⟨p, hp, hIndex, -⟩ := h.observed (.same State.reached_nullables rfl rfl) rfl
    (State.satisfies_nullables.congr rfl rfl) (State.denotes_nullables (ρ := fun _ => .null)).1
    (Or.inl rfl) 0
  have hMem := List.mem_map_of_mem (f := Prod.fst) hp
  rw [evaluated_casts.1] at hMem
  rw [List.mem_singleton.mp hMem] at hIndex
  cases hIndex

theorem not_passesOn_length : ¬ PassesOn State.plainWorld twins twinsEqual .classObject none := by
  intro h
  obtain ⟨-, -, hVariable, hStack, -⟩ := evaluated_twins
  obtain ⟨p, hp, -, hAdmits⟩ := h.observed reached_twinsEqual hStack satisfies_twinsEqual
    (.of_variable hVariable rfl) (Or.inl rfl) 2
  rw [evaluated_casts.2.1] at hp
  rw [List.mem_singleton.mp hp] at hAdmits
  exact absurd (Fact.admits_int.mp (hAdmits rfl)) (by decide)

theorem not_passesOn_arrays :
    ¬ PassesOn State.arrayWorld State.interfaces (State.initial.push 1)
      (.array (.ofClass "J" [] false)) (some (.goto 7)) := by
  intro h
  obtain ⟨-, -, -, -, -, -, hClass, -⟩ := State.evaluated_interfaces
  obtain ⟨p, hp, hIndex, -⟩ := h.observed (.same State.reached_interfaces rfl rfl) rfl
    (State.satisfies_interfaces.congr rfl rfl) (State.denotes_interfaces (ρ := fun _ => .null)).1
    (Or.inr ⟨0, rfl, hClass⟩) 0
  have hMem := List.mem_map_of_mem (f := Prod.fst) hp
  rw [evaluated_casts.2.2] at hMem
  rw [List.mem_singleton.mp hMem] at hIndex
  cases hIndex

end Step

end Pathwise
