import Pathwise.Proofs.Feasibility
import Pathwise.Proofs.Growth
import Pathwise.Proofs.Stacks
import Pathwise.Proofs.Steps

/-!
# Comparisons cover their outcomes

A comparison splits a state, and no outcome is lost: whatever values its operands stand for,
if the comparison of the two is true, or false, then the valuation goes on in a state that says
so, or leaves it open.

The split is into relations tried one by one, so the proof follows the relation that does
hold of the two values: every other one is either undecided or decided to fail, and hence
does not cut the search short. What holds is then feasible by what is known of conditions.

The provisos are those of conditions, `State.Compared`. A NaN is in no order relation, so none
of them covers it; the values compared by order are ordered.

## Results

* `covers_compareCases`, `covers_compareByContent` — the two ways to compare.
* `perform_relation_covers`   — comparisons cover their outcomes.
* `comparisons_lose_outcomes` — each proviso is needed.
-/

namespace Pathwise

-- ---------------------------------------------------------------------------
-- The relation that holds
-- ---------------------------------------------------------------------------

namespace Relation

variable {rel sub : Relation} {m n : Int} {b : Bool}

/-- Two integers are in one of the primitive relations. -/
theorem exists_primitive (m n : Int) : ∃ sub ∈ [lt, gt, eq], HoldsOfInts sub m n := by
  rcases Int.lt_trichotomy m n with h | h | h
  · exact ⟨lt, by simp, h⟩
  · exact ⟨eq, by simp, h⟩
  · exact ⟨gt, by simp, h⟩

/-- A comparison of integers is true or false as its primitive relation tells. -/
theorem impliedBy_of_ints (hOrdering : rel.isOrdering = true) (hSub : sub ∈ [lt, gt, eq])
    (h : HoldsOfInts (if b then rel else rel.negated) m n) (hHolds : sub.HoldsOfInts m n) :
    rel.impliedBy sub = b := by
  simp only [List.mem_cons, List.not_mem_nil, or_false] at hSub
  rcases hSub with rfl | rfl | rfl <;> cases rel <;> cases b <;>
    first
    | rfl
    | (cases hOrdering; done)
    | (simp only [HoldsOfInts, negated, if_true, Bool.false_eq_true, if_false] at h hHolds
       omega)

/-- A relation that does not hold of two integers fails. -/
theorem holds_or_negated (hSub : sub ∈ [lt, gt, eq]) :
    sub.HoldsOfInts m n ∨ sub.negated.HoldsOfInts m n := by
  simp only [List.mem_cons, List.not_mem_nil, or_false] at hSub
  rcases hSub with rfl | rfl | rfl <;> simp only [HoldsOfInts, negated] <;> omega

end Relation

namespace Concrete

variable {rel : Relation} {x y : Concrete}

/-- Values that compare by order are numbers. -/
theorem exists_ints (hOrdering : rel.isOrdering = true) (h : Holds rel x y) :
    ∃ m n, ∀ r, Holds r x y ↔ r.HoldsOfInts m n := by
  have hNe : rel ≠ .ne ∧ rel ≠ .eq := by
    constructor <;> rintro rfl <;> cases hOrdering
  cases x with
  | int m hm =>
    cases y with
    | int n hn => exact ⟨m, n, fun _ => Iff.rfl⟩
    | _ => exact False.elim h
  | double c =>
    cases y with
    | double d =>
      cases c with
      | none => exact absurd h hNe.1
      | some c =>
        cases d with
        | none => exact absurd h hNe.1
        | some d => exact ⟨c.key, d.key, fun _ => Iff.rfl⟩
    | _ => cases c <;> exact False.elim h
  | bool c =>
    cases y with
    | bool d => exact h.elim (absurd ·.1 hNe.2) (absurd ·.1 hNe.1)
    | _ => exact False.elim h
  | null =>
    cases y with
    | null => exact absurd h hNe.2
    | object q => exact absurd h hNe.1
    | _ => exact False.elim h
  | object p =>
    cases y with
    | null => exact absurd h hNe.1
    | object q => exact h.elim (absurd ·.1 hNe.2) (absurd ·.1 hNe.1)
    | _ => exact False.elim h

/-- **Of the relations to try** one holds, and it has the outcome of the comparison. Those that
do not hold fail. -/
theorem cases_of_holds {b : Bool} (h : Holds (if b then rel else rel.negated) x y) :
    (∃ sub ∈ rel.cases, Holds sub x y ∧ rel.impliedBy sub = b) ∧
      ∀ sub ∈ rel.cases, Holds sub x y ∧ rel.impliedBy sub = b ∨ Holds sub.negated x y := by
  by_cases hOrdering : rel.isOrdering = true
  · have hOutcome : (if b then rel else rel.negated).isOrdering = true := by
      cases b <;> cases rel <;> first | rfl | cases hOrdering
    obtain ⟨m, n, hInts⟩ := exists_ints hOutcome h
    have hCases : rel.cases = [.lt, .gt, .eq] := by rw [Relation.cases, if_pos hOrdering]
    have hImplied : ∀ {sub}, sub ∈ [Relation.lt, .gt, .eq] → Holds sub x y →
        rel.impliedBy sub = b := fun hSub hHolds =>
      Relation.impliedBy_of_ints hOrdering hSub ((hInts _).mp h) ((hInts _).mp hHolds)
    rw [hCases]
    constructor
    · obtain ⟨sub, hSub, hHolds⟩ := Relation.exists_primitive m n
      have hHolds := (hInts sub).mpr hHolds
      exact ⟨sub, hSub, hHolds, hImplied hSub hHolds⟩
    · intro sub hSub
      rcases Relation.holds_or_negated (m := m) (n := n) hSub with hHolds | hFails
      · have hHolds := (hInts sub).mpr hHolds
        exact Or.inl ⟨hHolds, hImplied hSub hHolds⟩
      · exact Or.inr ((hInts _).mpr hFails)
  · have hCases : rel.cases = [rel, rel.negated] := by rw [Relation.cases, if_neg hOrdering]
    have hImplied : rel.impliedBy rel = true ∧ rel.impliedBy rel.negated = false := by
      cases rel <;> exact ⟨rfl, rfl⟩
    rw [hCases]
    cases b with
    | true =>
      refine ⟨⟨rel, List.mem_cons_self, h, hImplied.1⟩, ?_⟩
      intro sub hSub
      simp only [List.mem_cons, List.not_mem_nil, or_false] at hSub
      rcases hSub with rfl | rfl
      · exact Or.inl ⟨h, hImplied.1⟩
      · exact Or.inr (by rw [Relation.negated_negated]; exact h)
    | false =>
      refine ⟨⟨rel.negated, by simp, h, hImplied.2⟩, ?_⟩
      intro sub hSub
      simp only [List.mem_cons, List.not_mem_nil, or_false] at hSub
      rcases hSub with rfl | rfl
      · exact Or.inr h
      · exact Or.inl ⟨h, hImplied.2⟩

end Concrete

-- ---------------------------------------------------------------------------
-- What is compared
-- ---------------------------------------------------------------------------

namespace State

variable {w : World} {a b : Arena} {s : State} {ρ : ValueId → Concrete} {rel r : Relation}
  {u v m : ValueId} {x y : Concrete} {o : Nat}

theorem InCompany.grows (h : s.InCompany w a o v x) (hArena : a.Coherent w.types)
    (hState : s.Coherent w.types a) (hGrows : a.Grows b) (hv : v < a.size) :
    s.InCompany w b o v x := by
  intro hNull m hm
  have hOld : m < a.size := by
    rcases isVariable_of_mem_equalClass hState hm with rfl | hVariable
    · exact hv
    · exact Arena.lt_of_isVariable hVariable
  rw [fact_grows hArena hGrows hOld]
  exact h hNull m hm

/-- What is compared stays as it is while the arena grows. -/
theorem Compared.grows (h : s.Compared w a ρ o u x rel v y) (hArena : a.Coherent w.types)
    (hState : s.Coherent w.types a) (hGrows : a.Grows b) (hu : u < a.size) (hv : v < a.size) :
    s.Compared w b ρ o u x rel v y := by
  refine ⟨h.left.grows hGrows hu, h.right.grows hGrows hv, h.holds, ?_, h.ordered, ?_⟩
  · rw [fact_grows hArena hGrows hu]
    exact h.same
  · rw [fact_grows hArena hGrows hu, fact_grows hArena hGrows hv]
    intro hLeft hRight
    obtain ⟨hOrders, hLeftCompany, hRightCompany⟩ := h.company hLeft hRight
    exact ⟨hOrders, hLeftCompany.grows hArena hState hGrows hu,
      hRightCompany.grows hArena hState hGrows hv⟩

/-- No more lengths are exempt in a larger arena. -/
theorem unmeasured_grows (hArena : a.Coherent w.types) (hGrows : a.Grows b) (hu : u < a.size)
    (hv : v < a.size) (h : s.Unmeasured b ρ u v m) : s.Unmeasured a ρ u v m := by
  obtain ⟨hLeft, hRight, l, q, hNarrows, hNull, hLength⟩ := h
  rw [fact_grows hArena hGrows hu] at hLeft
  rw [fact_grows hArena hGrows hv] at hRight
  rw [Narrows, hGrows.isVariable, hGrows.isVariable] at hNarrows
  exact ⟨hLeft, hRight, l, q, hNarrows, hNull, hGrows.lengthOf.mp hLength⟩

/-- **Conditions on what is compared**: one that holds is feasible in a larger arena too, and so
is the negation of one that fails. -/
theorem Compared.fits_apply (h : s.Compared w a ρ o u x rel v y) (hArena : a.Coherent w.types)
    (hState : s.Coherent w.types a) (hρ : s.Satisfies w a ρ) (hExtends : Arena.Extends w.types a b)
    (hu : u < a.size) (hv : v < a.size) {c : Condition}
    (hc : c = .of b u r v ∧ Concrete.Holds r x y ∨
      c = (Condition.of b u r v).negated ∧ Concrete.Holds r.negated x y) :
    (s.apply b c).feasible = true ∧
      (s.apply b c).state.Fits w b ρ (s.Unmeasured a ρ u v) := by
  obtain ⟨hGrows, hNext⟩ := hExtends
  have hState' := coherent_grows hGrows hState
  have hρ' := (satisfies_grows hArena hGrows).mpr hρ
  have h := h.grows hArena hState hGrows hu hv
  have hKept := h.kept hState' hρ'
  have hScope := h.scope hNext hState' hρ'
  have hOperands := h.operands hNext hState' hρ'
  have hResult : (s.apply b c).feasible = true ∧ Kept w b ρ (fun _ => o)
      (s.NarrowsInCompany b ρ u v) (s.Unmeasured b ρ u v) (s.apply b c).state := by
    rcases hc with ⟨rfl, hHolds⟩ | ⟨rfl, hFails⟩
    · exact kept_apply_of hNext hScope hKept hOperands ⟨hHolds, h.same⟩
    · exact kept_apply_negated hNext hScope hKept hOperands ⟨hFails, h.same⟩
  exact ⟨hResult.1, hResult.2.fits.mono fun m => unmeasured_grows hArena hGrows hu hv⟩

end State

-- ---------------------------------------------------------------------------
-- The two ways to compare
-- ---------------------------------------------------------------------------

namespace Step

variable {H : Hierarchy} {ctx : Context} {index : Nat} {anchor : Option Anchor} {s : State}
  {σ : Session} {w : World} {ρ : ValueId → Concrete} {rel : Relation} {u v : ValueId}
  {x y : Concrete} {o : Nat} {b : Bool}

/-- The result of a branching instruction is the outcome, or the unknown value. -/
theorem grows_booleanResult {outcome : Option Bool} (hArena : σ.arena.Coherent H)
    (hFounded : σ.arena.Founded) :
    Yields (booleanResult index anchor s outcome) σ fun it τ =>
      Arena.Extends H σ.arena τ.arena ∧ ∃ r, it = next index (s.push r) ∧ r < τ.arena.size ∧
        ∀ t : State, (t.fact τ.arena r).bool? = outcome := by
  have hRest : ∀ (r : ValueId) (τ : Session), Arena.Extends H σ.arena τ.arena →
      r < τ.arena.size → (∀ t : State, (t.fact τ.arena r).bool? = outcome) →
      Yields (do
        reach index s outcome
        return next index (← pushResult anchor r s)) τ fun it τ =>
        Arena.Extends H σ.arena τ.arena ∧ ∃ r, it = next index (s.push r) ∧ r < τ.arena.size ∧
          ∀ t : State, (t.fact τ.arena r).bool? = outcome := by
    intro r τ hExtends hr hOutcome
    simp only [yields_bind, yields_reach, yields_pushResult, yields_pure]
    have hSame : ∀ τ' : Session, τ'.arena = τ.arena → Arena.Extends H σ.arena τ'.arena ∧
        ∃ r', next index (s.push r) = next index (s.push r') ∧ r' < τ'.arena.size ∧
          ∀ t : State, (t.fact τ'.arena r').bool? = outcome := by
      intro τ' hEq
      rw [hEq]
      exact ⟨hExtends, r, rfl, hr, hOutcome⟩
    refine hSame _ ?_
    cases anchor <;> dsimp only <;> split <;> rfl
  unfold booleanResult
  cases outcome with
  | none =>
    refine yields_bind.mpr (yields_pure.mpr (hRest _ σ (.refl hArena) hFounded.1 fun t => ?_))
    rw [State.fact_unknown hFounded]
    rfl
  | some c =>
    refine yields_bind.mpr (yields_intern.mpr (hRest _ _ ?_ Arena.lt_size_intern fun t => ?_))
    · exact Arena.extends_typed hArena (Fact.over_of_info rfl)
    · show (t.fact (σ.arena.typed (.ofBool c)).2 (σ.arena.typed (.ofBool c)).1).bool? = some c
      rw [State.fact_typed]
      rfl

/-- The item of an outcome whose condition is feasible. -/
theorem grows_outcomeIf {c : Condition} {outcome : Option Bool} (hArena : σ.arena.Coherent H)
    (hFounded : σ.arena.Founded) :
    Yields (outcomeIf index anchor s c outcome) σ fun items τ =>
      Arena.Extends H σ.arena τ.arena ∧ ((s.apply σ.arena c).feasible = true →
        ∃ r, items = [next index ((s.apply σ.arena c).state.push r)] ∧ r < τ.arena.size ∧
          ∀ t : State, (t.fact τ.arena r).bool? = outcome) := by
  unfold outcomeIf
  rw [yields_bind, yields_apply]
  split
  · refine (grows_booleanResult hArena hFounded).bind fun it τ h => ?_
    obtain ⟨hExtends, r, rfl, hr⟩ := h
    exact yields_pure.mpr ⟨hExtends, fun _ => ⟨r, rfl, hr⟩⟩
  · rename_i hNot
    exact yields_pure.mpr ⟨.refl hArena, fun h => absurd h hNot⟩

/-- **An item covers an outcome**: the valuation goes on in it, and the top of the stack is the
outcome, or no known boolean. -/
structure Covers (w : World) (ρ : ValueId → Concrete) (exempt : ValueId → Prop) (index : Nat)
    (stack : List ValueId) (b : Bool) (a : Arena) (it : Item) : Prop where
  index : it.index = index + 1
  fits  : it.state.Fits w a ρ exempt
  top   : ∃ r < a.size, it.state.stack = r :: stack ∧
    ((it.state.fact a r).bool? = some b ∨ (it.state.fact a r).bool? = none)

/-- An item that covers an outcome still does when the arena has grown. -/
theorem Covers.grows {exempt : ValueId → Prop} {stack : List ValueId} {a a' : Arena} {it : Item}
    (h : Covers w ρ exempt index stack b a it) (hArena : a.Coherent w.types)
    (hGrows : a.Grows a') : Covers w ρ exempt index stack b a' it := by
  obtain ⟨r, hr, hStack, hOutcome⟩ := h.top
  refine ⟨h.index, (State.fits_grows hArena hGrows).mpr h.fits, r,
    Nat.lt_of_lt_of_le hr hGrows.size, hStack, ?_⟩
  rw [State.fact_grows hArena hGrows hr]
  exact hOutcome

section

variable {a : Arena} (h : s.Compared w a ρ o u x rel v y) (hArena : a.Coherent w.types)
  (hState : s.Coherent w.types a) (hρ : s.Satisfies w a ρ) (hFounded : a.Founded)
  (hu : u < a.size) (hv : v < a.size)
include h hArena hState hρ hFounded hu hv

/-- **The item of a relation that holds**, or of one that fails, covers its outcome. -/
theorem covers_outcomeIf {r : Relation} {c : Condition} {outcome : Option Bool}
    (hExtends : Arena.Extends w.types a σ.arena)
    (hc : c = .of σ.arena u r v ∧ Concrete.Holds r x y ∨
      c = (Condition.of σ.arena u r v).negated ∧ Concrete.Holds r.negated x y)
    (hOutcome : outcome = some b ∨ outcome = none) :
    Yields (outcomeIf index anchor s c outcome) σ fun items τ =>
      Arena.Extends w.types a τ.arena ∧
        ∃ it ∈ items, Covers w ρ (s.Unmeasured a ρ u v) index s.stack b τ.arena it := by
  obtain ⟨hFeasible, hFits⟩ := h.fits_apply hArena hState hρ hExtends hu hv hc
  refine (grows_outcomeIf hExtends.coherent (hFounded.grows hExtends.grows)).mono ?_
  rintro items τ ⟨hNext, hItem⟩
  obtain ⟨r, rfl, hr, hTop⟩ := hItem hFeasible
  refine ⟨hExtends.trans hNext, _, List.mem_singleton_self _, rfl, ?_, r, hr, ?_, ?_⟩
  · exact ((State.fits_grows hExtends.coherent hNext.grows).mpr hFits).congr rfl rfl
  · show r :: (s.apply σ.arena c).state.stack = r :: s.stack
    rw [State.frame_apply.stack]
  · rw [hTop]
    exact hOutcome

/-- **Relations tried one by one.** The induction is on the relations: the one that holds is
still to come, or its item was found. -/
theorem covers_compareCases {q : Relation} (subs : List Relation) (found : List Item)
    (hExtends : Arena.Extends w.types a σ.arena)
    (hCases : ∀ sub ∈ subs, Concrete.Holds sub x y ∧ q.impliedBy sub = b ∨
      Concrete.Holds sub.negated x y)
    (hSome : (∃ it ∈ found, Covers w ρ (s.Unmeasured a ρ u v) index s.stack b σ.arena it) ∨
      ∃ sub ∈ subs, Concrete.Holds sub x y ∧ q.impliedBy sub = b) :
    Yields (compareCases index q u v anchor s subs found) σ fun items τ =>
      ∃ it ∈ items, Covers w ρ (s.Unmeasured a ρ u v) index s.stack b τ.arena it := by
  induction subs generalizing found σ with
  | nil =>
    refine yields_pure.mpr (hSome.resolve_right ?_)
    rintro ⟨sub, hSub, -⟩
    cases hSub
  | cons sub subs ih =>
    have hFeasible := fun {c : Condition} => h.fits_apply (r := sub) (c := c) hArena hState hρ
      hExtends hu hv
    have hRest : ∀ sub' ∈ subs, Concrete.Holds sub' x y ∧ q.impliedBy sub' = b ∨
        Concrete.Holds sub'.negated x y := fun sub' h' => hCases sub' (List.mem_cons_of_mem _ h')
    unfold compareCases
    rw [yields_bind, yields_condition]
    generalize hc : Condition.of σ.arena u sub v = c at hFeasible
    cases c with
    | never =>
      -- a relation that never holds is not the one that does
      refine ih found hExtends hRest (hSome.imp_right ?_)
      rintro ⟨sub', hSub, hHolds⟩
      rcases List.mem_cons.mp hSub with rfl | hSub
      · exact absurd (hFeasible (Or.inl ⟨rfl, hHolds.1⟩)).1 Bool.false_ne_true
      · exact ⟨sub', hSub, hHolds⟩
    | always =>
      -- a relation that always holds is the one that does
      rcases hCases sub List.mem_cons_self with ⟨hHolds, hOutcome⟩ | hFails
      · have hFits := (hFeasible (Or.inl ⟨rfl, hHolds⟩)).2
        refine (grows_booleanResult hExtends.coherent
          (hFounded.grows hExtends.grows)).bind fun it τ hItem => yields_pure.mpr ?_
        obtain ⟨hNext, r, rfl, hr, hTop⟩ := hItem
        refine ⟨_, List.mem_singleton_self _, rfl, ?_, r, hr, rfl, Or.inl ?_⟩
        · exact ((State.fits_grows hExtends.coherent hNext.grows).mpr hFits).congr rfl rfl
        · rw [hTop, hOutcome]
      · exact absurd (hFeasible (Or.inr ⟨rfl, hFails⟩)).1 Bool.false_ne_true
    | relation l r' m =>
      dsimp only
      by_cases hHolds : Concrete.Holds sub x y ∧ q.impliedBy sub = b
      · refine (covers_outcomeIf h hArena hState hρ hFounded hu hv hExtends
          (Or.inl ⟨hc.symm, hHolds.1⟩) (Or.inl (congrArg some hHolds.2))).bind
          fun items τ hItems => ?_
        obtain ⟨hNext, it, hit, hCovers⟩ := hItems
        exact ih _ hNext hRest (Or.inl ⟨it, List.mem_append_right _ hit, hCovers⟩)
      · refine (grows_outcomeIf (H := w.types) hExtends.coherent
          (hFounded.grows hExtends.grows)).bind fun items τ hItems => ?_
        obtain ⟨hNext, -⟩ := hItems
        refine ih _ (hExtends.trans hNext) hRest ?_
        rcases hSome with ⟨it, hit, hCovers⟩ | ⟨sub', hSub, hHolds'⟩
        · exact Or.inl ⟨it, List.mem_append_left _ hit,
            hCovers.grows hExtends.coherent hNext.grows⟩
        · rcases List.mem_cons.mp hSub with rfl | hSub
          · exact absurd hHolds' hHolds
          · exact Or.inr ⟨sub', hSub, hHolds'⟩

/-- **References to values compared by content**: equal ones leave the result open. -/
theorem covers_compareByContent {q : Relation} (hStart : σ.arena = a)
    (hHolds : Concrete.Holds .eq x y ∨ Concrete.Holds .ne x y ∧ (q == .ne) = b) :
    Yields (compareByContent index q u v anchor s) σ fun items τ =>
      ∃ it ∈ items, Covers w ρ (s.Unmeasured a ρ u v) index s.stack b τ.arena it := by
  subst hStart
  unfold compareByContent
  rw [yields_bind, yields_condition]
  rcases hHolds with hEqual | ⟨hDiffers, hOutcome⟩
  · refine (covers_outcomeIf (b := b) h hArena hState hρ hFounded hu hv (.refl hArena)
      (Or.inl ⟨rfl, hEqual⟩) (Or.inr rfl)).bind fun equal τ hItems => ?_
    obtain ⟨hNext, it, hit, hCovers⟩ := hItems
    refine (grows_outcomeIf hNext.coherent (hFounded.grows hNext.grows)).bind
      fun different τ' hLast => yields_pure.mpr ?_
    exact ⟨it, List.mem_append_left _ hit, hCovers.grows hNext.coherent hLast.1.grows⟩
  · refine (grows_outcomeIf (H := w.types) hArena hFounded).bind fun equal τ hItems => ?_
    obtain ⟨hNext, -⟩ := hItems
    rw [← hNext.grows.of_eq hu hv]
    refine (covers_outcomeIf (r := .eq) h hArena hState hρ hFounded hu hv hNext
      (Or.inr ⟨rfl, hDiffers⟩) (Or.inl (congrArg some hOutcome))).bind fun different τ' hLast =>
        yields_pure.mpr ?_
    obtain ⟨-, it, hit, hCovers⟩ := hLast
    exact ⟨it, List.mem_append_right _ hit, hCovers⟩

end

/-- **A comparison covers its outcome**, whichever way the values are compared. -/
theorem covers_compare (hArena : σ.arena.Coherent w.types) (hState : s.Coherent w.types σ.arena)
    (hρ : s.Satisfies w σ.arena ρ) (hFounded : σ.arena.Founded) (hu : u < σ.arena.size)
    (hv : v < σ.arena.size)
    (h : s.Compared w σ.arena ρ o u x (if b then rel else rel.negated) v y) :
    Yields (compare index rel u v anchor s) σ fun items τ =>
      ∃ it ∈ items, Covers w ρ (s.Unmeasured σ.arena ρ u v) index s.stack b τ.arena it := by
  obtain ⟨hSome, hCases⟩ := Concrete.cases_of_holds h.holds
  unfold compare
  rw [yields_bind, yields_arena]
  dsimp only
  split
  · rename_i hByContent
    have hEquality : rel = .eq ∨ rel = .ne := by
      simp only [Bool.and_eq_true, Bool.or_eq_true, beq_iff_eq] at hByContent
      exact hByContent.1.1
    refine covers_compareByContent h hArena hState hρ hFounded hu hv rfl ?_
    have hHolds := h.holds
    rcases hEquality with rfl | rfl <;> cases b
    · exact Or.inr ⟨hHolds, rfl⟩
    · exact Or.inl hHolds
    · exact Or.inl hHolds
    · exact Or.inr ⟨hHolds, rfl⟩
  · -- a NaN has an item of its own, and leaves the arena coherent
    have hRest : ∀ (unordered : List Item) (τ : Session),
        Arena.Extends w.types σ.arena τ.arena → Yields (do
          let items ← compareCases index rel u v anchor s rel.cases unordered
          if items.isEmpty then return [← booleanResult index anchor s (some false)]
          else return items) τ fun items τ =>
        ∃ it ∈ items, Covers w ρ (s.Unmeasured σ.arena ρ u v) index s.stack b τ.arena it := by
      intro unordered τ hExtends
      refine (covers_compareCases h hArena hState hρ hFounded hu hv rel.cases unordered hExtends
        hCases (Or.inr hSome)).bind fun items τ' hItems => ?_
      obtain ⟨it, hit, hCovers⟩ := hItems
      have hEmpty : items.isEmpty = false := List.isEmpty_eq_false_iff_exists_mem.mpr ⟨it, hit⟩
      rw [hEmpty]
      exact yields_pure.mpr ⟨it, hit, hCovers⟩
    split
    · refine (grows_booleanResult hArena hFounded).bind fun it τ hItem => ?_
      exact hRest _ τ hItem.1
    · exact hRest _ σ (.refl hArena)

/-- A comparison covers its outcomes, whatever the values are that its operands stand for. -/
def Covering (w : World) (a : Arena) (u : ValueId) (rel : Relation) (v : ValueId) : Prop :=
  State.Reached w.types a .initial → ∀ ρ x y b, State.initial.Satisfies w a ρ →
    State.Denotes w a ρ u x → State.Denotes w a ρ v y → x ≠ .double none → y ≠ .double none →
    Concrete.Holds (if b then rel else rel.negated) x y →
    Yields (perform usualContext 0 ((State.initial.push u).push v)
        (.boolean (.relation rel) none)) (.start a) fun items τ =>
      ∃ it ∈ items, it.state.Satisfies w τ.arena ρ ∧ ∃ r, it.state.stack = [r] ∧
        ((it.state.fact τ.arena r).bool? = some b ∨ (it.state.fact τ.arena r).bool? = none)

/-- What is seen of the items of a comparison: their results, and the fact of a value, if that
is a variable. -/
def observe (a : Arena) (u : ValueId) (rel : Relation) (v m : ValueId) :
    List (Option Bool × Option Fact) :=
  match perform usualContext 0 ((State.initial.push u).push v) (.boolean (.relation rel) none)
      (.start a) with
  | .ok items τ => items.map fun it =>
      ((it.state.fact τ.arena (it.state.stack.headD Arena.unknown)).bool?,
        if τ.arena.isVariable m then some (it.state.fact τ.arena m) else none)
  | .error _ _ => []

/-- An outcome that is covered is seen. -/
theorem Covering.observed {a : Arena} (h : Covering w a u rel v)
    (hReached : State.Reached w.types a .initial) (hρ : State.initial.Satisfies w a ρ)
    (hu : State.Denotes w a ρ u x) (hv : State.Denotes w a ρ v y) (hx : x ≠ .double none)
    (hy : y ≠ .double none) (hHolds : Concrete.Holds (if b then rel else rel.negated) x y)
    (m : ValueId) :
    ∃ p ∈ observe a u rel v m, (p.1 = some b ∨ p.1 = none) ∧
      ∀ f, p.2 = some f → f.Admits w (ρ m) := by
  obtain ⟨items, τ, hRun, it, hit, hSatisfies, r, hStack, hOutcome⟩ :=
    h hReached ρ x y b hρ hu hv hx hy hHolds
  unfold observe
  rw [hRun]
  refine ⟨_, List.mem_map_of_mem hit, ?_, ?_⟩
  · rw [hStack]
    exact hOutcome
  · intro f hf
    dsimp only at hf
    split at hf
    · rename_i hVariable
      cases hf
      exact hSatisfies.admits hVariable nofun
    · cases hf

/-- An integer that a call returns. -/
def ranged : Arena := (Arena.new.typed (.int (.between 0 10))).2

theorem evaluated_ranged :
    ranged.allVars = [] ∧ ranged.isVariable 1 = false ∧
      ranged.inherent 1 = .int (.between 0 10) := by
  decide +kernel

/-- What is seen of the comparisons. -/
theorem observed :
    observe ranged 1 .lt 1 0 = [(some false, none)] ∧
      observe State.nullables 1 .eq 2 0 = [(some false, none)] ∧
      observe State.measured 1 .eq 3 2 =
        [(some true, some (.ofInt 3)), (some false, some (.int .lengths))] ∧
      observe State.interfaces 1 .eq 2 0 = [(some false, none)] := by
  decide +kernel

open State in
theorem not_covering_calls : ¬ Covering plainWorld ranged 1 .lt 1 := by
  intro h
  obtain ⟨hVars, hNone, hInherent⟩ := evaluated_ranged
  have hReached : Reached plainWorld.types ranged .initial :=
    .intern _ .start ⟨Fact.over_of_info rfl, nofun⟩
  have hAdmits : ∀ (n : Int) (hn : n ∈ Range.full), n ∈ Range.between 0 10 →
      Denotes plainWorld ranged (fun _ => .null) 1 (.int n hn) := fun n hn hMem =>
    .of_value hNone (hInherent ▸ Fact.admits_int.mpr hMem)
  obtain ⟨p, hp, hOutcome, -⟩ := h.observed (b := true) hReached
    (satisfies_initial (by rw [hVars]; nofun)) (hAdmits 1 (by decide) (by decide))
    (hAdmits 2 (by decide) (by decide)) nofun nofun (show (1 : Int) < 2 by decide) 0
  rw [observed.1] at hp
  rw [List.mem_singleton.mp hp] at hOutcome
  rcases hOutcome with hOutcome | hOutcome <;> cases hOutcome

open State in
theorem not_covering_null : ¬ Covering plainWorld nullables 1 .eq 2 := by
  intro h
  obtain ⟨hLeft, hRight⟩ := denotes_nullables (ρ := fun _ => .null)
  obtain ⟨p, hp, hOutcome, -⟩ := h.observed (b := true) reached_nullables satisfies_nullables
    hLeft hRight nofun nofun rfl 0
  rw [observed.2.1] at hp
  rw [List.mem_singleton.mp hp] at hOutcome
  rcases hOutcome with hOutcome | hOutcome <;> cases hOutcome

open State in
theorem not_covering_length : ¬ Covering plainWorld measured 1 .eq 3 := by
  intro h
  obtain ⟨hLeft, hRight⟩ := denotes_measured
  obtain ⟨p, hp, hOutcome, hFact⟩ := h.observed (b := true) reached_measured satisfies_measured
    hLeft hRight nofun nofun rfl 2
  rw [observed.2.2.1] at hp
  simp only [List.mem_cons, List.not_mem_nil, or_false] at hp
  rcases hp with rfl | rfl
  · exact not_admits_lengthOfNull (hFact _ rfl)
  · rcases hOutcome with hOutcome | hOutcome <;> cases hOutcome

open State in
theorem not_covering_arrays : ¬ Covering arrayWorld interfaces 1 .eq 2 := by
  intro h
  obtain ⟨hLeft, hRight⟩ := denotes_interfaces (ρ := fun _ => .null)
  obtain ⟨p, hp, hOutcome, -⟩ := h.observed (b := true) reached_interfaces satisfies_interfaces
    hLeft hRight nofun nofun (Or.inl ⟨rfl, rfl⟩) 0
  rw [observed.2.2.2] at hp
  rw [List.mem_singleton.mp hp] at hOutcome
  rcases hOutcome with hOutcome | hOutcome <;> cases hOutcome

end Step

end Pathwise
