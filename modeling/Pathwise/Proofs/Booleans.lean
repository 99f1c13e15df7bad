import Pathwise.Proofs.Assertions

/-!
# Boolean control flow

Jumps, negations, conjunctions and disjunctions compare a boolean with a constant: one way assumes
that it is the constant, the other that it is not. Whatever the operands stand for, a valuation goes
on the way that their values tell, and what is pushed there is the truth value of the result.

One way of a conjunction or disjunction pushes no constant but the left operand, since the right one
does not decide the result. So the result there is as well known as the operand is.

A boolean is never null, and two occurrences of a constant are one value, so conditions on booleans need
none of the provisos of `State.Compared`.

## Results

* `State.satisfies_apply_bool` — a boolean is the constant or it is not, and what is assumed loses
  nothing.
* `Step.perform_follows_booleans` — every valuation goes the way that its booleans tell.
-/

namespace Pathwise

theorem Fact.eq_ofBool {f : Fact} {b : Bool} (h : f.bool? = some b) : f = .ofBool b := by
  cases f with
  | bool c => exact congrArg Fact.bool h
  | _ => cases h

-- ---------------------------------------------------------------------------
-- A boolean and a constant
-- ---------------------------------------------------------------------------

namespace State

variable {w : World} {a a' : Arena} {s : State} {ρ : ValueId → Concrete} {o : Nat} {u v m : ValueId}
  {x y : Concrete} {rel : Relation} {b k : Bool}

/-- No length is exempt from a comparison in which neither value is null. -/
theorem Compared.not_unmeasured (h : s.Compared w a ρ o u x rel v y) (hState : s.Coherent w.types a)
    (hρ : s.Satisfies w a ρ) (hx : x ≠ .null) (hy : y ≠ .null) : ¬ s.Unmeasured a ρ u v m := by
  rintro ⟨-, -, l, q, hNarrows, hNull, -⟩
  rcases (h.value_of_narrows hState hρ hNarrows).2 with ⟨hValue, -⟩ | ⟨hValue, -⟩
  · exact hx (hValue.symm.trans hNull)
  · exact hy (hValue.symm.trans hNull)

/-- A constant stands for itself, and for nothing else. -/
theorem denotes_bool_iff : Denotes w (a.bool k).2 ρ (a.bool k).1 (.bool b) ↔ b = k := by
  have hNone : (a.bool k).2.isVariable (a.bool k).1 = false := Arena.isVariable_typed
  have hInherent : (a.bool k).2.inherent (a.bool k).1 = .ofBool k := Arena.inherent_typed
  constructor
  · intro h
    have hAdmits := h.other hNone
    rw [hInherent] at hAdmits
    exact Fact.admits_bool.mp hAdmits k rfl
  · rintro rfl
    refine .of_value hNone ?_
    rw [hInherent]
    exact Fact.admits_bool.mpr fun d hd => Option.some.inj hd

/-- **A boolean is compared with a constant**, whatever is known of it. -/
theorem compared_bool (hu : u < a.size) (hDenotes : Denotes w a ρ u (.bool b)) :
    s.Compared w (a.bool k).2 ρ 0 u (.bool b) (if b = k then .eq else .ne) (a.bool k).1 (.bool k) := by
  have hLeft : Denotes w (a.bool k).2 ρ u (.bool b) := hDenotes.grows Arena.grows_typed hu
  refine ⟨hLeft, denotes_bool_iff.mpr rfl, ?_, ?_, ?_, fun _ _ => ⟨?_, nofun, nofun⟩⟩
  · split
    · rename_i hEq
      exact Or.inl ⟨rfl, hEq⟩
    · rename_i hNe
      exact Or.inr ⟨rfl, hNe⟩
  · intro hSame
    rw [hSame] at hLeft
    exact ⟨congrArg _ (denotes_bool_iff.mp hLeft), nofun⟩
  · rintro p (hp | hp) <;> cases hp
  · rintro (hNull | hNull) <;> cases hNull

/-- **A boolean is the constant or it is not**: what holds of the two can be assumed, and loses
nothing. The condition may be made before the arena grows. -/
theorem satisfies_apply_bool (hArena : a.Coherent w.types) (hState : s.Coherent w.types a)
    (hρ : s.Satisfies w a ρ) (hu : u < a.size) (hDenotes : Denotes w a ρ u (.bool b))
    (hExtends : Arena.Extends w.types (a.bool k).2 a') {c : Condition}
    (hc : c = .of (a.bool k).2 u .eq (a.bool k).1) :
    (s.apply a' (if b = k then c else c.negated)).feasible = true ∧
      (s.apply a' (if b = k then c else c.negated)).state.Satisfies w a' ρ := by
  have hFirst : Arena.Extends w.types a (a.bool k).2 :=
    Arena.extends_typed hArena (Fact.over_of_info rfl)
  have hState' : s.Coherent w.types (a.bool k).2 := coherent_grows hFirst.grows hState
  have hρ' : s.Satisfies w (a.bool k).2 ρ := (satisfies_grows hArena hFirst.grows).mpr hρ
  have hu' : u < (a.bool k).2.size := Nat.lt_of_lt_of_le hu hFirst.grows.size
  have hv' : (a.bool k).1 < (a.bool k).2.size := Arena.lt_size_intern
  have hCompared := compared_bool (s := s) (k := k) hu hDenotes
  rw [← hExtends.grows.of_eq hu' hv'] at hc
  obtain ⟨hFeasible, hFits⟩ := hCompared.fits_apply (r := .eq)
    (c := if b = k then c else c.negated) hFirst.coherent hState' hρ' hExtends hu' hv' <| by
      split
      · rename_i hEq
        exact Or.inl ⟨hc, Or.inl ⟨rfl, hEq⟩⟩
      · rename_i hNe
        exact Or.inr ⟨congrArg _ hc, Or.inr ⟨rfl, hNe⟩⟩
  exact ⟨hFeasible, hFits.mono fun m => hCompared.not_unmeasured hState' hρ' nofun nofun⟩

end State

-- ---------------------------------------------------------------------------
-- The ways of a branch
-- ---------------------------------------------------------------------------

namespace Step

variable {w : World} {σ : Session} {s : State} {ρ : ValueId → Concrete} {u v : ValueId} {b k l r : Bool}
  {ctx : Context} {index target : Nat} {anchor : Option Anchor} {c : Condition}

/-- **A valuation arrives** at an instruction in an item. -/
structure Arrives (w : World) (ρ : ValueId → Concrete) (target : Nat) (stack : List ValueId) (a : Arena)
    (it : Item) : Prop where
  index     : it.index = target
  stack     : it.state.stack = stack
  satisfied : it.state.Satisfies w a ρ

/-- A way has the item for its condition, and leaves the arena as it is. -/
theorem yields_branchWay_items {taken : Bool} :
    Yields (branchWay index anchor s c taken target) σ fun items τ => τ.arena = σ.arena ∧
      items = if (s.apply σ.arena c).feasible then [⟨target, (s.apply σ.arena c).state, 0⟩] else [] := by
  rw [branchWay, yields_bind, yields_apply]
  split
  · simp only [yields_bind, yields_reach, yields_reportJump, yields_pure, and_true]
    cases anchor <;> dsimp only <;> split <;> rfl
  · exact yields_pure.mpr ⟨rfl, rfl⟩

/-- A way whose condition can be assumed is gone. -/
theorem arrives_branchWay {taken : Bool} (hFeasible : (s.apply σ.arena c).feasible = true)
    (hSatisfies : (s.apply σ.arena c).state.Satisfies w σ.arena ρ) :
    Yields (branchWay index anchor s c taken target) σ fun items τ =>
      ∃ it ∈ items, Arrives w ρ target s.stack τ.arena it := by
  refine yields_branchWay_items.mono ?_
  rintro items τ ⟨hSame, rfl⟩
  rw [hSame, if_pos hFeasible]
  exact ⟨_, List.mem_singleton_self _, rfl, State.frame_apply.stack, hSatisfies⟩

/-- **A valuation arrives with a truth value**: the constant is on top of the stack. -/
def Concludes (w : World) (ρ : ValueId → Concrete) (target : Nat) (stack : List ValueId) (k : Bool)
    (a : Arena) (it : Item) : Prop :=
  ∃ q < a.size, Arrives w ρ target (q :: stack) a it ∧ it.state.fact a q = .ofBool k

theorem Concludes.grows {stack : List ValueId} {a a' : Arena} {it : Item}
    (h : Concludes w ρ target stack k a it) (hArena : a.Coherent w.types) (hGrows : a.Grows a') :
    Concludes w ρ target stack k a' it := by
  obtain ⟨q, hq, hArrives, hFact⟩ := h
  refine ⟨q, Nat.lt_of_lt_of_le hq hGrows.size, ⟨hArrives.index, hArrives.stack, ?_⟩, ?_⟩
  · exact (State.satisfies_grows hArena hGrows).mpr hArrives.satisfied
  · rw [State.fact_grows hArena hGrows hq, hFact]

/-- **A truth value is pushed** where the condition for it can be assumed. -/
theorem concludes_outcomeIf (hArena : σ.arena.Coherent w.types) (hFounded : σ.arena.Founded)
    (hFeasible : (s.apply σ.arena c).feasible = true)
    (hSatisfies : (s.apply σ.arena c).state.Satisfies w σ.arena ρ) :
    Yields (outcomeIf index anchor s c (some k)) σ fun items τ =>
      Arena.Extends w.types σ.arena τ.arena ∧
        ∃ it ∈ items, Concludes w ρ (index + 1) s.stack k τ.arena it := by
  refine (grows_outcomeIf hArena hFounded).mono ?_
  rintro items τ ⟨hExtends, hItem⟩
  obtain ⟨q, rfl, hq, hFact⟩ := hItem hFeasible
  refine ⟨hExtends, _, List.mem_singleton_self _, q, hq, ⟨rfl, ?_, ?_⟩, Fact.eq_ofBool (hFact _)⟩
  · exact congrArg (q :: ·) State.frame_apply.stack
  · exact ((State.satisfies_grows hArena hExtends.grows).mpr hSatisfies).congr rfl rfl

section

variable (hArena : σ.arena.Coherent w.types) (hState : s.Coherent w.types σ.arena)
  (hFounded : σ.arena.Founded) (hρ : s.Satisfies w σ.arena ρ)
include hArena hState hρ

/-- **A jump** goes to its target if the operand is as expected, and on if it is not. -/
theorem arrives_branch {negated : Bool} (hv : v < σ.arena.size)
    (hDenotes : State.Denotes w σ.arena ρ v (.bool b)) :
    Yields (branch index target negated anchor (s.push v)) σ fun items τ =>
      ∃ it ∈ items, Arrives w ρ (if b = !negated then target else index + 1) s.stack τ.arena it := by
  have hPop : pop index (s.push v) = pure (v, s) := rfl
  unfold branch
  rw [hPop, yields_bind, yields_pure]
  dsimp only
  rw [yields_bind, yields_intern, yields_bind, yields_condition]
  generalize hc : Condition.of _ v .eq _ = c
  obtain ⟨hFeasible, hSatisfies⟩ := State.satisfies_apply_bool hArena hState hρ hv hDenotes
    (.refl (Arena.coherent_typed hArena (Fact.over_of_info rfl))) hc.symm
  by_cases hExpected : b = !negated
  · rw [if_pos hExpected] at hFeasible hSatisfies
    rw [if_pos hExpected]
    cases c with
    | always => exact arrives_branchWay hFeasible hSatisfies
    | never => cases hFeasible
    | relation l rel r =>
      refine (arrives_branchWay hFeasible hSatisfies).bind ?_
      rintro taken τ ⟨it, hit, hArrives⟩
      refine yields_branchWay_items.bind ?_
      rintro fallen υ ⟨hSame, -⟩
      exact yields_pure.mpr ⟨it, List.mem_append_left _ hit, hSame ▸ hArrives⟩
  · rw [if_neg hExpected] at hFeasible hSatisfies
    rw [if_neg hExpected]
    cases c with
    | always => cases hFeasible
    | never => exact arrives_branchWay hFeasible hSatisfies
    | relation l rel r =>
      refine yields_branchWay_items.bind ?_
      rintro taken τ ⟨hSame, -⟩
      have hSame : τ.arena = (σ.arena.bool !negated).2 := hSame
      rw [← hSame] at hFeasible hSatisfies
      refine (arrives_branchWay hFeasible hSatisfies).bind ?_
      rintro fallen υ ⟨it, hit, hArrives⟩
      exact yields_pure.mpr ⟨it, List.mem_append_right _ hit, hArrives⟩

include hFounded

/-- **A negation** concludes what the operand is not. -/
theorem concludes_not (hv : v < σ.arena.size) (hDenotes : State.Denotes w σ.arena ρ v (.bool b)) :
    Yields (Step.not index anchor (s.push v)) σ fun items τ =>
      ∃ it ∈ items, Concludes w ρ (index + 1) s.stack (!b) τ.arena it := by
  have hPop : pop index (s.push v) = pure (v, s) := rfl
  have hFirst : Arena.Extends w.types σ.arena (σ.arena.bool false).2 :=
    Arena.extends_typed hArena (Fact.over_of_info rfl)
  unfold Step.not
  rw [hPop, yields_bind, yields_pure]
  dsimp only
  rw [yields_bind, yields_intern, yields_bind, yields_condition]
  generalize hc : Condition.of _ v .eq _ = c
  have hApplied := fun {a' : Arena} (hExtends : Arena.Extends w.types (σ.arena.bool false).2 a') =>
    State.satisfies_apply_bool hArena hState hρ hv hDenotes hExtends hc.symm
  cases b with
  | false =>
    obtain ⟨hFeasible, hSatisfies⟩ := hApplied (.refl hFirst.coherent)
    refine Yields.bind (concludes_outcomeIf hFirst.coherent (hFounded.grows hFirst.grows) hFeasible
      hSatisfies) ?_
    rintro yes τ ⟨hExtends, it, hit, hConcludes⟩
    have hExtends : Arena.Extends w.types σ.arena τ.arena := hFirst.trans hExtends
    refine (grows_outcomeIf hExtends.coherent (hFounded.grows hExtends.grows)).bind ?_
    rintro no υ ⟨hNext, -⟩
    exact yields_pure.mpr
      ⟨it, List.mem_append_left _ hit, hConcludes.grows hExtends.coherent hNext.grows⟩
  | true =>
    refine Yields.bind (grows_outcomeIf hFirst.coherent (hFounded.grows hFirst.grows)) ?_
    rintro yes τ ⟨hExtends, -⟩
    obtain ⟨hFeasible, hSatisfies⟩ := hApplied hExtends
    refine (concludes_outcomeIf hExtends.coherent
      (hFounded.grows (hFirst.trans hExtends).grows) hFeasible hSatisfies).bind ?_
    rintro no υ ⟨-, it, hit, hConcludes⟩
    exact yields_pure.mpr ⟨it, List.mem_append_right _ hit, hConcludes⟩

/-- **A conjunction or disjunction** concludes the constant that decides it, if the right operand is
that, and goes on with the left one if not. -/
theorem arrives_junction {isOr : Bool} (hv : v < σ.arena.size)
    (hDenotes : State.Denotes w σ.arena ρ v (.bool r)) :
    Yields (junction index isOr u v anchor s) σ fun items τ =>
      Arena.Extends w.types σ.arena τ.arena ∧ ∃ it ∈ items,
        if r = isOr then Concludes w ρ (index + 1) s.stack isOr τ.arena it
        else Arrives w ρ (index + 1) (u :: s.stack) τ.arena it := by
  have hFirst : Arena.Extends w.types σ.arena (σ.arena.bool isOr).2 :=
    Arena.extends_typed hArena (Fact.over_of_info rfl)
  -- the item of the left operand leaves the arena as it is
  have hUndecided : ∀ (t : State) (decided : List Item) (τ : Session),
      Yields (do
        reach index t (← fact t u).bool?
        let t ← pushResult anchor u t
        return decided ++ [next index t]) τ fun items υ =>
      υ.arena = τ.arena ∧ items = decided ++ [next index (t.push u)] := by
    intro t decided τ
    simp only [yields_bind, yields_fact, yields_reach, yields_pushResult, yields_pure, and_true]
    cases anchor <;> dsimp only <;> split <;> rfl
  unfold junction
  rw [yields_bind, yields_intern, yields_bind, yields_condition]
  generalize hc : Condition.of _ v .eq _ = c
  have hApplied := fun {a' : Arena} (hExtends : Arena.Extends w.types (σ.arena.bool isOr).2 a') =>
    State.satisfies_apply_bool hArena hState hρ hv hDenotes hExtends hc.symm
  by_cases hDecides : r = isOr
  · simp only [if_pos hDecides] at hApplied ⊢
    obtain ⟨hFeasible, hSatisfies⟩ := hApplied (.refl hFirst.coherent)
    refine Yields.bind (concludes_outcomeIf hFirst.coherent (hFounded.grows hFirst.grows) hFeasible
      hSatisfies) ?_
    rintro decided τ ⟨hExtends, it, hit, hConcludes⟩
    have hExtends : Arena.Extends w.types σ.arena τ.arena := hFirst.trans hExtends
    rw [yields_bind, yields_apply]
    split
    · refine (hUndecided _ _ _).mono ?_
      rintro items υ ⟨hSame, rfl⟩
      rw [hSame]
      exact ⟨hExtends, it, List.mem_append_left _ hit, hConcludes⟩
    · exact yields_pure.mpr ⟨hExtends, it, hit, hConcludes⟩
  · simp only [if_neg hDecides] at hApplied ⊢
    refine Yields.bind (grows_outcomeIf hFirst.coherent (hFounded.grows hFirst.grows)) ?_
    rintro decided τ ⟨hExtends, -⟩
    obtain ⟨hFeasible, hSatisfies⟩ := hApplied hExtends
    rw [yields_bind, yields_apply, if_pos hFeasible]
    refine (hUndecided _ _ _).mono ?_
    rintro items υ ⟨hSame, rfl⟩
    rw [hSame]
    refine ⟨hFirst.trans hExtends, _, List.mem_append_right _ (List.mem_singleton_self _), rfl, ?_, ?_⟩
    · exact congrArg (u :: ·) State.frame_apply.stack
    · exact hSatisfies.congr rfl rfl

end

/-- **A valuation arrives with the result of two booleans**: what is on top of the stack admits the
result. It is the constant, or the left operand, which has that value then. -/
def Joins (w : World) (ρ : ValueId → Concrete) (target : Nat) (stack : List ValueId) (u : ValueId)
    (l k : Bool) (a : Arena) (it : Item) : Prop :=
  ∃ q, Arrives w ρ target (q :: stack) a it ∧ (it.state.fact a q).Admits w (.bool k) ∧
    (it.state.fact a q = .ofBool k ∨ q = u ∧ l = k)

/-- A conjunction or disjunction has the value of the constant or of the left operand. -/
theorem joins_junction {isOr : Bool} (hArena : σ.arena.Coherent w.types)
    (hState : s.Coherent w.types σ.arena) (hFounded : σ.arena.Founded) (hρ : s.Satisfies w σ.arena ρ)
    (hu : u < σ.arena.size) (hv : v < σ.arena.size) (hLeft : State.Denotes w σ.arena ρ u (.bool l))
    (hRight : State.Denotes w σ.arena ρ v (.bool r)) :
    Yields (junction index isOr u v anchor s) σ fun items τ => ∃ it ∈ items,
      Joins w ρ (index + 1) s.stack u l (if isOr then l || r else l && r) τ.arena it := by
  refine (arrives_junction hArena hState hFounded hρ hv hRight).mono ?_
  rintro items τ ⟨hExtends, it, hit, hWay⟩
  refine ⟨it, hit, ?_⟩
  split at hWay
  · rename_i hDecides
    have hResult : (if isOr then l || r else l && r) = isOr := by
      subst hDecides
      cases r <;> simp
    obtain ⟨q, -, hArrives, hFact⟩ := hWay
    rw [hResult]
    refine ⟨q, hArrives, ?_, Or.inl hFact⟩
    rw [hFact]
    exact Fact.admits_bool.mpr fun d hd => Option.some.inj hd
  · rename_i hLeaves
    have hResult : (if isOr then l || r else l && r) = l := by
      cases isOr <;> cases r <;> simp_all
    rw [hResult]
    exact ⟨u, hWay, (hLeft.grows hExtends.grows hu).admits hWay.satisfied, Or.inr ⟨rfl, rfl⟩⟩

/-- **Boolean control flow follows the values.** Two values of the arena stand for booleans. A
valuation that satisfies the state goes on at the target of a jump if the operand is as the jump
expects, and at the next instruction if not. A negation, a conjunction and a disjunction go on at
the next instruction, with the result on top of the stack. -/
theorem perform_follows_booleans (hReached : State.Reached w.types σ.arena s)
    (hρ : s.Satisfies w σ.arena ρ) (hu : u < σ.arena.size) (hv : v < σ.arena.size)
    (hLeft : State.Denotes w σ.arena ρ u (.bool l)) (hRight : State.Denotes w σ.arena ρ v (.bool r)) :
    (∀ target negated, Yields (perform ctx index (s.push v) (.branch target negated anchor)) σ
      fun items τ => ∃ it ∈ items,
        Arrives w ρ (if r = !negated then target else index + 1) s.stack τ.arena it) ∧
    Yields (perform ctx index (s.push v) (.not anchor)) σ (fun items τ => ∃ it ∈ items,
      Concludes w ρ (index + 1) s.stack (!r) τ.arena it) ∧
    Yields (perform ctx index ((s.push u).push v) (.boolean .and anchor)) σ (fun items τ =>
      ∃ it ∈ items, Joins w ρ (index + 1) s.stack u l (l && r) τ.arena it) ∧
    Yields (perform ctx index ((s.push u).push v) (.boolean .or anchor)) σ fun items τ =>
      ∃ it ∈ items, Joins w ρ (index + 1) s.stack u l (l || r) τ.arena it := by
  obtain ⟨hArena, hState⟩ := hReached.coherent
  have hJunction : ∀ isOr, Yields (junction index isOr u v anchor s) σ fun items τ =>
      ∃ it ∈ items, Joins w ρ (index + 1) s.stack u l (if isOr then l || r else l && r) τ.arena it :=
    fun isOr => joins_junction hArena hState hReached.founded hρ hu hv hLeft hRight
  refine ⟨fun target negated => ?_, ?_, ?_, ?_⟩
  · exact arrives_branch hArena hState hρ hv hRight
  · exact concludes_not hArena hState hReached.founded hρ hv hRight
  · exact hJunction false
  · exact hJunction true

/-- Two boolean parameters. -/
def flags : Arena :=
  ((Arena.new.var (.parameter "x" 0) none (.bool none)).2.var (.parameter "y" 1) none (.bool none)).2

theorem evaluated_flags :
    flags.size = 3 ∧ flags.allVars = [1, 2] ∧ flags.isVariable 1 = true ∧ flags.isVariable 2 = true ∧
      State.initial.fact flags 1 = .bool none ∧ State.initial.fact flags 2 = .bool none := by
  decide +kernel

/-- One parameter is true and the other is not: a jump that expects false is taken, and the
operations have the results that they have. -/
theorem follows_flags :
    let ρ : ValueId → Concrete := fun v => .bool (v == 1)
    Yields (perform usualContext 0 (State.initial.push 2) (.branch 7 true none)) (.start flags)
      (fun items τ => ∃ it ∈ items, Arrives State.plainWorld ρ 7 [] τ.arena it) ∧
    Yields (perform usualContext 0 (State.initial.push 2) (.not none)) (.start flags)
      (fun items τ => ∃ it ∈ items, Concludes State.plainWorld ρ 1 [] true τ.arena it) ∧
    Yields (perform usualContext 0 ((State.initial.push 1).push 2) (.boolean .and none)) (.start flags)
      (fun items τ => ∃ it ∈ items, Joins State.plainWorld ρ 1 [] 1 true false τ.arena it) ∧
    Yields (perform usualContext 0 ((State.initial.push 1).push 2) (.boolean .or none)) (.start flags)
      fun items τ => ∃ it ∈ items, Joins State.plainWorld ρ 1 [] 1 true true τ.arena it := by
  intro ρ
  obtain ⟨hSize, hVars, hLeft, hRight, hX, hY⟩ := evaluated_flags
  have hReached : State.Reached State.plainWorld.types flags .initial :=
    .intern _ (.intern _ .start ⟨Fact.over_of_info rfl, by rintro y q ⟨⟩ ⟨⟩⟩)
      ⟨Fact.over_of_info rfl, by rintro y q ⟨⟩ ⟨⟩⟩
  have hAdmits : ∀ b, (Fact.bool none).Admits State.plainWorld (.bool b) := fun b =>
    Fact.admits_bool.mpr nofun
  have hSatisfies : State.initial.Satisfies State.plainWorld flags ρ := by
    refine State.satisfies_initial fun v hv => ?_
    rw [hVars] at hv
    simp only [List.mem_cons, List.not_mem_nil, or_false] at hv
    rcases hv with rfl | rfl
    · exact hX ▸ hAdmits _
    · exact hY ▸ hAdmits _
  have hOne : 1 < (Session.start flags).arena.size := hSize ▸ by decide
  have hTwo : 2 < (Session.start flags).arena.size := hSize ▸ by decide
  refine (perform_follows_booleans (l := true) (r := false) hReached hSatisfies hOne hTwo
    (.of_variable hLeft rfl) (.of_variable hRight rfl)).imp (fun hBranch => ?_) id
  exact hBranch 7 true

end Step

end Pathwise
