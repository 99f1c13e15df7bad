import Pathwise.Proofs.Doubles
import Pathwise.Proofs.Outcomes

/-!
# Comparisons with NaN

An order comparison is split into the relations that hold of two numbers, and none of them holds of a
NaN. So a state is split off in which an operand is a NaN, and the comparison is false. It is the
first operand of which it is known that it is a double and no more.

The other operand is overlooked: where it is the NaN, and both are variables, every other state records
a relation that it is not in. `OverlooksNaN` tells when no state is left, and it is exact.

## Results

* `Step.ways_compare`    — the states that an order comparison goes on in.
* `Step.exists_way_iff`  — a comparison with NaN is false in one of them, unless it is overlooked.
* `Step.perform_order_covers_nan_iff` — order comparisons with NaN.
-/

namespace Pathwise

-- ---------------------------------------------------------------------------
-- The ways of a comparison
-- ---------------------------------------------------------------------------

namespace Step

variable {w : World} {σ : Session} {s t : State} {a : Arena} {ρ : ValueId → Concrete}
  {rel : Relation} {u v : ValueId} {c d : Option Double} {ctx : Context} {index : Nat}
  {anchor : Option Anchor} {outcome : Bool}

open State (Denotes Reached)

/-- The operand that is taken to be a NaN in a state of its own. -/
def suspect? (a : Arena) (s : State) (u v : ValueId) : Option ValueId :=
  if s.fact a u = .double .any then some u
  else if s.fact a v = .double .any then some v
  else none

theorem unordered?_eq :
    unordered? a s u v = (suspect? a s u v).bind fun p => (s.meetFact a p (.double .nan)).state? := by
  unfold unordered? suspect?
  split
  · rfl
  · split <;> rfl

/-- **The ways of an order comparison**: the states it goes on in, each with its outcome. -/
inductive Way (a : Arena) (s : State) (u : ValueId) (rel : Relation) (v : ValueId) :
    State → Bool → Prop
  | unordered {t : State} : unordered? a s u v = some t → Way a s u rel v t false
  | ordered {sub : Relation} : sub ∈ rel.cases → (s.apply a (.of a u sub v)).feasible = true →
      Way a s u rel v (s.apply a (.of a u sub v)).state (rel.impliedBy sub)
  | otherwise : unordered? a s u v = none →
      (∀ sub ∈ rel.cases, (s.apply a (.of a u sub v)).feasible = false) → Way a s u rel v s false

/-- The rest of the stack stays. -/
theorem Way.stack (h : Way a s u rel v t outcome) : t.stack = s.stack := by
  cases h with
  | unordered ht =>
    obtain ⟨p, -, hp⟩ := Option.bind_eq_some_iff.mp (unordered?_eq.symm.trans ht)
    obtain ⟨-, rfl⟩ := Narrowing.state?_eq_some.mp hp
    exact State.frame_meetFact.stack
  | ordered _ _ => exact State.frame_apply.stack
  | otherwise _ _ => rfl

/-- An item goes on in a state, with an outcome on top of the stack. -/
def Pushed (a : Arena) (index : Nat) (t : State) (outcome : Bool) (it : Item) : Prop :=
  ∃ r < a.size, it = next index (t.push r) ∧ ∀ t : State, (t.fact a r).bool? = some outcome

/-- **The items go the ways** that there are, and each of them. -/
structure GoWays (w : World) (a b : Arena) (index : Nat) (s : State) (u : ValueId) (rel : Relation)
    (v : ValueId) (items : List Item) : Prop where
  extends_arena : Arena.Extends w.types a b
  sound    : ∀ it ∈ items, ∃ t outcome, Way a s u rel v t outcome ∧ Pushed b index t outcome it
  complete : ∀ t outcome, Way a s u rel v t outcome → ∃ it ∈ items, Pushed b index t outcome it

theorem Pushed.grows {b : Arena} {it : Item} (h : Pushed a index t outcome it)
    (hArena : a.Coherent w.types) (hGrows : a.Grows b) : Pushed b index t outcome it := by
  obtain ⟨r, hr, hItem, hOutcome⟩ := h
  refine ⟨r, Nat.lt_of_lt_of_le hr hGrows.size, hItem, fun t => ?_⟩
  rw [State.fact_grows hArena hGrows hr]
  exact hOutcome t

/-- The result of a branching instruction. -/
theorem pushes_booleanResult (hArena : σ.arena.Coherent w.types) (hFounded : σ.arena.Founded) :
    Yields (booleanResult index anchor t (some outcome)) σ fun it τ =>
      Arena.Extends w.types σ.arena τ.arena ∧ Pushed τ.arena index t outcome it := by
  refine (grows_booleanResult hArena hFounded).mono ?_
  rintro it τ ⟨hExtends, r, hItem, hr, hOutcome⟩
  exact ⟨hExtends, r, hr, hItem, hOutcome⟩

/-- The items of one outcome. -/
theorem pushes_outcomeIf {k : Condition} (hArena : σ.arena.Coherent w.types)
    (hFounded : σ.arena.Founded) :
    Yields (outcomeIf index anchor s k (some outcome)) σ fun items τ =>
      Arena.Extends w.types σ.arena τ.arena ∧
        (∀ it ∈ items, (s.apply σ.arena k).feasible = true ∧
          Pushed τ.arena index (s.apply σ.arena k).state outcome it) ∧
        ((s.apply σ.arena k).feasible = true →
          ∃ it ∈ items, Pushed τ.arena index (s.apply σ.arena k).state outcome it) := by
  unfold outcomeIf
  rw [yields_bind, yields_apply]
  split
  · rename_i hFeasible
    refine (pushes_booleanResult hArena hFounded).bind fun it τ h => yields_pure.mpr ?_
    refine ⟨h.1, fun it' hit => ⟨hFeasible, ?_⟩, fun _ => ⟨it, List.mem_singleton_self _, h.2⟩⟩
    rw [List.mem_singleton.mp hit]
    exact h.2
  · rename_i hNot
    exact yields_pure.mpr ⟨.refl hArena, nofun, fun h => absurd h hNot⟩

section

variable (hArena : a.Coherent w.types) (hState : s.Coherent w.types a) (hFounded : a.Founded)
  (hu : u < a.size) (hv : v < a.size)
include hArena hState hFounded hu hv

/-- **Relations tried one by one**, none of which always holds. The induction is on the relations. -/
theorem ways_compareCases (subs : List Relation) (found : List Item)
    (hExtends : Arena.Extends w.types a σ.arena)
    (hOpen : ∀ sub ∈ subs, Condition.of a u sub v ≠ .always) :
    Yields (compareCases index rel u v anchor s subs found) σ fun items τ =>
      Arena.Extends w.types σ.arena τ.arena ∧
        (∀ it ∈ items, it ∈ found ∨ ∃ sub ∈ subs, (s.apply a (.of a u sub v)).feasible = true ∧
          Pushed τ.arena index (s.apply a (.of a u sub v)).state (rel.impliedBy sub) it) ∧
        (∀ it ∈ found, it ∈ items) ∧
        ∀ sub ∈ subs, (s.apply a (.of a u sub v)).feasible = true → ∃ it ∈ items,
          Pushed τ.arena index (s.apply a (.of a u sub v)).state (rel.impliedBy sub) it := by
  induction subs generalizing found σ with
  | nil =>
    exact yields_pure.mpr ⟨.refl hExtends.coherent, fun _ => Or.inl, fun _ => id, nofun⟩
  | cons sub subs ih =>
    have hSame : s.apply σ.arena (.of σ.arena u sub v) = s.apply a (.of a u sub v) :=
      State.apply_grows hArena hState hExtends.grows hu hv
    have hOf : Condition.of σ.arena u sub v = Condition.of a u sub v := hExtends.grows.of_eq hu hv
    have hRest : ∀ sub' ∈ subs, Condition.of a u sub' v ≠ .always := fun sub' h =>
      hOpen sub' (List.mem_cons_of_mem _ h)
    unfold compareCases
    rw [yields_bind, yields_condition]
    generalize hc : Condition.of σ.arena u sub v = k at hSame
    cases k with
    | never =>
      -- what never holds is not feasible
      refine (ih found hExtends hRest).mono ?_
      rintro items τ ⟨hNext, hSound, hFound, hComplete⟩
      refine ⟨hNext, fun it hit => ?_, hFound, fun sub' hSub hFeasible => ?_⟩
      · refine (hSound it hit).imp_right ?_
        rintro ⟨sub', hSub, hWay⟩
        exact ⟨sub', List.mem_cons_of_mem _ hSub, hWay⟩
      · rcases List.mem_cons.mp hSub with rfl | hSub
        · rw [← hSame] at hFeasible
          cases hFeasible
        · exact hComplete sub' hSub hFeasible
    | always => exact absurd (hOf.symm.trans hc) (hOpen sub List.mem_cons_self)
    | relation l r m =>
      refine (pushes_outcomeIf hExtends.coherent (hFounded.grows hExtends.grows)).bind ?_
      rintro now τ ⟨hNow, hNowSound, hNowComplete⟩
      rw [hSame] at hNowSound hNowComplete
      refine (ih (found ++ now) (hExtends.trans hNow) hRest).mono ?_
      rintro items υ ⟨hNext, hSound, hFound, hComplete⟩
      refine ⟨hNow.trans hNext, fun it hit => ?_, fun it hit => hFound it (List.mem_append_left _ hit),
        fun sub' hSub hFeasible => ?_⟩
      · rcases hSound it hit with hOld | ⟨sub', hSub, hWay⟩
        · rcases List.mem_append.mp hOld with hOld | hOld
          · exact Or.inl hOld
          · obtain ⟨hFeasible, hPushed⟩ := hNowSound it hOld
            exact Or.inr ⟨sub, List.mem_cons_self, hFeasible, hPushed.grows hNow.coherent hNext.grows⟩
        · exact Or.inr ⟨sub', List.mem_cons_of_mem _ hSub, hWay⟩
      · rcases List.mem_cons.mp hSub with rfl | hSub
        · obtain ⟨it, hit, hPushed⟩ := hNowComplete hFeasible
          exact ⟨it, hFound it (List.mem_append_right _ hit),
            hPushed.grows hNow.coherent hNext.grows⟩
        · exact hComplete sub' hSub hFeasible

/-- What comes of the relations, after the item of a NaN or alone. -/
theorem ways_afterwards {unordered : List Item} (hExtends : Arena.Extends w.types a σ.arena)
    (hOpen : ∀ sub ∈ rel.cases, Condition.of a u sub v ≠ .always)
    (hSound : ∀ it ∈ unordered, ∃ t, unordered? a s u v = some t ∧
      Pushed σ.arena index t false it)
    (hComplete : ∀ t, unordered? a s u v = some t → ∃ it ∈ unordered,
      Pushed σ.arena index t false it) :
    Yields (do
      let items ← compareCases index rel u v anchor s rel.cases unordered
      if items.isEmpty then return [← booleanResult index anchor s (some false)]
      else return items) σ fun items τ => GoWays w a τ.arena index s u rel v items := by
  refine (ways_compareCases hArena hState hFounded hu hv rel.cases unordered hExtends hOpen).bind ?_
  rintro items τ ⟨hNext, hItems, hFound, hWays⟩
  have hAll := hExtends.trans hNext
  have hGrown : ∀ {t it}, Pushed σ.arena index t false it → Pushed τ.arena index t false it :=
    fun h => h.grows hExtends.coherent hNext.grows
  cases hEmpty : items.isEmpty with
  | true =>
    obtain rfl := List.isEmpty_iff.mp hEmpty
    have hNone : unordered? a s u v = none := by
      refine Option.eq_none_iff_forall_ne_some.mpr fun t ht => ?_
      obtain ⟨it, hit, -⟩ := hComplete t ht
      cases hFound it hit
    have hInfeasible : ∀ sub ∈ rel.cases, (s.apply a (.of a u sub v)).feasible = false := by
      intro sub hSub
      refine eq_false_of_ne_true fun hFeasible => ?_
      obtain ⟨it, hit, -⟩ := hWays sub hSub hFeasible
      cases hit
    refine (pushes_booleanResult hAll.coherent (hFounded.grows hAll.grows)).bind ?_
    rintro it κ ⟨hLast, hPushed⟩
    refine yields_pure.mpr ⟨hAll.trans hLast, fun it' hit => ?_, fun t outcome hWay => ?_⟩
    · rw [List.mem_singleton.mp hit]
      exact ⟨s, false, .otherwise hNone hInfeasible, hPushed⟩
    · refine ⟨it, List.mem_singleton_self _, ?_⟩
      cases hWay with
      | unordered h => cases hNone.symm.trans h
      | ordered hSub hFeasible => cases (hInfeasible _ hSub).symm.trans hFeasible
      | otherwise => exact hPushed
  | false =>
    refine yields_pure.mpr ⟨hAll, fun it hit => ?_, fun t outcome hWay => ?_⟩
    · rcases hItems it hit with hOld | ⟨sub, hSub, hFeasible, hPushed⟩
      · obtain ⟨t, ht, hPushed⟩ := hSound it hOld
        exact ⟨t, false, .unordered ht, hGrown hPushed⟩
      · exact ⟨_, _, .ordered hSub hFeasible, hPushed⟩
    · cases hWay with
      | unordered h =>
        obtain ⟨it, hit, hPushed⟩ := hComplete _ h
        exact ⟨it, hFound it hit, hGrown hPushed⟩
      | ordered hSub hFeasible => exact hWays _ hSub hFeasible
      | otherwise hNone hInfeasible =>
        -- there is an item, so there is another way
        obtain ⟨it, hit⟩ := List.isEmpty_eq_false_iff_exists_mem.mp hEmpty
        rcases hItems it hit with hOld | ⟨sub, hSub, hFeasible, -⟩
        · obtain ⟨t, ht, -⟩ := hSound it hOld
          cases hNone.symm.trans ht
        · cases (hInfeasible sub hSub).symm.trans hFeasible

/-- **Order comparisons go the ways that there are**, and each of them. -/
theorem ways_compare (hStart : σ.arena = a) (hOrdering : rel.isOrdering = true)
    (hOpen : ∀ sub ∈ rel.cases, Condition.of a u sub v ≠ .always) :
    Yields (compare index rel u v anchor s) σ fun items τ =>
      GoWays w a τ.arena index s u rel v items := by
  subst hStart
  have hNoEquality : (rel == .eq || rel == .ne) = false := by
    cases rel <;> first | rfl | cases hOrdering
  unfold compare
  rw [yields_bind, yields_arena]
  simp only [hNoEquality, hOrdering, Bool.false_and, Bool.false_eq_true, if_false, if_true]
  split
  · rename_i t ht
    refine (pushes_booleanResult hArena hFounded).bind fun it τ hItem => ?_
    refine ways_afterwards hArena hState hFounded hu hv hItem.1 hOpen (fun it' hit => ?_)
      fun t' ht' => ?_
    · rw [List.mem_singleton.mp hit]
      exact ⟨t, ht, hItem.2⟩
    · cases ht.symm.trans ht'
      exact ⟨it, List.mem_singleton_self _, hItem.2⟩
  · rename_i hNone
    exact ways_afterwards hArena hState hFounded hu hv (.refl hArena) hOpen nofun
      fun t ht => nomatch hNone.symm.trans ht

end

-- ---------------------------------------------------------------------------
-- The ways in which a comparison with NaN is false
-- ---------------------------------------------------------------------------

/-- **A NaN is overlooked** by an order comparison. -/
inductive OverlooksNaN (a : Arena) (s : State) (ρ : ValueId → Concrete) (u : ValueId)
    (rel : Relation) (v : ValueId) : Prop
  /-- One operand is known to be a NaN, and the other one is taken to be one too, but is a number. -/
  | known {p : ValueId} : suspect? a s u v = some p → a.isVariable p = true → ρ p ≠ .double none →
      (s.meetFact a p (.double .nan)).feasible = true →
      s.fact a u = .double .nan ∨ s.fact a v = .double .nan → OverlooksNaN a s ρ u rel v
  /-- No operand is taken to be a NaN that is one, and a relation between the two is recorded. -/
  | recorded : u ≠ v → a.isVariable u = true → a.isVariable v = true →
      s.fact a u ≠ .double .nan → s.fact a v ≠ .double .nan →
      (∀ p, suspect? a s u v = some p → ρ p ≠ .double none) → OverlooksNaN a s ρ u rel v
  /-- A value of which nothing is known is compared with itself. -/
  | itself : u = v → s.fact a u = .top → rel = .le ∨ rel = .ge → OverlooksNaN a s ρ u rel v

/-- What is taken to be a NaN is an operand that is known to be a double. -/
theorem of_suspect? {p : ValueId} (h : suspect? a s u v = some p) :
    (p = u ∨ p = v) ∧ s.fact a p = .double .any := by
  unfold suspect? at h
  split at h
  · cases h
    exact ⟨Or.inl rfl, ‹_›⟩
  · split at h
    · cases h
      exact ⟨Or.inr rfl, ‹_›⟩
    · cases h

section

variable (hρ : s.Satisfies w a ρ) (hu : Denotes w a ρ u (.double c)) (hv : Denotes w a ρ v (.double d))
  (hNaN : c = none ∨ d = none) (hOrdering : rel.isOrdering = true) {sub : Relation}
  (hSub : sub ∈ rel.cases)
include hρ hu hv hNaN hOrdering hSub

/-- The relations that are tried are no conditions that always hold. -/
theorem apply_cases_of_nan :
    (sub = .eq ∨ sub.isOrdering = true) ∧ Condition.of a u sub v ≠ .always ∧
      s.apply a (.of a u sub v) = s.applyRelation a u sub v := by
  rw [Relation.cases, if_pos hOrdering] at hSub
  have hRel : sub = .eq ∨ sub.isOrdering = true := by
    simp only [List.mem_cons, List.not_mem_nil, or_false] at hSub
    rcases hSub with rfl | rfl | rfl
    · exact Or.inr rfl
    · exact Or.inr rfl
    · exact Or.inl rfl
  exact ⟨hRel, State.apply_of_nan (hu.admits hρ) (hv.admits hρ) hRel hNaN⟩

/-- What is known to be a NaN is in none of them. -/
theorem infeasible_of_known (hKnown : s.fact a u = .double .nan ∨ s.fact a v = .double .nan) :
    (s.apply a (.of a u sub v)).feasible = false := by
  obtain ⟨hRel, -, hApply⟩ := apply_cases_of_nan hρ hu hv hNaN hOrdering hSub
  rw [hApply, State.applyRelation_of_nan (hu.admits hρ) (hv.admits hρ) hRel hKnown]

/-- Between two values the facts leave them open, if none is known to be a NaN. -/
theorem apply_eq_applyOpen (hNe : u ≠ v) (hLeft : s.fact a u ≠ .double .nan)
    (hRight : s.fact a v ≠ .double .nan) :
    s.apply a (.of a u sub v) = s.applyOpen a u sub v := by
  obtain ⟨hRel, -, hApply⟩ := apply_cases_of_nan hρ hu hv hNaN hOrdering hSub
  exact hApply.trans (State.applyRelation_eq_applyOpen (hu.admits hρ) (hv.admits hρ) hRel hNaN hNe
    hLeft hRight)

/-- A value that may be a NaN is taken to be equal to itself. -/
theorem apply_self_of_nan (hSame : u = v) (hMayBe : (s.fact a u).Admits w (.double none))
    (hNumber : s.fact a u ≠ .double .nan) :
    s.apply a (.of a u sub v) = ⟨sub == .eq || sub == .le || sub == .ge, s⟩ := by
  obtain ⟨hRel, -, hApply⟩ := apply_cases_of_nan hρ hu hv hNaN hOrdering hSub
  subst hSame
  exact hApply.trans (State.applyRelation_self_of_nan hMayBe hNumber hRel)

end

theorem mem_cases (hOrdering : rel.isOrdering = true) {sub : Relation} :
    sub ∈ rel.cases ↔ sub = .lt ∨ sub = .gt ∨ sub = .eq := by
  rw [Relation.cases, if_pos hOrdering]
  simp

section

variable (hArena : a.Coherent w.types) (hState : s.Coherent w.types a) (hρ : s.Satisfies w a ρ)
  (hu : Denotes w a ρ u (.double c)) (hv : Denotes w a ρ v (.double d))
include hArena hState hρ hu hv

/-- **The state of a NaN** is satisfied if the operand is one, or is no variable. -/
theorem exists_unordered_iff {p : ValueId} (hSuspect : suspect? a s u v = some p) :
    (∃ t, unordered? a s u v = some t ∧ t.Satisfies w a ρ) ↔
      (a.isVariable p = true → ρ p = .double none) := by
  obtain ⟨hOperand, hAny⟩ := of_suspect? hSuspect
  have hUnordered : unordered? a s u v = (s.meetFact a p (.double .nan)).state? := by
    rw [unordered?_eq, hSuspect]
    rfl
  rw [hUnordered]
  constructor
  · rintro ⟨t, ht, hSatisfies⟩ hVariable
    obtain ⟨e, he⟩ : ∃ e, ρ p = .double e := by
      rcases hOperand with rfl | rfl
      · exact ⟨c, hu.own hVariable⟩
      · exact ⟨d, hv.own hVariable⟩
    obtain ⟨hFeasible, rfl⟩ := Narrowing.state?_eq_some.mp ht
    have hAdmits := hSatisfies.admits hVariable nofun
    rw [he] at hAdmits ⊢
    have hNaN := ((State.admits_meetFact_iff hArena hState hVariable hFeasible).mp hAdmits).2
    cases e with
    | none => rfl
    | some z => exact absurd hNaN Fact.not_admits_nan
  · intro hValue
    have hp : Denotes w a ρ p (.double none) := by
      refine ⟨hValue, fun hNone => ?_⟩
      rw [← State.fact_of_not_variable (s := s) hNone, hAny]
      exact Fact.admits_double.mpr trivial
    obtain ⟨hFeasible, hSatisfies⟩ := State.satisfies_meetFact_double hArena hState hρ hp
      (Fact.over_of_info rfl) Fact.admits_nan
    exact ⟨_, Narrowing.state?_eq_some.mpr ⟨hFeasible, rfl⟩, hSatisfies⟩

variable (hNaN : c = none ∨ d = none) (hOrdering : rel.isOrdering = true)
include hNaN hOrdering

/-- A number that is taken to be a NaN is lost, as the other operand is known to be one. -/
theorem not_satisfies_way_known {p : ValueId} (hSuspect : suspect? a s u v = some p)
    (hVariable : a.isVariable p = true) (hNumber : ρ p ≠ .double none)
    (hFeasible : (s.meetFact a p (.double .nan)).feasible = true)
    (hKnown : s.fact a u = .double .nan ∨ s.fact a v = .double .nan)
    (hWay : Way a s u rel v t outcome) : ¬ t.Satisfies w a ρ := by
  intro hSatisfies
  cases hWay with
  | unordered ht =>
    exact hNumber ((exists_unordered_iff hArena hState hρ hu hv hSuspect).mp
      ⟨t, ht, hSatisfies⟩ hVariable)
  | ordered hSub hSome =>
    cases (infeasible_of_known hρ hu hv hNaN hOrdering hSub hKnown).symm.trans hSome
  | otherwise hNone _ =>
    rw [unordered?_eq, hSuspect] at hNone
    cases hNone.symm.trans (if_pos hFeasible)

/-- A relation that is recorded between two variables loses the NaN among them. -/
theorem not_satisfies_way_recorded (hNe : u ≠ v) (hLeft : a.isVariable u = true)
    (hRight : a.isVariable v = true) (hLeftFact : s.fact a u ≠ .double .nan)
    (hRightFact : s.fact a v ≠ .double .nan)
    (hNumbers : ∀ p, suspect? a s u v = some p → ρ p ≠ .double none)
    (hWay : Way a s u rel v t outcome) : ¬ t.Satisfies w a ρ := by
  intro hSatisfies
  have hValues : ρ u = .double none ∨ ρ v = .double none := by
    rw [hu.own hLeft, hv.own hRight]
    exact hNaN.imp (congrArg _) (congrArg _)
  cases hWay with
  | unordered ht =>
    obtain ⟨p, hSuspect, -⟩ := Option.bind_eq_some_iff.mp (unordered?_eq.symm.trans ht)
    refine hNumbers p hSuspect ((exists_unordered_iff hArena hState hρ hu hv hSuspect).mp
      ⟨t, ht, hSatisfies⟩ ?_)
    rcases (of_suspect? hSuspect).1 with rfl | rfl
    · exact hLeft
    · exact hRight
  | ordered hSub hSome =>
    obtain ⟨hRel, -⟩ := apply_cases_of_nan hρ hu hv hNaN hOrdering hSub
    rw [apply_eq_applyOpen hρ hu hv hNaN hOrdering hSub hNe hLeftFact hRightFact] at hSome hSatisfies
    exact State.not_satisfies_applyOpen hLeft hRight hValues hRel hSome hSatisfies
  | otherwise _ hInfeasible =>
    -- the values are not known to be out of order
    have hSub : Relation.lt ∈ rel.cases := (mem_cases hOrdering).mpr (Or.inl rfl)
    have hNot := hInfeasible _ hSub
    rw [apply_eq_applyOpen hρ hu hv hNaN hOrdering hSub hNe hLeftFact hRightFact,
      (State.satisfies_applyOpen_order hArena hState hρ hu hv hNaN rfl hLeftFact hRightFact
        fun _ => State.contradictsLink_of_nan hρ hValues (Or.inl rfl)).1] at hNot
    cases hNot

omit hArena hState in
/-- A value of which nothing is known is only found to be equal to itself. -/
theorem eq_true_of_way_itself (hSame : u = v) (hTop : s.fact a u = .top) (hRel : rel = .le ∨ rel = .ge)
    (hWay : Way a s u rel v t outcome) : outcome = true := by
  have hMayBe : (s.fact a u).Admits w (.double none) := hTop ▸ Fact.admits_top
  have hNumber : s.fact a u ≠ .double .nan := by
    rw [hTop]
    nofun
  cases hWay with
  | unordered ht =>
    have hNoSuspect : suspect? a s u v = none := by
      unfold suspect?
      rw [← hSame, hTop]
      rfl
    rw [unordered?_eq, hNoSuspect] at ht
    cases ht
  | ordered hSub hSome =>
    rw [apply_self_of_nan hρ hu hv hNaN hOrdering hSub hSame hMayBe hNumber] at hSome
    rcases (mem_cases hOrdering).mp hSub with rfl | rfl | rfl
    · cases hSome
    · cases hSome
    · rcases hRel with rfl | rfl <;> rfl
  | otherwise _ hInfeasible =>
    have hSub : Relation.eq ∈ rel.cases := (mem_cases hOrdering).mpr (Or.inr (Or.inr rfl))
    have hNot := hInfeasible _ hSub
    rw [apply_self_of_nan hρ hu hv hNaN hOrdering hSub hSame hMayBe hNumber] at hNot
    cases hNot

/-- Where an operand is known to be a NaN, the comparison is false in the state that is split off, or
in the state as it is. -/
theorem exists_way_of_known (hKnown : s.fact a u = .double .nan ∨ s.fact a v = .double .nan)
    (hNot : ¬ OverlooksNaN a s ρ u rel v) : ∃ t, Way a s u rel v t false ∧ t.Satisfies w a ρ := by
  cases hSome : unordered? a s u v with
  | none =>
    exact ⟨s, .otherwise hSome fun sub hSub =>
      infeasible_of_known hρ hu hv hNaN hOrdering hSub hKnown, hρ⟩
  | some t =>
    obtain ⟨p, hSuspect, hSplit⟩ := Option.bind_eq_some_iff.mp (unordered?_eq.symm.trans hSome)
    have hFeasible := (Narrowing.state?_eq_some.mp hSplit).1
    have hValue : a.isVariable p = true → ρ p = .double none := fun hVariable =>
      by_contra fun hNumber => hNot (.known hSuspect hVariable hNumber hFeasible hKnown)
    obtain ⟨t', ht', hSatisfies⟩ :=
      (exists_unordered_iff hArena hState hρ hu hv hSuspect).mpr hValue
    exact ⟨t', .unordered ht', hSatisfies⟩

/-- What may be a NaN and is compared with itself is one in the state that is split off. A strict order
is also false as it equals itself. -/
theorem exists_way_of_same (hSame : u = v) (hNumber : s.fact a u ≠ .double .nan)
    (hNot : ¬ OverlooksNaN a s ρ u rel v) : ∃ t, Way a s u rel v t false ∧ t.Satisfies w a ρ := by
  have hMayBe : (s.fact a u).Admits w (.double none) := by
    rcases hNaN with rfl | rfl
    · exact hu.admits hρ
    · exact hSame ▸ hv.admits hρ
  rcases Fact.admits_double_iff.mp hMayBe with hTop | ⟨e, hDouble, he⟩
  · have hStrict : rel.impliedBy .eq = false := by
      have hLoose : ∀ r : Relation, r.isOrdering = true → r.impliedBy .eq = true →
          r = .le ∨ r = .ge := by
        intro r
        cases r <;> decide
      exact eq_false_of_ne_true fun h => hNot (.itself hSame hTop (hLoose rel hOrdering h))
    have hSub : Relation.eq ∈ rel.cases := (mem_cases hOrdering).mpr (Or.inr (Or.inr rfl))
    have hSelf := apply_self_of_nan hρ hu hv hNaN hOrdering hSub hSame hMayBe hNumber
    have hFeasible : (s.apply a (.of a u .eq v)).feasible = true := by
      rw [hSelf]
      rfl
    have hStays : (s.apply a (.of a u .eq v)).state = s := by rw [hSelf]
    exact ⟨_, hStrict ▸ .ordered hSub hFeasible, hStays.symm ▸ hρ⟩
  · have hAny : s.fact a u = .double .any := by
      cases e with
      | any => exact hDouble
      | nan => exact absurd hDouble hNumber
      | const z => cases he
    have hValue : a.isVariable u = true → ρ u = .double none := by
      intro hVariable
      rcases hNaN with rfl | rfl
      · exact hu.own hVariable
      · subst hSame
        exact hv.own hVariable
    obtain ⟨t, ht, hSatisfies⟩ :=
      (exists_unordered_iff hArena hState hρ hu hv (if_pos hAny)).mpr hValue
    exact ⟨t, .unordered ht, hSatisfies⟩

/-- Where no operand is known to be a NaN, the comparison of two is false in the state that is split
off, or in that of a relation of which nothing is recorded. -/
theorem exists_way_of_open (hNe : u ≠ v) (hLeft : s.fact a u ≠ .double .nan)
    (hRight : s.fact a v ≠ .double .nan) (hNot : ¬ OverlooksNaN a s ρ u rel v) :
    ∃ t, Way a s u rel v t false ∧ t.Satisfies w a ρ := by
  cases hVariables : a.isVariable u && a.isVariable v with
  | true =>
    obtain ⟨hLeftVariable, hRightVariable⟩ := (Bool.and_eq_true _ _).mp hVariables
    obtain ⟨p, hSuspect, hValue⟩ : ∃ p, suspect? a s u v = some p ∧ ρ p = .double none := by
      by_contra hNone
      exact hNot (.recorded hNe hLeftVariable hRightVariable hLeft hRight
        fun p hp hValue => hNone ⟨p, hp, hValue⟩)
    obtain ⟨t, ht, hSatisfies⟩ :=
      (exists_unordered_iff hArena hState hρ hu hv hSuspect).mpr fun _ => hValue
    exact ⟨t, .unordered ht, hSatisfies⟩
  | false =>
    obtain ⟨sub, hSub, hStrict, hOutcome⟩ : ∃ sub ∈ rel.cases,
        sub.isOrdering = true ∧ rel.impliedBy sub = false := by
      cases rel with
      | lt | le => exact ⟨.gt, (mem_cases rfl).mpr (Or.inr (Or.inl rfl)), rfl, rfl⟩
      | gt | ge => exact ⟨.lt, (mem_cases rfl).mpr (Or.inl rfl), rfl, rfl⟩
      | _ => cases hOrdering
    obtain ⟨hFeasible, hSatisfies⟩ := State.satisfies_applyOpen_order hArena hState hρ hu hv hNaN
      hStrict hLeft hRight fun h => nomatch hVariables.symm.trans h
    rw [← apply_eq_applyOpen hρ hu hv hNaN hOrdering hSub hNe hLeft hRight] at hFeasible hSatisfies
    exact ⟨_, hOutcome ▸ .ordered hSub hFeasible, hSatisfies hVariables⟩

/-- **The ways in which a comparison with NaN is false** are found, unless the NaN is overlooked. -/
theorem exists_way_iff :
    (∃ t, Way a s u rel v t false ∧ t.Satisfies w a ρ) ↔ ¬ OverlooksNaN a s ρ u rel v := by
  constructor
  · rintro ⟨t, hWay, hSatisfies⟩ hOverlooks
    cases hOverlooks with
    | known hSuspect hVariable hNumber hFeasible hKnown =>
      exact not_satisfies_way_known hArena hState hρ hu hv hNaN hOrdering hSuspect hVariable hNumber
        hFeasible hKnown hWay hSatisfies
    | recorded hNe hLeft hRight hLeftFact hRightFact hNumbers =>
      exact not_satisfies_way_recorded hArena hState hρ hu hv hNaN hOrdering hNe hLeft hRight
        hLeftFact hRightFact hNumbers hWay hSatisfies
    | itself hSame hTop hRel =>
      cases eq_true_of_way_itself hρ hu hv hNaN hOrdering hSame hTop hRel hWay
  · intro hNot
    by_cases hKnown : s.fact a u = .double .nan ∨ s.fact a v = .double .nan
    · exact exists_way_of_known hArena hState hρ hu hv hNaN hOrdering hKnown hNot
    · obtain ⟨hLeft, hRight⟩ := not_or.mp hKnown
      by_cases hSame : u = v
      · exact exists_way_of_same hArena hState hρ hu hv hNaN hOrdering hSame hLeft hNot
      · exact exists_way_of_open hArena hState hρ hu hv hNaN hOrdering hSame hLeft hRight hNot

end

/-- **Order comparisons with NaN.** Two values are taken from the stack. If they are doubles, and one
of them is a NaN, the valuation goes on in an item in which the result is false, unless the NaN is
overlooked. -/
theorem perform_order_covers_nan_iff (hReached : Reached w.types σ.arena s)
    (hρ : s.Satisfies w σ.arena ρ) (hLeft : u < σ.arena.size) (hRight : v < σ.arena.size)
    (hu : Denotes w σ.arena ρ u (.double c)) (hv : Denotes w σ.arena ρ v (.double d))
    (hNaN : c = none ∨ d = none) (hOrdering : rel.isOrdering = true) :
    Yields (perform ctx index ((s.push u).push v) (.boolean (.relation rel) anchor)) σ
      fun items τ => (∃ it ∈ items, it.index = index + 1 ∧ it.state.Satisfies w τ.arena ρ ∧
        ∃ r, it.state.stack = r :: s.stack ∧ (it.state.fact τ.arena r).bool? = some false) ↔
          ¬ OverlooksNaN σ.arena s ρ u rel v := by
  obtain ⟨hArena, hState⟩ := hReached.coherent
  have hPop : ∀ {t : State} {v}, pop index (t.push v) = pure (v, t) := rfl
  show Yields (boolean index (.relation rel) anchor ((s.push u).push v)) σ _
  unfold boolean
  rw [hPop, yields_bind, yields_pure]
  dsimp only
  rw [hPop, yields_bind, yields_pure]
  refine (ways_compare (w := w) hArena hState hReached.founded hLeft hRight rfl hOrdering
    fun sub hSub => (apply_cases_of_nan hρ hu hv hNaN hOrdering hSub).2.1).mono ?_
  rintro items τ ⟨hExtends, hSound, hComplete⟩
  rw [← exists_way_iff hArena hState hρ hu hv hNaN hOrdering]
  have hSatisfies : ∀ {t : State} {r}, (t.push r).Satisfies w τ.arena ρ ↔ t.Satisfies w σ.arena ρ :=
    fun {t r} => (State.satisfies_grows hArena hExtends.grows).trans
      ⟨fun h => h.congr rfl rfl, fun h => h.congr rfl rfl⟩
  constructor
  · rintro ⟨it, hit, -, hρ', r, hStack, hResult⟩
    obtain ⟨t, outcome, hWay, q, -, rfl, hOutcome⟩ := hSound it hit
    obtain rfl : q = r := (List.cons.inj hStack).1
    rw [hOutcome] at hResult
    cases hResult
    exact ⟨t, hWay, hSatisfies.mp hρ'⟩
  · rintro ⟨t, hWay, hρ'⟩
    obtain ⟨it, hit, r, -, rfl, hOutcome⟩ := hComplete t false hWay
    exact ⟨_, hit, rfl, hSatisfies.mpr hρ', r, congrArg (r :: ·) hWay.stack, hOutcome _⟩

/-- The second of the doubles is a NaN. -/
def secondNaN : ValueId → Concrete := fun v => if v = 2 then .double none else .double (some .zero)

/-- `x < y` is found to be false where `x` is a NaN, but not where only `y` is one. -/
theorem order_covers_nan_of_doubles :
    Yields (perform usualContext 0 ((State.initial.push 1).push 2) (.boolean (.relation .lt) none))
      (.start State.doubles) (fun items τ => ∃ it ∈ items, it.index = 1 ∧
        it.state.Satisfies State.plainWorld τ.arena (fun _ => .double none) ∧
        ∃ r, it.state.stack = [r] ∧ (it.state.fact τ.arena r).bool? = some false) ∧
    Yields (perform usualContext 0 ((State.initial.push 1).push 2) (.boolean (.relation .lt) none))
      (.start State.doubles) fun items τ => ¬ ∃ it ∈ items, it.index = 1 ∧
        it.state.Satisfies State.plainWorld τ.arena secondNaN ∧
        ∃ r, it.state.stack = [r] ∧ (it.state.fact τ.arena r).bool? = some false := by
  obtain ⟨hSize, -, hLeft, hRight, hX, hY⟩ := State.evaluated_doubles
  have hLess : 1 < (Session.start State.doubles).arena.size ∧ 2 < (Session.start State.doubles).arena.size := by
    rw [show (Session.start State.doubles).arena.size = 3 from hSize]
    decide
  have hSuspect : suspect? State.doubles .initial 1 2 = some 1 := if_pos hX
  constructor
  · refine (perform_order_covers_nan_iff State.reached_doubles (State.satisfies_doubles fun _ => ⟨_, rfl⟩)
      hLess.1 hLess.2 (.of_variable hLeft rfl) (.of_variable hRight rfl) (Or.inl rfl) rfl).mono ?_
    intro items τ hCovers
    refine hCovers.mpr fun hOverlooks => ?_
    cases hOverlooks with
    | known _ _ hNumber => exact hNumber rfl
    | recorded _ _ _ _ _ hNumbers => exact hNumbers 1 hSuspect rfl
    | itself hSame => cases hSame
  · have hSatisfies : State.initial.Satisfies State.plainWorld State.doubles secondNaN := by
      refine State.satisfies_doubles fun v => ?_
      unfold secondNaN
      split <;> exact ⟨_, rfl⟩
    refine (perform_order_covers_nan_iff State.reached_doubles hSatisfies hLess.1 hLess.2
      (.of_variable hLeft rfl) (.of_variable hRight rfl) (Or.inr rfl) rfl).mono ?_
    intro items τ hCovers hCovered
    refine hCovers.mp hCovered (.recorded (by decide) hLeft hRight ?_ ?_ fun p hp => ?_)
    · exact fun h => nomatch hX.symm.trans h
    · exact fun h => nomatch hY.symm.trans h
    · cases hSuspect.symm.trans hp
      nofun

end Step

end Pathwise
