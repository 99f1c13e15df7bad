import Pathwise.Proofs.Canonical

/-!
# Recorded relations together

A relation is recorded if it is compatible with each relation that is recorded between the same
variables. So any two recorded relations hold of some integers. All of them together need not:
`≤`, `≥` and `≠` are compatible two by two, and no two integers are in all three relations. There
is no other way to record relations that cannot hold together.

Conditions are checked against the recorded relations only if the facts of their operands leave
them open. One that the facts decide is taken as decided, even if the relations rule it out.

## Results

* `satisfiable_iff_of_compatible` — when relations that are compatible two by two hold together.
* `State.Agreeing`                — recorded relations are compatible two by two, always.
* `satisfiable_linksBetween`      — when they hold together, and what is then still assumed.
* `assumed_apart`, `assumed_against_facts` — conditions that are assumed and rule each other out.
-/

namespace Pathwise

-- ---------------------------------------------------------------------------
-- Relations that hold together
-- ---------------------------------------------------------------------------

namespace Relation

/-- Two integers are in all of the relations. -/
def Satisfiable (rs : List Relation) : Prop := ∃ m n : Int, ∀ r ∈ rs, r.HoldsOfInts m n

/-- Neither less nor greater nor equal: each two of the three relations hold of some integers,
but not all three. -/
def Apart (rs : List Relation) : Prop := .le ∈ rs ∧ .ge ∈ rs ∧ .ne ∈ rs

variable {rs : List Relation} {r r' q q' : Relation} {m n : Int}

theorem compatible_comm : r.compatible q = q.compatible r := by
  cases r <;> cases q <;> rfl

theorem compatible_self : r.compatible r = true := by
  cases r <;> rfl

/-- Exchanging the operands of both relations changes nothing. -/
theorem compatible_flipped (hr : r.flipped? = some r') (hq : q.flipped? = some q') :
    r'.compatible q' = r.compatible q := by
  cases r <;> cases hr <;> cases q <;> cases hq <;> rfl

/-- A comparison is a primitive outcome, or leaves two of them. -/
theorem primitive_or_not (hr : r.isTypeTest = false) :
    (r = .lt ∨ r = .gt ∨ r = .eq) ∨ r = .le ∨ r = .ge ∨ r = .ne := by
  cases r <;> first | exact absurd hr (by decide) | simp

/-- What is compatible with a primitive outcome holds where this is the outcome. -/
theorem holds_of_compatible (hq : q = .lt ∨ q = .gt ∨ q = .eq) (hr : r.isTypeTest = false)
    (hCompatible : q.compatible r = true) (h : q.HoldsOfInts m n) : r.HoldsOfInts m n := by
  rcases hq with rfl | rfl | rfl <;> cases r <;>
    first
    | exact absurd hr (by decide)
    | exact absurd hCompatible (by decide)
    | (simp only [HoldsOfInts] at h ⊢; omega)

/-- **Relations that are compatible two by two** hold together, unless they leave no outcome. -/
theorem satisfiable_iff_of_compatible (hComparing : ∀ r ∈ rs, r.isTypeTest = false)
    (hPairs : ∀ r ∈ rs, ∀ q ∈ rs, r.compatible q = true) : Satisfiable rs ↔ ¬ Apart rs := by
  constructor
  · rintro ⟨m, n, hAll⟩ ⟨hLe, hGe, hNe⟩
    exact hAll _ hNe (Int.le_antisymm (hAll _ hLe) (hAll _ hGe))
  · intro hNot
    -- a primitive outcome decides, and without one at least one of the three is missing
    by_cases hPrimitive : ∃ q ∈ rs, q = .lt ∨ q = .gt ∨ q = .eq
    · obtain ⟨q, hq, hCase⟩ := hPrimitive
      have hSome : ∃ m n, q.HoldsOfInts m n := by
        rcases hCase with rfl | rfl | rfl
        · exact ⟨0, 1, Int.zero_lt_one⟩
        · exact ⟨1, 0, Int.zero_lt_one⟩
        · exact ⟨0, 0, rfl⟩
      obtain ⟨m, n, hHolds⟩ := hSome
      exact ⟨m, n, fun r hr =>
        holds_of_compatible hCase (hComparing r hr) (hPairs q hq r hr) hHolds⟩
    · have hKinds : ∀ r ∈ rs, r = .le ∨ r = .ge ∨ r = .ne := by
        intro r hr
        exact (primitive_or_not (hComparing r hr)).resolve_left fun h => hPrimitive ⟨r, hr, h⟩
      have hWithout : ∀ q m n, q ∉ rs → (∀ r, (r = .le ∨ r = .ge ∨ r = .ne) → r ≠ q →
          r.HoldsOfInts m n) → Satisfiable rs := by
        intro q m n hq hOthers
        exact ⟨m, n, fun r hr => hOthers r (hKinds r hr) fun h => hq (h ▸ hr)⟩
      by_cases hLe : Relation.le ∈ rs
      · by_cases hGe : Relation.ge ∈ rs
        · refine hWithout .ne 0 0 (fun hNe => hNot ⟨hLe, hGe, hNe⟩) ?_
          rintro r (rfl | rfl | rfl) hr <;> simp_all [HoldsOfInts]
        · refine hWithout .ge 0 1 hGe ?_
          rintro r (rfl | rfl | rfl) hr <;> simp_all [HoldsOfInts]
      · refine hWithout .le 1 0 hLe ?_
        rintro r (rfl | rfl | rfl) hr <;> simp_all [HoldsOfInts]

end Relation

-- ---------------------------------------------------------------------------
-- Recorded relations
-- ---------------------------------------------------------------------------

/-- A link is seen from one side or from the other. -/
theorem Link.between?_eq_some {l : Link} {r : Relation} {u v : ValueId} (hl : l.left ≠ l.right) :
    l.between? u v = some r ↔
      l.left = u ∧ l.right = v ∧ l.rel = r ∨
        l.left = v ∧ l.right = u ∧ l.rel.flipped? = some r := by
  unfold between?
  split
  · rename_i h
    obtain ⟨rfl, rfl⟩ := h
    simp [hl]
  · rename_i h
    split
    · rename_i h'
      obtain ⟨rfl, rfl⟩ := h'
      simp [hl]
    · rename_i h'
      refine iff_of_false nofun ?_
      rintro (⟨hLeft, hRight, -⟩ | ⟨hLeft, hRight, -⟩)
      · exact h ⟨hLeft, hRight⟩
      · exact h' ⟨hLeft, hRight⟩

namespace State

open Pathwise.Relation (Satisfiable Apart)

variable {a b : Arena} {s t : State} {rel r q : Relation} {u v x y : ValueId} {l : Link}

theorem mem_linksBetween : r ∈ s.linksBetween u v ↔ ∃ l ∈ s.links, l.between? u v = some r :=
  List.mem_filterMap

/-- The relations between two variables are comparisons. -/
theorem comparing_linksBetween (hs : s.Ascending a) :
    ∀ r ∈ s.linksBetween u v, r.isTypeTest = false := by
  intro r hr
  obtain ⟨l, hl, hBetween⟩ := mem_linksBetween.mp hr
  obtain ⟨hLess, -, hComparison⟩ := hs l hl
  rcases (Link.between?_eq_some (Nat.ne_of_lt hLess)).mp hBetween with
    ⟨-, -, rfl⟩ | ⟨-, -, hFlipped⟩
  · exact hComparison
  · exact isTypeTest_of_flipped? hFlipped

/-- What relates two values relates them the other way round, flipped. -/
theorem mem_linksBetween_flipped (hs : s.Ascending a) (h : r.flipped? = some q)
    (hr : r ∈ s.linksBetween u v) : q ∈ s.linksBetween v u := by
  obtain ⟨l, hl, hBetween⟩ := mem_linksBetween.mp hr
  have hNe := Nat.ne_of_lt (hs l hl).1
  refine mem_linksBetween.mpr ⟨l, hl, (Link.between?_eq_some hNe).mpr ?_⟩
  rcases (Link.between?_eq_some hNe).mp hBetween with ⟨hLeft, hRight, rfl⟩ | ⟨hLeft, hRight, hRel⟩
  · exact Or.inr ⟨hLeft, hRight, h⟩
  · refine Or.inl ⟨hLeft, hRight, ?_⟩
    have hBack := Relation.flipped?_flipped? hRel
    exact Option.some.inj (hBack.symm.trans h)

/-- **A relation is recorded** for both sides. -/
theorem mem_linksBetween_addLink (hNe : u ≠ v) (hr : r ∈ (s.addLink u rel v).linksBetween x y) :
    r ∈ s.linksBetween x y ∨ x = u ∧ y = v ∧ r = rel ∨
      x = v ∧ y = u ∧ rel.flipped? = some r := by
  obtain ⟨l, hl, hBetween⟩ := mem_linksBetween.mp hr
  rcases mem_addLink hl with hl | rfl | ⟨q, hFlipped, rfl⟩
  · exact Or.inl (mem_linksBetween.mpr ⟨l, hl, hBetween⟩)
  · rcases (Link.between?_eq_some hNe).mp hBetween with ⟨rfl, rfl, rfl⟩ | ⟨rfl, rfl, hRel⟩
    · exact Or.inr (Or.inl ⟨rfl, rfl, rfl⟩)
    · exact Or.inr (Or.inr ⟨rfl, rfl, hRel⟩)
  · rcases (Link.between?_eq_some hNe.symm).mp hBetween with ⟨rfl, rfl, rfl⟩ | ⟨rfl, rfl, hRel⟩
    · exact Or.inr (Or.inr ⟨rfl, rfl, hFlipped⟩)
    · refine Or.inr (Or.inl ⟨rfl, rfl, ?_⟩)
      exact Option.some.inj (hRel.symm.trans (Relation.flipped?_flipped? hFlipped))

/-- The relations recorded between two variables are compatible two by two. -/
def Agreeing (s : State) : Prop :=
  ∀ u v, ∀ r ∈ s.linksBetween u v, ∀ q ∈ s.linksBetween u v, r.compatible q = true

/-- What contradicts no recorded relation is compatible with each. -/
theorem compatible_of_mem_linksBetween (h : s.contradictsLink u rel v = false)
    (hr : r ∈ s.linksBetween u v) : r.compatible rel = true := by
  have hr := List.any_eq_false.mp h r hr
  simpa using hr

/-- A relation that contradicts none is recorded. -/
theorem Agreeing.addLink (h : s.Agreeing) (hs : s.Ascending a) (hMay : s.MayRecord a u rel v) :
    (s.addLink u rel v).Agreeing := by
  have hAgainst : ∀ x y r q, r ∈ s.linksBetween x y →
      x = u ∧ y = v ∧ q = rel ∨ x = v ∧ y = u ∧ rel.flipped? = some q →
      r.compatible q = true := by
    rintro x y r q hr (⟨rfl, rfl, rfl⟩ | ⟨rfl, rfl, hFlipped⟩)
    · exact compatible_of_mem_linksBetween hMay.compatible hr
    · obtain ⟨r', hr'⟩ : ∃ r', r.flipped? = some r' := by
        refine Option.ne_none_iff_exists'.mp fun hNone => ?_
        have hTest := Relation.flipped?_eq_none_iff.mp hNone
        rw [comparing_linksBetween hs r hr] at hTest
        cases hTest
      rw [← Relation.compatible_flipped hr' (Relation.flipped?_flipped? hFlipped)]
      exact compatible_of_mem_linksBetween hMay.compatible (mem_linksBetween_flipped hs hr' hr)
  intro x y r hr q hq
  rcases mem_linksBetween_addLink hMay.ne hr with hr | hr
  · rcases mem_linksBetween_addLink hMay.ne hq with hq | hq
    · exact h x y r hr q hq
    · exact hAgainst x y r q hr hq
  · rcases mem_linksBetween_addLink hMay.ne hq with hq | hq
    · rw [Relation.compatible_comm]
      exact hAgainst x y q r hq hr
    · -- both are the new relation, seen from the same side
      have hSame : r = q := by
        rcases hr with ⟨rfl, rfl, rfl⟩ | ⟨rfl, rfl, hFlipped⟩
        · rcases hq with ⟨-, -, rfl⟩ | ⟨hEq, -⟩
          · rfl
          · exact absurd hEq hMay.ne
        · rcases hq with ⟨hEq, -⟩ | ⟨-, -, hFlipped'⟩
          · exact absurd hEq.symm hMay.ne
          · exact Option.some.inj (hFlipped.symm.trans hFlipped')
      rw [hSame]
      exact Relation.compatible_self

theorem Agreeing.fewer (h : s.Agreeing) (hFewer : ∀ l ∈ t.links, l ∈ s.links) : t.Agreeing := by
  have hMem : ∀ {u v r}, r ∈ t.linksBetween u v → r ∈ s.linksBetween u v := by
    intro u v r hr
    obtain ⟨l, hl, hBetween⟩ := mem_linksBetween.mp hr
    exact mem_linksBetween.mpr ⟨l, hFewer l hl, hBetween⟩
  exact fun u v r hr q hq => h u v r (hMem hr) q (hMem hq)

/-- **One operation** keeps the recorded relations compatible. -/
theorem Moves.agreeing (h : Moves a s b t) (hs : s.Ascending a) (hAgree : s.Agreeing) :
    t.Agreeing := by
  rcases h.links with hFewer | ⟨r, u, rel, v, hFewer, hMay, hLinks⟩
  · exact hAgree.fewer hFewer
  · have hr : r.Ascending a := fun l hl => hs l (hFewer l hl)
    exact ((hAgree.fewer hFewer).addLink hr hMay).fewer fun l hl => hLinks ▸ hl

/-- Recorded relations are compatible two by two, whatever is done to a state. -/
theorem Arises.agreeing (h : Arises a s) : s.Agreeing := by
  induction h with
  | start => exact fun _ _ r hr => absurd hr List.not_mem_nil
  | move hBefore hMove ih => exact hMove.agreeing hBefore.ascending ih

-- ---------------------------------------------------------------------------
-- What is assumed
-- ---------------------------------------------------------------------------

/-- A comparison of two integer variables that their facts leave open. -/
structure LeftOpen (a : Arena) (s : State) (u : ValueId) (rel : Relation) (v : ValueId) : Prop where
  left      : a.isVariable u = true
  right     : a.isVariable v = true
  ne        : u ≠ v
  comparing : rel.isTypeTest = false
  leftInt   : (s.fact a u).Integral
  rightInt  : (s.fact a v).Integral
  undecided : Fact.decide? rel (s.fact a u) (s.fact a v) ≠ some true

theorem ne_nan_of_integral {f : Fact} (h : f.Integral) : f ≠ .double .nan := by
  rcases h with rfl | ⟨r, rfl⟩ <;> exact nofun

/-- What the facts leave open is assumed only if it contradicts no recorded relation. -/
theorem LeftOpen.contradictsLink (hOpen : LeftOpen a s u rel v)
    (h : (s.apply a (.relation u rel v)).feasible = true) : s.contradictsLink u rel v = false := by
  have h : (s.applyRelation a u rel v).feasible = true := h
  unfold applyRelation at h
  dsimp only at h
  split at h
  · cases h
  · split at h
    · rename_i hNan
      simp [ne_nan_of_integral hOpen.leftInt, ne_nan_of_integral hOpen.rightInt] at hNan
    · split at h
      · rename_i hSelf
        simp [hOpen.ne] at hSelf
      · split at h
        · rename_i b hDecided
          exact absurd (h ▸ hDecided) hOpen.undecided
        · unfold applyOpen at h
          dsimp only at h
          split at h
          · cases h
          · rename_i hFree
            refine Bool.eq_false_iff.mpr fun hContradicts => hFree ?_
            rw [hOpen.left, hOpen.right, hOpen.comparing, hContradicts]
            rfl

/-- **Recorded relations hold together** of some integers unless they leave no outcome. A
relation that cannot hold together with them is not assumed, unless the facts decide it or
again no outcome is left. -/
theorem satisfiable_linksBetween (h : Arises a s) (u v : ValueId) :
    (Satisfiable (s.linksBetween u v) ↔ ¬ Apart (s.linksBetween u v)) ∧
      ∀ rel, LeftOpen a s u rel v → ¬ Apart (rel :: s.linksBetween u v) →
        ¬ Satisfiable (rel :: s.linksBetween u v) →
        (s.apply a (.relation u rel v)).feasible = false := by
  have hComparing := comparing_linksBetween h.ascending (u := u) (v := v)
  have hPairs := h.agreeing u v
  refine ⟨Relation.satisfiable_iff_of_compatible hComparing hPairs, ?_⟩
  intro rel hOpen hNot hUnsatisfiable
  refine Bool.eq_false_iff.mpr fun hFeasible => hUnsatisfiable ?_
  have hNew : ∀ r ∈ s.linksBetween u v, r.compatible rel = true := fun r =>
    compatible_of_mem_linksBetween (hOpen.contradictsLink hFeasible)
  refine (Relation.satisfiable_iff_of_compatible ?_ ?_).mpr hNot
  · exact List.forall_mem_cons.mpr ⟨hOpen.comparing, hComparing⟩
  · refine List.forall_mem_cons.mpr ⟨List.forall_mem_cons.mpr ⟨Relation.compatible_self, ?_⟩, ?_⟩
    · exact fun r hr => Relation.compatible_comm.trans (hNew r hr)
    · exact fun r hr => List.forall_mem_cons.mpr ⟨hNew r hr, hPairs r hr⟩

/-- The first integer is at most the second, and different from it. -/
def below : State :=
  ((initial.apply integers (.relation 1 .le 2)).state.apply integers (.relation 1 .ne 2)).state

theorem arises_below : Arises integers below :=
  .move (.move arises_integers (.apply (.relation 1 .le 2))) (.apply (.relation 1 .ne 2))

theorem evaluated_below :
    (initial.apply integers (.relation 1 .le 2)).feasible = true ∧
      ((initial.apply integers (.relation 1 .le 2)).state.apply integers
        (.relation 1 .ne 2)).feasible = true ∧
      below.linksBetween 1 2 = [.ne, .le] ∧ integers.allVars = [1, 2] ∧
      below.fact integers 1 = .int (.ofWidth .int) ∧
      below.fact integers 2 = .int (.ofWidth .int) ∧
      Fact.decide? .gt (.int (.ofWidth .int)) (.int (.ofWidth .int)) = none := by
  decide +kernel

/-- The relations hold together, and it is not assumed that the first integer is greater. -/
theorem satisfiable_below :
    Arises integers below ∧ Satisfiable (below.linksBetween 1 2) ∧
      LeftOpen integers below 1 .gt 2 ∧
      (below.apply integers (.relation 1 .gt 2)).feasible = false := by
  obtain ⟨-, -, hLinks, hVars, hLeft, hRight, hUndecided⟩ := evaluated_below
  have hVariable : ∀ v ∈ [1, 2], integers.isVariable v = true := fun v hv =>
    Arena.mem_allVars.mp (hVars ▸ hv)
  have hOpen : LeftOpen integers below 1 .gt 2 := by
    refine ⟨hVariable 1 (by decide), hVariable 2 (by decide), by decide, rfl, ?_, ?_, ?_⟩
    · exact Or.inr ⟨_, hLeft⟩
    · exact Or.inr ⟨_, hRight⟩
    · rw [hLeft, hRight, hUndecided]
      exact nofun
  refine ⟨arises_below, ?_, hOpen, ?_⟩
  · refine (satisfiable_linksBetween arises_below 1 2).1.mpr fun hApart => ?_
    rw [hLinks] at hApart
    exact absurd hApart.2.1 (by decide)
  · refine (satisfiable_linksBetween arises_below 1 2).2 .gt hOpen ?_ ?_
    · rw [hLinks]
      exact fun hApart => absurd hApart.2.1 (by decide)
    · rw [hLinks]
      rintro ⟨m, n, hAll⟩
      exact absurd (hAll .gt (by decide)) (Int.not_lt.mpr (hAll .le (by decide)))

/-- **No outcome is left**: that the first integer is at least the second is assumed as well. -/
theorem assumed_apart :
    (below.apply integers (.relation 1 .ge 2)).feasible = true ∧
      ¬ Satisfiable ((below.apply integers (.relation 1 .ge 2)).state.linksBetween 1 2) := by
  have hEvaluated : (below.apply integers (.relation 1 .ge 2)).feasible = true ∧
      (below.apply integers (.relation 1 .ge 2)).state.linksBetween 1 2 = [.ne, .le, .ge] := by
    decide +kernel
  refine ⟨hEvaluated.1, ?_⟩
  rw [hEvaluated.2]
  rintro ⟨m, n, hAll⟩
  exact hAll .ne (by decide) (Int.le_antisymm (hAll .le (by decide)) (hAll .ge (by decide)))

/-- The first integer is less than the second, then it is found to be 9 and the second to be 1. -/
def inverted : State :=
  (((initial.apply integers (.relation 1 .lt 2)).state.meetFact integers 1
    (.int (.point 9))).state.meetFact integers 2 (.int (.point 1))).state

/-- **The facts decide against a relation**: that the first integer is greater is assumed. -/
theorem assumed_against_facts :
    Arises integers inverted ∧ (inverted.apply integers (.relation 1 .gt 2)).feasible = true ∧
      ¬ Satisfiable (.gt :: inverted.linksBetween 1 2) := by
  have hEvaluated : (inverted.apply integers (.relation 1 .gt 2)).feasible = true ∧
      inverted.linksBetween 1 2 = [.lt] := by
    decide +kernel
  refine ⟨?_, hEvaluated.1, ?_⟩
  · exact .move (.move (.move arises_integers (.apply (.relation 1 .lt 2)))
      (.meetFact 1 (.int (.point 9)))) (.meetFact 2 (.int (.point 1)))
  · rw [hEvaluated.2]
    rintro ⟨m, n, hAll⟩
    exact absurd (hAll .gt (by decide)) (Int.not_lt.mpr (Int.le_of_lt (hAll .lt (by decide))))

end State

end Pathwise
