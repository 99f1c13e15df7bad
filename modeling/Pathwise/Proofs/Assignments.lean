import Mathlib.Logic.Relation
import Pathwise.Proofs.Absorption
import Pathwise.Proofs.Feasibility

/-!
# Assignments

An assignment reads what is known of its source, forgets the destination and all it qualifies,
and stores for the destination what its declaration and the source say together. A variable as
a source is then recorded to be equal to the destination.

So the valuation after the assignment fits the state whatever the forgotten variables are, as
far as facts go. The relation is another matter: it holds if the source still has the value that
was read from it, which a source that the destination qualifies need not have, and if the
value equals itself, which a NaN does not. `fits_assign_iff` says that nothing else is needed.

Null is like an object where the declaration and the fact on the source are met, so it may be
lost if they leave no object. The lengths of null are exempt, as they are when a state is narrowed.

## Results

* `Arena.mem_qualifiers_iff`   — the qualifiers of a variable are those above it, in any number.
* `Arena.owns_of_lengthOf`     — a length is forgotten with what it is a length of.
* `stored_assign_believed`, `mem_links_assign` — the state after an assignment.
* `State.Assigned`             — the valuations after an assignment.
* `fits_assign_iff`            — they fit the state if and only if the relation holds.
* `assign_next_unsound`        — the relation does not hold after `x = x.next`.
-/

namespace Pathwise

-- ---------------------------------------------------------------------------
-- What a variable qualifies
-- ---------------------------------------------------------------------------

namespace Arena

variable {H : Hierarchy} {a : Arena} {l : Length} {v q m : ValueId}

theorem qualifier?_eq_some :
    a.qualifier? v = some q ↔ ∃ x, a.get v = .var x ∧ x.qualifier = some q := by
  unfold qualifier? varAt?
  cases a.get v <;> simp

theorem isVariable_of_qualifier? (h : a.qualifier? v = some q) : a.isVariable v = true := by
  obtain ⟨x, hx, -⟩ := qualifier?_eq_some.mp h
  exact isVariable_iff.mpr ⟨x, hx⟩

theorem lt_of_qualifier? (hBack : a.Backward) (h : a.qualifier? v = some q) : q < v := by
  obtain ⟨x, hx, hq⟩ := qualifier?_eq_some.mp h
  exact hBack hx hq

theorem LengthOf.qualifier? (h : a.LengthOf l q v) : a.qualifier? v = some q := by
  obtain ⟨x, hx, -, hq⟩ := h
  exact qualifier?_eq_some.mpr ⟨x, hx, hq⟩

theorem qualifiersUpTo_succ (n : Nat) : a.qualifiersUpTo (n + 1) v =
    match a.qualifier? v with
    | some q => q :: a.qualifiersUpTo n q
    | none => [] := rfl

theorem qualifiers_eq : a.qualifiers v = a.qualifiersUpTo v v := rfl

theorem qualifiersUpTo_of_none {n : Nat} (h : a.qualifier? v = none) :
    a.qualifiersUpTo n v = [] := by
  cases n with
  | zero => rfl
  | succ n => rw [qualifiersUpTo_succ, h]

/-- Following more qualifiers than there are finds no others. -/
theorem qualifiersUpTo_eq (hBack : a.Backward) {v n m : Nat} (hn : v ≤ n) (hm : v ≤ m) :
    a.qualifiersUpTo n v = a.qualifiersUpTo m v := by
  induction v using Nat.strongRecOn generalizing n m with
  | ind v ih =>
    cases hq : a.qualifier? v with
    | none => rw [qualifiersUpTo_of_none hq, qualifiersUpTo_of_none hq]
    | some q =>
      have hLess := lt_of_qualifier? hBack hq
      obtain ⟨n, rfl⟩ := Nat.exists_eq_add_one.mpr (Nat.lt_of_lt_of_le (Nat.zero_lt_of_lt hLess) hn)
      obtain ⟨m, rfl⟩ := Nat.exists_eq_add_one.mpr (Nat.lt_of_lt_of_le (Nat.zero_lt_of_lt hLess) hm)
      rw [qualifiersUpTo_succ, qualifiersUpTo_succ, hq]
      dsimp only
      rw [ih q hLess (Nat.le_of_lt_succ (Nat.lt_of_lt_of_le hLess hn))
        (Nat.le_of_lt_succ (Nat.lt_of_lt_of_le hLess hm))]

theorem qualifiers_eq_cons (hBack : a.Backward) (h : a.qualifier? v = some q) :
    a.qualifiers v = q :: a.qualifiers q := by
  have hLess := lt_of_qualifier? hBack h
  rw [qualifiers_eq, qualifiersUpTo_eq hBack (Nat.le_refl v) (Nat.le_succ v),
    qualifiersUpTo_succ, h]
  exact congrArg (q :: ·) (qualifiersUpTo_eq hBack (Nat.le_of_lt hLess) (Nat.le_refl q))

/-- The qualifiers of a value are what is reached from it by one step after another. -/
theorem mem_qualifiers_iff (hBack : a.Backward) :
    q ∈ a.qualifiers v ↔ Relation.TransGen (fun v q => a.qualifier? v = some q) v q := by
  constructor
  · intro hMem
    induction v using Nat.strongRecOn with
    | ind v ih =>
      cases hq : a.qualifier? v with
      | none =>
        rw [qualifiers_eq, qualifiersUpTo_of_none hq] at hMem
        cases hMem
      | some p =>
        rw [qualifiers_eq_cons hBack hq] at hMem
        rcases List.mem_cons.mp hMem with rfl | hMem
        · exact .single hq
        · exact .head hq (ih p (lt_of_qualifier? hBack hq) hMem)
  · intro hChain
    induction hChain using Relation.TransGen.head_induction_on with
    | single hq =>
      rw [qualifiers_eq_cons hBack hq]
      exact List.mem_cons_self
    | head hq _ ih =>
      rw [qualifiers_eq_cons hBack hq]
      exact List.mem_cons_of_mem _ ih

theorem lt_of_mem_qualifiers (hBack : a.Backward) (h : q ∈ a.qualifiers v) : q < v := by
  have hChain := (mem_qualifiers_iff hBack).mp h
  induction hChain using Relation.TransGen.head_induction_on with
  | single hq => exact lt_of_qualifier? hBack hq
  | head hq hRest ih =>
    exact Nat.lt_trans (ih ((mem_qualifiers_iff hBack).mpr hRest)) (lt_of_qualifier? hBack hq)

theorem mem_qualifiers_trans (hBack : a.Backward) (h : m ∈ a.qualifiers v)
    (h' : q ∈ a.qualifiers m) : q ∈ a.qualifiers v := by
  rw [mem_qualifiers_iff hBack] at h h' ⊢
  exact h.trans h'

/-- A value that has qualifiers is a variable. -/
theorem isVariable_of_mem_qualifiers (h : q ∈ a.qualifiers v) : a.isVariable v = true := by
  cases hq : a.qualifier? v with
  | some p => exact isVariable_of_qualifier? hq
  | none =>
    rw [qualifiers_eq, qualifiersUpTo_of_none hq] at h
    cases h

theorem mem_dependents : m ∈ a.dependents v ↔ a.isVariable m = true ∧ v ∈ a.qualifiers m := by
  rw [dependents, List.mem_filter, mem_allVars, List.contains_iff_mem]

/-- What a value qualifies comes after it. -/
theorem not_mem_dependents_of_le (hBack : a.Backward) (h : m ≤ v) : m ∉ a.dependents v :=
  fun hMem => Nat.not_lt.mpr h (lt_of_mem_qualifiers hBack (mem_dependents.mp hMem).2)

/-- A variable that a dependent qualifies is a dependent. -/
theorem mem_dependents_of_mem_qualifiers (hBack : a.Backward) (h : m ∈ a.qualifiers v)
    (hm : m ∈ a.dependents q) : v ∈ a.dependents q :=
  mem_dependents.mpr ⟨isVariable_of_mem_qualifiers h,
    mem_qualifiers_trans hBack h (mem_dependents.mp hm).2⟩

/-- The variable is `v`, or one that `v` qualifies. -/
def Owns (a : Arena) (v m : ValueId) : Prop := m = v ∨ m ∈ a.dependents v

/-- **A length goes with its object**, unless it is the variable itself. -/
theorem owns_of_lengthOf (hArena : a.Coherent H) (h : a.LengthOf l q m) (hNe : m ≠ v) :
    a.Owns v q ↔ a.Owns v m := by
  have hVariable := h.isVariable
  unfold Owns
  rw [or_iff_right hNe, mem_dependents, mem_dependents,
    qualifiers_eq_cons hArena.backward h.qualifier?, List.mem_cons]
  constructor
  · rintro (rfl | ⟨-, hMem⟩)
    · exact ⟨hVariable, Or.inl rfl⟩
    · exact ⟨hVariable, Or.inr hMem⟩
  · rintro ⟨-, rfl | hMem⟩
    · exact Or.inl rfl
    · exact Or.inr ⟨isVariable_of_mem_qualifiers hMem, hMem⟩

end Arena

-- ---------------------------------------------------------------------------
-- What is believed
-- ---------------------------------------------------------------------------

namespace Fact

variable {d f : Fact}

/-- What is believed of a value that is declared by `d` and found to be as `f` tells: both, or
the latter if they contradict each other. -/
def believed (d f : Fact) : Fact := if (d.meet f).isBottom then f else d.meet f

theorem believed_of_room (h : (d.meet f).isBottom = false) : d.believed f = d.meet f := by
  rw [believed, h, if_neg Bool.false_ne_true]

/-- A value that the declaration and the fact both allow is allowed when the two are stored, and
met with the declaration again. -/
theorem admits_meet_stored {w : World} {x : Concrete} (hd : d.Over w.types) (hf : f.Over w.types)
    (hMeasurable : x = .null → d.Measurable w) (h : (d.meet f).Admits w x) :
    (d.meet (if d.meet f = d then top else d.meet f)).Admits w x := by
  split
  · rw [meet_top]
    exact (admits_of_meet hd hf h).1
  · rename_i hMore
    refine admits_absorb hd hf ?_ hMeasurable h
    rintro rfl
    exact hMore meet_top

end Fact

-- ---------------------------------------------------------------------------
-- Forgetting
-- ---------------------------------------------------------------------------

namespace State

variable {w : World} {H : Hierarchy} {a : Arena} {s t : State} {f : Fact} {u v m : ValueId}
  {ρ ρ' : ValueId → Concrete} {x : Concrete} {l : Link}

theorem stored_foldl_forget (vs : List ValueId) :
    (vs.foldl forget s).stored m = if m ∈ vs then .top else s.stored m := by
  induction vs generalizing s with
  | nil => rfl
  | cons v vs ih =>
    rw [List.foldl_cons, ih, stored_forget]
    by_cases hMem : m ∈ vs
    · rw [if_pos hMem, if_pos (List.mem_cons_of_mem _ hMem)]
    · rw [if_neg hMem]
      simp only [List.mem_cons, hMem, or_false]

theorem mem_links_foldl_forget (vs : List ValueId) :
    l ∈ (vs.foldl forget s).links ↔ l ∈ s.links ∧ ∀ v ∈ vs, l.mentions v = false := by
  induction vs generalizing s with
  | nil => exact (and_iff_left nofun).symm
  | cons v vs ih =>
    rw [List.foldl_cons, ih, forget, OrdSet.mem_filter, Bool.not_eq_true', List.forall_mem_cons,
      and_assoc]

-- ---------------------------------------------------------------------------
-- The state after an assignment
-- ---------------------------------------------------------------------------

theorem mem_addLink_eq :
    l ∈ (s.addLink v .eq u).links ↔
      l = (if v < u then ⟨v, .eq, u⟩ else ⟨u, .eq, v⟩) ∨ l ∈ s.links := by
  unfold addLink
  split
  · exact OrdSet.mem_insert
  · exact OrdSet.mem_insert

/-- What is stored after an assignment. For the destination that is what its declaration and
the source say together, or what the source says if the declaration contradicts it. -/
theorem stored_assign_believed (hNe : v ≠ u) (hVariable : a.isVariable v = true) :
    (s.assign a v u).stored m =
      if m = v then
        if (a.inherent v).believed (s.fact a u) = a.inherent v then .top
        else (a.inherent v).believed (s.fact a u)
      else if m ∈ a.dependents v then .top
      else s.stored m := by
  have hLinked : ∀ t : State, (if a.isVariable u = true then t.addLink v .eq u else t).stored m =
      t.stored m := by
    intro t
    split
    · rw [stored, stored, facts_addLink]
    · rfl
  have hFlushed : m ≠ v → (s.flushVariable a v).stored m =
      if m ∈ a.dependents v then .top else s.stored m := by
    intro hm
    refine (stored_foldl_forget (a.dependents v)).trans ?_
    rw [stored_forget, if_neg hm]
  unfold assign
  rw [if_neg hNe]
  dsimp only
  rw [hLinked, ← Fact.believed]
  split
  · rename_i hm
    rw [hm]
    exact stored_setFact hVariable
  · rename_i hm
    rw [stored_setFact_of_ne hm, hFlushed hm]

/-- What is stored after an assignment to a variable that has room for the value. -/
theorem stored_assign (hNe : v ≠ u) (hVariable : a.isVariable v = true)
    (hRoom : ((a.inherent v).meet (s.fact a u)).isBottom = false) :
    (s.assign a v u).stored m =
      if m = v then
        if (a.inherent v).meet (s.fact a u) = a.inherent v then .top
        else (a.inherent v).meet (s.fact a u)
      else if m ∈ a.dependents v then .top
      else s.stored m := by
  rw [stored_assign_believed hNe hVariable, Fact.believed_of_room hRoom]

/-- **The relations after an assignment**: those of other variables, and the new equality. -/
theorem mem_links_assign (hNe : v ≠ u) :
    l ∈ (s.assign a v u).links ↔
      (a.isVariable u = true ∧ l = if v < u then ⟨v, .eq, u⟩ else ⟨u, .eq, v⟩) ∨
      (l ∈ s.links ∧ ∀ m ∈ v :: a.dependents v, l.mentions m = false) := by
  have hFlushed : l ∈ (s.flushVariable a v).links ↔
      l ∈ s.links ∧ ∀ m ∈ v :: a.dependents v, l.mentions m = false :=
    mem_links_foldl_forget (v :: a.dependents v)
  unfold assign
  rw [if_neg hNe]
  dsimp only
  split
  · rename_i hu
    rw [mem_addLink_eq, setFact_links, hFlushed]
    simp only [hu, true_and]
  · rename_i hu
    rw [setFact_links, hFlushed]
    simp only [hu, Bool.false_eq_true, false_and, false_or]

/-- Facts agree where what is stored does, if lengths agree together with their objects. -/
theorem fact_congr_stored (hBack : a.Backward) {P : ValueId → Prop}
    (hStored : ∀ m, P m → t.stored m = s.stored m)
    (hLength : ∀ {l q m}, a.LengthOf l q m → P m → P q) (hm : P m) : t.fact a m = s.fact a m := by
  induction m using Nat.strongRecOn with
  | ind m ih =>
    cases hVariable : a.isVariable m with
    | false => rw [fact_of_not_variable hVariable, fact_of_not_variable hVariable]
    | true =>
      obtain ⟨i, hi⟩ := Arena.isVariable_iff.mp hVariable
      rw [hBack.fact_var hi, hBack.fact_var hi, hStored m hm]
      refine congrArg (Fact.meet · _) ?_
      by_cases h : ∃ l q, a.LengthOf l q m
      · obtain ⟨l, q, h⟩ := h
        rw [derived_of_length hi h, derived_of_length hi h,
          ih q (Arena.lt_of_qualifier? hBack h.qualifier?) (hLength h hm)]
      · have hNone : ∀ l q, ¬ a.LengthOf l q m := fun l q h' => h ⟨l, q, h'⟩
        rw [derived_of_not_length hi hNone, derived_of_not_length hi hNone]

/-- The fact of a variable depends on what is stored for it and for what comes before it. -/
theorem fact_congr_below (hBack : a.Backward) (hStored : ∀ m ≤ v, t.stored m = s.stored m) :
    t.fact a v = s.fact a v := by
  refine fact_congr_stored (P := (· ≤ v)) hBack hStored (fun hLength hm => ?_) (Nat.le_refl v)
  exact Nat.le_trans (Nat.le_of_lt (Arena.lt_of_qualifier? hBack hLength.qualifier?)) hm

/-- **Other facts stay** when a variable is assigned to. -/
theorem fact_assign_of_not_owns (hArena : a.Coherent H) (hNe : v ≠ u)
    (hVariable : a.isVariable v = true)
    (hRoom : ((a.inherent v).meet (s.fact a u)).isBottom = false) (hm : ¬ a.Owns v m) :
    (s.assign a v u).fact a m = s.fact a m := by
  refine fact_congr_stored (P := fun m => ¬ a.Owns v m) hArena.backward ?_ ?_ hm
  · intro m hm
    rw [stored_assign hNe hVariable hRoom, if_neg fun h => hm (Or.inl h),
      if_neg fun h => hm (Or.inr h)]
  · intro l q m hLength hm hq
    exact hm ((Arena.owns_of_lengthOf hArena hLength fun h => hm (Or.inl h)).mp hq)

-- ---------------------------------------------------------------------------
-- Valuations
-- ---------------------------------------------------------------------------

/-- A value that may stand for a length of another one: it is a length, and that of the object
if there is one. -/
structure Measures (w : World) (a : Arena) (ρ : ValueId → Concrete) (l : Length) (q : ValueId)
    (x : Concrete) : Prop where
  lengths    : (Fact.int .lengths).Admits w x
  ofObject   : ∀ {o n}, a.isVariable q = true → ρ q = .object o → w.length? l o = some n →
    ∃ hn, x = .int n hn
  ofConstant : a.isVariable q = false → ((a.inherent q).lengthFact l).Admits w x

/-- **The valuations after an assignment** of a value to a variable: what the variable
qualifies may be anything that its declaration allows, and everything else stays. -/
structure Assigned (w : World) (a : Arena) (ρ ρ' : ValueId → Concrete) (v : ValueId)
    (x : Concrete) : Prop where
  value    : ρ' v = x
  stays    : ∀ {m}, ¬ a.Owns v m → ρ' m = ρ m
  declared : ∀ {m}, a.Owns v m → (a.inherent m).Admits w (ρ' m)
  measures : ∀ {l q m}, a.Owns v m → a.LengthOf l q m → Measures w a ρ' l q (ρ' m)

/-- The lengths of null among what is assigned to. -/
def AssignedLength (a : Arena) (ρ' : ValueId → Concrete) (v m : ValueId) : Prop :=
  a.Owns v m ∧ ∃ l q, a.LengthOf l q m ∧ a.isVariable q = true ∧ ρ' q = .null

/-- A value that may stand for a length is as the fact on the object tells. -/
theorem Measures.admits {l : Length} {q : ValueId} (h : Measures w a ρ l q x)
    (hq : a.isVariable q = true →
      (s.fact a q).Integral ∨ (s.fact a q).Admits w (ρ q) ∧ ρ q ≠ .null) :
    ((s.fact a q).lengthFact l).Admits w x := by
  cases hVariable : a.isVariable q with
  | false =>
    rw [fact_of_not_variable hVariable]
    exact h.ofConstant hVariable
  | true =>
    rcases hq hVariable with hIntegral | ⟨hAdmits, hNull⟩
    · rw [Fact.lengthFact_of_info hIntegral.info]
      exact h.lengths
    · by_cases hObject : ∃ o, ρ q = .object o
      · obtain ⟨o, ho⟩ := hObject
        rw [ho] at hAdmits
        exact Fact.admits_lengthFact hAdmits h.lengths fun n => h.ofObject hVariable ho
      · rw [Fact.lengthFact_of_value hAdmits hNull fun o ho => hObject ⟨o, ho⟩]
        exact h.lengths

/-- What the declaration of a variable and the fact on a source say together of a value: null
needs room in their meet. -/
theorem admits_meet_declared (hArena : a.Coherent w.types) (hState : s.Coherent w.types a)
    (hDeclared : (a.inherent v).Admits w x) (hSource : (s.fact a u).Admits w x)
    (hNull : x = .null → ((a.inherent v).meet (s.fact a u)).Admits w .null)
    (hOrders : ∀ o, x = .object o → w.Orders o) :
    ((a.inherent v).meet (s.fact a u)).Admits w x := by
  by_cases hx : x = .null
  · rw [hx]
    exact hNull hx
  · by_cases hObject : ∃ o, x = .object o
    · obtain ⟨o, rfl⟩ := hObject
      exact Fact.admits_meet_object (hOrders o rfl) (hArena.declared v) (over_fact hArena hState)
        hDeclared hSource
    · exact (Fact.admits_meet_value hx fun o ho => hObject ⟨o, ho⟩).mpr ⟨hDeclared, hSource⟩

section

variable (hArena : a.Coherent w.types) (hState : s.Coherent w.types a) (hNe : v ≠ u)
  (hVariable : a.isVariable v = true)
  (hRoom : ((a.inherent v).meet (s.fact a u)).Admits w x)
  (hMeasurable : x = .null → (a.inherent v).Measurable w)
  (hAssigned : Assigned w a ρ ρ' v x)

include hArena hState hNe hVariable hRoom hMeasurable hAssigned

/-- A variable that is assigned to or qualified by it, if it is no length. -/
theorem admits_assign_of_owns (hOwns : a.Owns v m) (hm : a.isVariable m = true)
    (hNone : ∀ l q, ¬ a.LengthOf l q m) : ((s.assign a v u).fact a m).Admits w (ρ' m) := by
  have hBottom := Fact.isBottom_of_admits hRoom
  obtain ⟨i, hi⟩ := Arena.isVariable_iff.mp hm
  have hDeclared := hAssigned.declared hOwns
  rw [fact_var hArena hi, derived_of_not_length hi hNone, stored_assign hNe hVariable hBottom]
  split
  · rename_i hEq
    subst hEq
    rw [hAssigned.value]
    exact Fact.admits_meet_stored (hArena.declared m) (over_fact hArena hState) hMeasurable hRoom
  · rename_i hEq
    rw [if_pos (hOwns.resolve_left hEq), Fact.meet_top]
    exact hDeclared

/-- A length that is assigned to or qualified by what is, unless it is one of null. -/
theorem admits_assign_length (hρ : s.Satisfies w a ρ) {l : Length} {q : ValueId}
    (hOwns : a.Owns v m) (hLength : a.LengthOf l q m)
    (hNull : a.isVariable q = true → ρ' q ≠ .null) :
    ((s.assign a v u).fact a m).Admits w (ρ' m) := by
  have hBottom := Fact.isBottom_of_admits hRoom
  have hMeasures := hAssigned.measures hOwns hLength
  have hOwner : a.isVariable q = true → ((s.assign a v u).fact a q).Integral ∨
      ((s.assign a v u).fact a q).Admits w (ρ' q) ∧ ρ' q ≠ .null := by
    intro hq
    by_cases hInner : ∃ k p, a.LengthOf k p q
    · obtain ⟨k, p, hInner⟩ := hInner
      exact Or.inl (integral_fact hArena hInner)
    · refine Or.inr ⟨?_, hNull hq⟩
      by_cases hOwns : a.Owns v q
      · exact admits_assign_of_owns hArena hState hNe hVariable hRoom hMeasurable hAssigned hOwns hq
          fun k p h => hInner ⟨k, p, h⟩
      · rw [fact_assign_of_not_owns hArena hNe hVariable hBottom hOwns, hAssigned.stays hOwns]
        exact hρ.admits hq nofun
  have hDerived := hMeasures.admits hOwner
  obtain ⟨n, hn, hInt, -⟩ := hMeasures.lengths
  obtain ⟨i, hi⟩ := Arena.isVariable_iff.mp hLength.isVariable
  have hDeclared := hAssigned.declared hOwns
  have hValue : m = v → ρ' m = x := fun hEq => hEq ▸ hAssigned.value
  rw [fact_var hArena hi, derived_of_length hi hLength, stored_assign hNe hVariable hBottom]
  rw [hInt] at hDerived hDeclared hValue ⊢
  have hMeet : ∀ {f g : Fact}, (f.meet g).Admits w (.int n hn) ↔
      f.Admits w (.int n hn) ∧ g.Admits w (.int n hn) :=
    Fact.admits_meet_value nofun nofun
  rw [hMeet, hMeet]
  refine ⟨⟨hDeclared, hDerived⟩, ?_⟩
  split
  · rename_i hEq
    split
    · exact Fact.admits_top
    · rw [hValue hEq]
      exact hRoom
  · rename_i hEq
    rw [if_pos (hOwns.resolve_left hEq)]
    exact Fact.admits_top

end

/-- The source of an assignment has the value of the destination in every valuation that fits. -/
theorem holds_eq_of_fits_assign {exempt : ValueId → Prop} (hNe : v ≠ u)
    (hFits : (s.assign a v u).Fits w a ρ exempt) (hu : a.isVariable u = true) :
    Concrete.Holds .eq (ρ v) (ρ u) := by
  have hLink := hFits.links _ ((mem_links_assign hNe).mpr (Or.inl ⟨hu, rfl⟩))
  split at hLink
  · exact hLink
  · exact Concrete.holds_flipped rfl hLink

/-- **An assignment is sound if and only if the equality that it records holds**: the source,
if it is a variable, still has the value that was read, and the value is no NaN. -/
theorem fits_assign_iff (hReached : Reached w.types a s) (hρ : s.Satisfies w a ρ)
    (hVariable : a.isVariable v = true) (hNe : v ≠ u) (hSource : Denotes w a ρ u x)
    (hAssigned : Assigned w a ρ ρ' v x)
    (hNull : x = .null → ((a.inherent v).meet (s.fact a u)).Admits w .null ∧
      (a.inherent v).Measurable w)
    (hOrders : ∀ o, x = .object o → w.Orders o) :
    (s.assign a v u).Fits w a ρ' (AssignedLength a ρ' v) ↔
      (a.isVariable u = true → ρ' u = x ∧ x ≠ .double none) := by
  obtain ⟨hArena, hState⟩ := hReached.coherent
  have hRoom : ((a.inherent v).meet (s.fact a u)).Admits w x := by
    refine admits_meet_declared hArena hState ?_ (hSource.admits hρ) (fun hx => (hNull hx).1)
      hOrders
    have hDeclared := hAssigned.declared (Or.inl rfl)
    rw [hAssigned.value] at hDeclared
    exact hDeclared
  have hBottom := Fact.isBottom_of_admits hRoom
  have hMeasurable : x = .null → (a.inherent v).Measurable w := fun hx => (hNull hx).2
  constructor
  · intro hFits hu
    have hHolds := holds_eq_of_fits_assign hNe hFits hu
    rw [hAssigned.value] at hHolds
    obtain ⟨hEq, hNumber⟩ := Concrete.holds_eq_iff.mp hHolds
    exact ⟨hEq.symm, hNumber⟩
  · intro hEqual
    refine ⟨?_, ?_, ?_⟩
    · intro m hm hExempt
      by_cases hOwns : a.Owns v m
      · by_cases hLength : ∃ l q, a.LengthOf l q m
        · obtain ⟨l, q, hLength⟩ := hLength
          exact admits_assign_length hArena hState hNe hVariable hRoom hMeasurable hAssigned hρ
            hOwns hLength fun hq h => hExempt ⟨hOwns, l, q, hLength, hq, h⟩
        · exact admits_assign_of_owns hArena hState hNe hVariable hRoom hMeasurable hAssigned
            hOwns hm fun l q h => hLength ⟨l, q, h⟩
      · rw [fact_assign_of_not_owns hArena hNe hVariable hBottom hOwns, hAssigned.stays hOwns]
        exact hρ.admits hm nofun
    · intro l q m o n hLength hq hObject hn
      by_cases hOwns : a.Owns v m
      · exact (hAssigned.measures hOwns hLength).ofObject hq hObject hn
      · -- the object of a length that stays stays as well
        have hOwner : ¬ a.Owns v q := fun h =>
          hOwns ((Arena.owns_of_lengthOf hArena hLength fun h' => hOwns (Or.inl h')).mp h)
        rw [hAssigned.stays hOwner] at hObject
        rw [hAssigned.stays hOwns]
        exact hρ.lengths hLength hq hObject hn
    · intro l hl
      rcases (mem_links_assign hNe).mp hl with ⟨hu, rfl⟩ | ⟨hOld, hFar⟩
      · obtain ⟨hEq, hNumber⟩ := hEqual hu
        have hSelf := Concrete.holds_eq_iff.mpr ⟨rfl, hNumber⟩
        split
        · rw [hAssigned.value, hEq]
          exact hSelf
        · rw [hAssigned.value, hEq]
          exact hSelf
      · -- a relation that is kept is one of variables that stay
        have hStays : ∀ m, l.mentions m = true → ρ' m = ρ m := by
          intro m hm
          refine hAssigned.stays fun hOwns => ?_
          have hOut := hFar m (List.mem_cons.mpr hOwns)
          rw [hm] at hOut
          cases hOut
        rw [hStays l.left (by simp [Link.mentions]), hStays l.right (by simp [Link.mentions])]
        exact hρ.links l hOld

-- ---------------------------------------------------------------------------
-- A list of nodes
-- ---------------------------------------------------------------------------

/-- A node and the next one. -/
def nodes : Arena :=
  ((Arena.new.var (.localVar "x" false) none .unknownRef).2.var (.field "next" false false false)
    (some 1) .unknownRef).2

/-- Two nodes that follow each other. -/
def nodesBefore : ValueId → Concrete := fun v => if v = 1 then .object 0 else .object 1

/-- The second node and any that follows it. -/
def nodesAfter (p : Nat) : ValueId → Concrete := fun v => if v = 2 then .object p else .object 1

theorem evaluated_nodes :
    nodes.allVars = [1, 2] ∧ nodes.get 1 = .var ⟨.localVar "x" false, none, .unknownRef⟩ ∧
      nodes.get 2 = .var ⟨.field "next" false false false, some 1, .unknownRef⟩ ∧
      initial.fact nodes 1 = .unknownRef ∧ initial.fact nodes 2 = .unknownRef ∧
      nodes.dependents 1 = [2] ∧
      (Arena.new.var (.localVar "x" false) none .unknownRef).2.size = 2 := by
  decide +kernel

theorem mem_nodes : nodes.isVariable m = true ↔ m = 1 ∨ m = 2 := by
  rw [← Arena.mem_allVars, evaluated_nodes.1]
  simp

theorem reached_nodes : Reached plainWorld.types nodes initial := by
  refine .intern _ (.intern _ .start ⟨Fact.over_ofNullness, by rintro y q ⟨⟩ ⟨⟩⟩)
    ⟨Fact.over_ofNullness, ?_⟩
  rintro y q ⟨⟩ ⟨⟩
  obtain ⟨-, -, -, -, -, -, hSize⟩ := evaluated_nodes
  rw [hSize]
  decide

theorem satisfies_nodes : initial.Satisfies plainWorld nodes nodesBefore := by
  refine satisfies_initial fun v hv => ?_
  obtain ⟨-, -, -, hNode, hNext, -⟩ := evaluated_nodes
  rcases mem_nodes.mp (Arena.mem_allVars.mp hv) with rfl | rfl
  · rw [hNode]
    exact Fact.ofNullness_admits nofun
  · rw [hNext]
    exact Fact.ofNullness_admits nofun

/-- Whatever follows the second node, the valuation is one after `x = x.next`. -/
theorem assigned_nodes {p : Nat} :
    Assigned plainWorld nodes nodesBefore (nodesAfter p) 1 (.object 1) := by
  obtain ⟨-, hNode, hNext, -, -, hDependents, -⟩ := evaluated_nodes
  have hOwns : nodes.Owns 1 1 ∧ nodes.Owns 1 2 := by
    unfold Arena.Owns
    rw [hDependents]
    simp
  have hVariable : ∀ {m}, nodes.Owns 1 m → nodes.isVariable m = true := by
    rintro m (rfl | hMem)
    · exact mem_nodes.mpr (Or.inl rfl)
    · exact (Arena.mem_dependents.mp hMem).1
  refine ⟨rfl, ?_, ?_, ?_⟩
  · intro m hm
    have hFirst : m ≠ 1 := fun h => hm (h ▸ hOwns.1)
    have hSecond : m ≠ 2 := fun h => hm (h ▸ hOwns.2)
    rw [nodesAfter, nodesBefore, if_neg hFirst, if_neg hSecond]
  · intro m hm
    rcases mem_nodes.mp (hVariable hm) with rfl | rfl
    · rw [Arena.inherent, hNode]
      exact Fact.ofNullness_admits (by decide)
    · rw [Arena.inherent, hNext]
      exact Fact.ofNullness_admits (by decide)
  · rintro l q m hm ⟨x, hx, hLength, -⟩
    rcases mem_nodes.mp (hVariable hm) with rfl | rfl
    · rw [hNode] at hx
      cases hx
      cases hLength
    · rw [hNext] at hx
      cases hx
      cases hLength

/-- A list that ends in a loop: the node after the second one is the second one. -/
theorem assign_next_fits_iff :
    (initial.assign nodes 1 2).Fits plainWorld nodes (nodesAfter 1)
        (AssignedLength nodes (nodesAfter 1) 1) ↔
      (nodes.isVariable 2 = true → nodesAfter 1 2 = .object 1 ∧ Concrete.object 1 ≠ .double none) :=
  fits_assign_iff reached_nodes satisfies_nodes (mem_nodes.mpr (Or.inl rfl)) (by decide)
    (.of_variable (mem_nodes.mpr (Or.inr rfl)) rfl) assigned_nodes nofun
    fun _ _ => orders_plainWorld

/-- **After `x = x.next` the state claims that `x` is its own next node**: no valuation with a
third node fits it. -/
theorem assign_next_unsound :
    initial.Satisfies plainWorld nodes nodesBefore ∧
      Assigned plainWorld nodes nodesBefore (nodesAfter 2) 1 (.object 1) ∧
      ∀ exempt, ¬ (initial.assign nodes 1 2).Fits plainWorld nodes (nodesAfter 2) exempt := by
  refine ⟨satisfies_nodes, assigned_nodes, fun exempt hFits => ?_⟩
  have hHolds := holds_eq_of_fits_assign (by decide) hFits (mem_nodes.mpr (Or.inr rfl))
  cases Concrete.eq_of_holds hHolds

end State

end Pathwise
