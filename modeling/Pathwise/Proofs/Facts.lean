import Pathwise.State.Basic
import Pathwise.Proofs.Meets

/-!
# The facts of a state

The fact of a variable depends on what is stored for it and, for a length, on the fact of
the value it is a length of. A qualifier is in the arena before what it qualifies, so
the fuel in the definition is enough (`fact_var`).

A length depends on the fact of its qualifier only if that is a fact on a reference,
and the fact of a length never is. Another stored fact for a variable hence changes the
facts of that variable and of its own lengths, and no others (`fact_setFact_of_ne`).

## Results

* `Arena.Coherent`, `State.Coherent`  — the invariants of arenas and states.
* `fact_var`                          — the fact of a variable.
* `fact_setFact_self`, `fact_setFact_of_ne` — what a stored fact changes.
* `over_fact`                         — facts of a coherent state name declared types.

What needs no more than the order of the arena is stated for `Arena.Backward`.
-/

namespace Pathwise

-- ---------------------------------------------------------------------------
-- Arenas
-- ---------------------------------------------------------------------------

namespace Arena

/-- A value depends only on values before it, and its fact names declared types. -/
structure Coherent (H : Hierarchy) (a : Arena) : Prop where
  qualifier_lt : ∀ {v x q}, a.get v = .var x → x.qualifier = some q → q < v
  declared     : ∀ v, (a.inherent v).Over H

/-- What qualifies a variable comes before it. -/
def Backward (a : Arena) : Prop := ∀ {v x q}, a.get v = .var x → x.qualifier = some q → q < v

theorem Coherent.backward {H : Hierarchy} {a : Arena} (h : a.Coherent H) : a.Backward :=
  h.qualifier_lt

/-- The variable `v` is a length of the value `q`. -/
def LengthOf (a : Arena) (l : Length) (q v : ValueId) : Prop :=
  ∃ x, a.get v = .var x ∧ x.descriptor = .length l ∧ x.qualifier = some q

variable {a : Arena} {l : Length} {u v q : ValueId}

theorem varAt?_eq_some {x : Variable} : a.varAt? v = some x ↔ a.get v = .var x := by
  unfold varAt?
  cases a.get v <;> simp

theorem isVariable_iff : a.isVariable v = true ↔ ∃ x, a.get v = .var x := by
  simp only [isVariable, Option.isSome_iff_exists, varAt?_eq_some]

/-- A value of another kind is no variable. -/
theorem isVariable_of_get_ne {y : Value} (h : a.get v = y) (hy : ∀ x, y ≠ .var x) :
    a.isVariable v = false := by
  refine Bool.eq_false_iff.mpr fun hVariable => ?_
  obtain ⟨x, hx⟩ := isVariable_iff.mp hVariable
  exact hy x (h.symm.trans hx)

theorem mem_allVars : v ∈ a.allVars ↔ a.isVariable v = true := by
  rw [allVars, List.mem_filter, List.mem_range]
  refine ⟨And.right, fun h => ⟨?_, h⟩⟩
  by_contra hOut
  obtain ⟨x, hx⟩ := isVariable_iff.mp h
  have hNone : a.values[v]? = none := Array.getElem?_eq_none (Nat.le_of_not_lt hOut)
  rw [get, Array.getD_eq_getD_getElem?, hNone] at hx
  cases hx

theorem LengthOf.isVariable (h : a.LengthOf l q v) : a.isVariable v = true := by
  obtain ⟨x, hx, -⟩ := h
  exact isVariable_iff.mpr ⟨x, hx⟩

theorem LengthOf.inj {l' : Length} {p : ValueId} (h : a.LengthOf l q v) (h' : a.LengthOf l' p v) :
    l = l' ∧ q = p := by
  obtain ⟨x, hx, hLength, hQualifier⟩ := h
  obtain ⟨y, hy, hLength', hQualifier'⟩ := h'
  have hSame : x = y := Value.var.inj (hx.symm.trans hy)
  subst hSame
  exact ⟨Descriptor.length.inj (hLength.symm.trans hLength'),
    Option.some.inj (hQualifier.symm.trans hQualifier')⟩

end Arena

-- ---------------------------------------------------------------------------
-- Lengths
-- ---------------------------------------------------------------------------

namespace Fact

variable {w : World} {H : Hierarchy} {f g : Fact} {l : Length} {x : Concrete} {o : Nat}

/-- The fact is on integers, or a contradiction. -/
def Integral (f : Fact) : Prop := f = bottom ∨ ∃ r, f = int r

theorem Integral.info (h : f.Integral) : f.info? = none := by
  rcases h with rfl | ⟨r, rfl⟩ <;> rfl

theorem Integral.exists_int (h : f.Integral) (hx : f.Admits w x) : ∃ n hn, x = .int n hn := by
  rcases h with rfl | ⟨r, rfl⟩
  · exact absurd hx not_admits_bottom
  · obtain ⟨n, hn, rfl, -⟩ := hx
    exact ⟨n, hn, rfl⟩

theorem integral_ofRange {r : Range} : (ofRange r).Integral := by
  rw [ofRange]
  split
  · exact Or.inl rfl
  · exact Or.inr ⟨r, rfl⟩

theorem integral_meet (h : f.Integral ∨ g.Integral) : (f.meet g).Integral := by
  rcases h with (rfl | ⟨r, rfl⟩) | (rfl | ⟨r, rfl⟩)
  · cases g <;> exact Or.inl rfl
  · cases g with
    | int s => exact integral_ofRange
    | top => exact Or.inr ⟨r, rfl⟩
    | _ => exact Or.inl rfl
  · cases f <;> exact Or.inl rfl
  · cases f with
    | int s => exact integral_ofRange
    | top => exact Or.inr ⟨r, rfl⟩
    | _ => exact Or.inl rfl

/-- **A fact on a length** is on integers. -/
theorem integral_lengthFact : (f.lengthFact l).Integral := by
  have hStated : ∀ g : Option Fact, (lengthFact.statedLength g).Integral := by
    rintro (_ | g)
    · exact Or.inr ⟨_, rfl⟩
    · exact integral_meet (Or.inr (Or.inr ⟨_, rfl⟩))
  cases f with
  | ref r al sl =>
    cases l with
    | array => exact hStated al
    | string =>
      simp only [lengthFact]
      split
      · exact Or.inr ⟨_, rfl⟩
      · exact hStated sl
      · exact hStated al
  | _ => exact Or.inr ⟨_, rfl⟩

/-- What is no reference has nothing to tell about lengths. -/
theorem lengthFact_of_value (h : f.Admits w x) (hNull : x ≠ .null) (hObject : ∀ o, x ≠ .object o) :
    f.lengthFact l = int .lengths := by
  cases f with
  | ref r al sl =>
    rcases h with ⟨rfl, -⟩ | ⟨o, rfl, -⟩
    · exact absurd rfl hNull
    · exact absurd rfl (hObject o)
  | _ => rfl

theorem lengthFact_of_info (h : f.info? = none) : f.lengthFact l = int .lengths := by
  cases f with
  | ref r al sl => cases h
  | _ => rfl

/-- **The length of an object** is as the fact on the object tells. A value that stands for
the length of an object without one is any length. -/
theorem admits_lengthFact (h : f.Admits w (.object o)) (hLengths : (int .lengths).Admits w x)
    (hLength : ∀ n, w.length? l o = some n → ∃ hn, x = .int n hn) :
    (f.lengthFact l).Admits w x := by
  have hStated : ∀ g, AdmitsLength w g (w.length? l o) →
      (lengthFact.statedLength g).Admits w x := by
    rintro (_ | g) hg
    · exact hLengths
    · obtain ⟨n, hn, hEq, hAdmits⟩ := hg
      obtain ⟨hn', rfl⟩ := hLength n hEq
      exact (admits_meet_value (x := .int n hn') nofun nofun).mpr ⟨hAdmits, hLengths⟩
  rcases admits_object_iff.mp h with rfl | ⟨r, al, sl, rfl, hr, hal, hsl⟩
  · exact hLengths
  · cases l with
    | array => exact hStated al hal
    | string =>
      simp only [lengthFact]
      split
      · rename_i s hLiteral
        obtain ⟨hn, rfl⟩ := hLength _ (w.literal_length (hr.literal _ hLiteral))
        exact admits_int.mpr (Range.mem_point hn)
      · exact hStated sl hsl
      · rename_i h
        cases h

/-- A value that is as a fact on a length tells is a length. -/
theorem lengths_of_lengthFact (hf : f.Admits w (.object o))
    (hLength : ∀ n, w.length? l o = some n → ∃ hn, x = .int n hn)
    (h : (f.lengthFact l).Admits w x) : (int .lengths).Admits w x := by
  cases hObject : w.length? l o with
  | some n =>
    obtain ⟨hn, rfl⟩ := hLength n hObject
    exact admits_int.mpr (w.length_mem hObject)
  | none =>
    -- nothing can be stated about a length that there is not
    have hStated : ∀ {g}, AdmitsLength w g (w.length? l o) → g = none := by
      rintro (_ | g) hg
      · rfl
      · obtain ⟨n, hn, hEq, -⟩ := hg
        rw [hObject] at hEq
        cases hEq
    rcases admits_object_iff.mp hf with rfl | ⟨r, al, sl, rfl, hr, hal, hsl⟩
    · exact h
    · cases l with
      | array =>
        rw [hStated hal] at h
        exact h
      | string =>
        simp only [lengthFact] at h
        split at h
        · rename_i s hLiteral
          have hUnits := w.literal_length (hr.literal _ hLiteral)
          rw [hObject] at hUnits
          cases hUnits
        · rw [hStated hsl] at h
          exact h
        · rename_i hArray
          cases hArray

theorem lengthFact_null : null.lengthFact l = int .lengths := by cases l <;> rfl

/-- A fact that leaves room for null tells of no length more than that it is one. -/
theorem lengths_of_lengthFact_null (hf : f.Admits w .null) (h : (f.lengthFact l).Admits w x) :
    (int .lengths).Admits w x := by
  have hStated : ∀ g : Option Fact, (lengthFact.statedLength g).Admits w x →
      (int .lengths).Admits w x := by
    rintro (_ | g) hg
    · exact hg
    · exact ((admits_meet_of_not_refs (Or.inr rfl)).mp hg).2
  rcases admits_null_iff.mp hf with rfl | ⟨r, al, sl, rfl, hr⟩
  · exact h
  · cases l with
    | array => exact hStated al h
    | string =>
      simp only [lengthFact, hr.literal] at h
      exact hStated sl h

end Fact

-- ---------------------------------------------------------------------------
-- The facts of a state
-- ---------------------------------------------------------------------------

namespace State

/-- The facts stored in a state name declared types, and only variables are linked. -/
structure Coherent (H : Hierarchy) (a : Arena) (s : State) : Prop where
  declared : ∀ {v f}, s.facts.get? v = some f → f.Over H
  linked : ∀ l ∈ s.links, a.isVariable l.left = true ∧ a.isVariable l.right = true

/-- What is known of a variable of which nothing is stored. -/
def derived (a : Arena) (s : State) (x : Variable) : Fact :=
  match x.descriptor, x.qualifier with
  | .length l, some q => x.inherent.meet ((s.fact a q).lengthFact l)
  | _, _ => x.inherent

variable {H : Hierarchy} {a : Arena} {s : State} {f : Fact} {u v q : ValueId} {x : Variable}
  {l : Length}

theorem fact_of_not_variable (h : a.isVariable v = false) : s.fact a v = a.inherent v := by
  unfold fact factUpTo Arena.inherent
  split
  · rename_i x hx
    rw [Arena.isVariable_iff.mpr ⟨x, hx⟩] at h
    cases h
  · rfl

/-- What is stored for a value: nothing stored says nothing. -/
def stored (s : State) (v : ValueId) : Fact := (s.facts.get? v).getD .top

/-- What is derived for a variable that is no length is what its declaration says. -/
theorem derived_of_not_length (hv : a.get v = .var x) (h : ∀ l q, ¬ a.LengthOf l q v) :
    s.derived a x = a.inherent v := by
  have hInherent : a.inherent v = x.inherent := by rw [Arena.inherent, hv]; rfl
  rw [hInherent, derived]
  split
  · rename_i l q hLength hQualifier
    exact absurd ⟨x, hv, hLength, hQualifier⟩ (h l q)
  · rfl

theorem derived_of_length (hv : a.get v = .var x) (h : a.LengthOf l q v) :
    s.derived a x = (a.inherent v).meet ((s.fact a q).lengthFact l) := by
  have hInherent : a.inherent v = x.inherent := by rw [Arena.inherent, hv]; rfl
  obtain ⟨y, hy, hLength, hQualifier⟩ := h
  have hSame : x = y := Value.var.inj (hv.symm.trans hy)
  subst hSame
  rw [hInherent]
  simp only [derived, hLength, hQualifier]

-- ---------------------------------------------------------------------------
-- Storing a fact
-- ---------------------------------------------------------------------------

theorem setFact_links : (s.setFact a v f).links = s.links := by
  unfold setFact
  split
  · rfl
  · split <;> rfl

theorem setFact_of_not_variable (h : a.isVariable v = false) : s.setFact a v f = s := by
  rw [setFact, h]
  rfl

theorem stored_setFact_of_ne (h : u ≠ v) : (s.setFact a v f).stored u = s.stored u := by
  unfold setFact stored
  split
  · rfl
  · split
    · rw [OrdMap.get?_erase, if_neg h.symm]
    · rw [OrdMap.get?_insert, if_neg h.symm]

/-- The fact is stored, unless the declaration of the variable says it. -/
theorem stored_setFact (hVariable : a.isVariable v = true) :
    (s.setFact a v f).stored v = if f = a.inherent v then .top else f := by
  have hErased : (s.facts.erase v).get? v = none := by rw [OrdMap.get?_erase, if_pos rfl]
  unfold setFact stored
  rw [hVariable]
  simp only [Bool.not_true, Bool.false_eq_true, if_false]
  by_cases hSaid : f = a.inherent v
  · rw [decide_eq_true hSaid, Bool.true_or, if_pos rfl, if_pos hSaid, hErased]
    rfl
  · rw [decide_eq_false hSaid, Bool.false_or, if_neg hSaid]
    split
    · rename_i hTop
      rw [hErased]
      cases f with
      | top => rfl
      | _ => cases hTop
    · rw [OrdMap.get?_insert, if_pos rfl]
      rfl

end State

-- ---------------------------------------------------------------------------
-- Values that come after their qualifiers
-- ---------------------------------------------------------------------------

namespace Arena.Backward

open State

variable {a : Arena} {s : State} {f : Fact} {u v q : ValueId} {x : Variable} {l : Length}

/-- Following more qualifiers than there are changes nothing. -/
theorem factUpTo_eq (hBack : a.Backward) {v n m : Nat} (hn : v < n) (hm : v < m) :
    s.factUpTo a n v = s.factUpTo a m v := by
  induction v using Nat.strongRecOn generalizing n m with
  | ind v ih =>
    obtain ⟨n, rfl⟩ : ∃ k, n = k + 1 := ⟨n - 1, by omega⟩
    obtain ⟨m, rfl⟩ : ∃ k, m = k + 1 := ⟨m - 1, by omega⟩
    unfold factUpTo
    cases hv : a.get v with
    | var x =>
      have hDerived : ∀ q : Nat, x.qualifier = some q → s.factUpTo a n q = s.factUpTo a m q := by
        intro q hq
        have hLess : q < v := hBack hv hq
        exact ih q hLess (by omega) (by omega)
      cases hLength : x.descriptor with
      | length l =>
        cases hQualifier : x.qualifier with
        | none => simp only [hLength, hQualifier]
        | some q => simp only [hLength, hQualifier, hDerived q hQualifier]
      | _ => simp only [hLength]
    | _ => rfl

/-- **The fact of a variable** is what is derived for it and what is stored. -/
theorem fact_var (hBack : a.Backward) (hv : a.get v = .var x) :
    s.fact a v = (s.derived a x).meet (s.stored v) := by
  have hQualifier : ∀ q, x.qualifier = some q → s.factUpTo a v q = s.fact a q := by
    intro q hq
    exact hBack.factUpTo_eq (hBack hv hq) (Nat.lt_succ_self q)
  have hStored : ∀ f : Fact, f.meet (s.stored v) = (s.facts.get? v).elim f f.meet := by
    intro f
    rw [stored]
    cases s.facts.get? v with
    | none => exact Fact.meet_top
    | some g => rfl
  rw [hStored, fact, factUpTo, hv]
  cases hLength : x.descriptor with
  | length l =>
    cases hq : x.qualifier with
    | none =>
      cases s.facts.get? v <;>
        simp only [derived, hLength, hq, Option.elim_none, Option.elim_some]
    | some q =>
      cases s.facts.get? v <;>
        simp only [derived, hLength, hq, hQualifier q hq, Option.elim_none, Option.elim_some]
  | _ =>
    cases s.facts.get? v <;>
      simp only [derived, hLength, Option.elim_none, Option.elim_some]

/-- The fact of a length is on integers. -/
theorem integral_fact (hBack : a.Backward) (h : a.LengthOf l q v) : (s.fact a v).Integral := by
  obtain ⟨x, hv, -⟩ := id h
  rw [hBack.fact_var hv, derived_of_length hv h]
  exact Fact.integral_meet (Or.inl (Fact.integral_meet (Or.inr Fact.integral_lengthFact)))

/-- What is known to be a reference is no length. -/
theorem not_lengthOf_of_ref {r : RefInfo} {al sl : Option Fact} (hBack : a.Backward)
    (h : s.fact a v = .ref r al sl) : ∀ l q, ¬ a.LengthOf l q v := by
  intro l q hLength
  rcases hBack.integral_fact (s := s) hLength with hEq | ⟨_, hEq⟩ <;> cases h.symm.trans hEq

/-- What is derived for a variable changes only if it is a length of the variable that
a fact is stored for. -/
theorem derived_setFact (hBack : a.Backward) (hu : a.get u = .var x)
    (hFact : ∀ l q, a.LengthOf l q u → q ≠ v → (s.setFact a v f).fact a q = s.fact a q ∨
      (∃ k p, a.LengthOf k p q)) (hLength : ∀ l, ¬ a.LengthOf l v u) :
    (s.setFact a v f).derived a x = s.derived a x := by
  by_cases h : ∃ l q, a.LengthOf l q u
  · obtain ⟨l, q, h⟩ := h
    rw [derived_of_length hu h, derived_of_length hu h]
    have hNe : q ≠ v := fun hEq => hLength l (hEq ▸ h)
    rcases hFact l q h hNe with hSame | ⟨k, p, hInner⟩
    · rw [hSame]
    · rw [Fact.lengthFact_of_info (hBack.integral_fact hInner).info,
        Fact.lengthFact_of_info (hBack.integral_fact hInner).info]
  · have hNone : ∀ l q, ¬ a.LengthOf l q u := fun l q h' => h ⟨l, q, h'⟩
    rw [derived_of_not_length hu hNone, derived_of_not_length hu hNone]

/-- **Other facts stay**, but those of the lengths of the variable. A length of a length is
any integer, whatever is stored. -/
theorem fact_setFact_of_ne (hBack : a.Backward) (hNe : u ≠ v)
    (hLength : ∀ l, ¬ a.LengthOf l v u) : (s.setFact a v f).fact a u = s.fact a u := by
  cases hVariable : a.isVariable u with
  | false => rw [fact_of_not_variable hVariable, fact_of_not_variable hVariable]
  | true =>
    obtain ⟨x, hu⟩ := Arena.isVariable_iff.mp hVariable
    rw [hBack.fact_var hu, hBack.fact_var hu, stored_setFact_of_ne hNe]
    refine congrArg (Fact.meet · _) (hBack.derived_setFact hu ?_ hLength)
    intro l q h hq
    by_cases hInner : ∃ k p, a.LengthOf k p q
    · exact Or.inr hInner
    · refine Or.inl ?_
      cases hVariable' : a.isVariable q with
      | false => rw [fact_of_not_variable hVariable', fact_of_not_variable hVariable']
      | true =>
        obtain ⟨y, hy⟩ := Arena.isVariable_iff.mp hVariable'
        have hNone : ∀ k p, ¬ a.LengthOf k p q := fun k p h' => hInner ⟨k, p, h'⟩
        rw [hBack.fact_var hy, hBack.fact_var hy, stored_setFact_of_ne hq,
          derived_of_not_length hy hNone, derived_of_not_length hy hNone]

/-- All other facts stay if nothing else than before is known of the lengths. -/
theorem fact_setFact_of_lengthFact (hBack : a.Backward) (hNe : u ≠ v)
    (hLengths : ∀ l, ((s.setFact a v f).fact a v).lengthFact l = (s.fact a v).lengthFact l) :
    (s.setFact a v f).fact a u = s.fact a u := by
  by_cases h : ∃ l, a.LengthOf l v u
  · obtain ⟨l, h⟩ := h
    obtain ⟨x, hu, -⟩ := id h
    rw [hBack.fact_var hu, hBack.fact_var hu, stored_setFact_of_ne hNe, derived_of_length hu h,
      derived_of_length hu h, hLengths l]
  · exact hBack.fact_setFact_of_ne hNe fun l hLength => h ⟨l, hLength⟩

/-- The fact of the variable itself. -/
theorem fact_setFact_self (hBack : a.Backward) (hv : a.get v = .var x) :
    (s.setFact a v f).fact a v = (s.derived a x).meet ((s.setFact a v f).stored v) := by
  rw [hBack.fact_var hv]
  refine congrArg (Fact.meet · _) ?_
  by_cases h : ∃ l q, a.LengthOf l q v
  · obtain ⟨l, q, h⟩ := h
    obtain ⟨y, hy, -, hQualifier⟩ := id h
    have hLess : q < v := hBack hy hQualifier
    rw [derived_of_length hv h, derived_of_length hv h,
      hBack.fact_setFact_of_ne (Nat.ne_of_lt hLess) ?_]
    rintro k ⟨z, hz, -, hq⟩
    exact Nat.lt_asymm hLess (hBack hz hq)
  · have hNone : ∀ l q, ¬ a.LengthOf l q v := fun l q h' => h ⟨l, q, h'⟩
    rw [derived_of_not_length hv hNone, derived_of_not_length hv hNone]

end Arena.Backward

-- ---------------------------------------------------------------------------
-- Coherent states
-- ---------------------------------------------------------------------------

namespace State

variable {H : Hierarchy} {a : Arena} {s : State} {f : Fact} {u v q : ValueId} {x : Variable}
  {l : Length}

-- a coherent arena is one of those above

theorem fact_var (hArena : a.Coherent H) (hv : a.get v = .var x) :
    s.fact a v = (s.derived a x).meet (s.stored v) :=
  Arena.Backward.fact_var hArena.backward hv

theorem integral_fact (hArena : a.Coherent H) (h : a.LengthOf l q v) :
    (s.fact a v).Integral :=
  Arena.Backward.integral_fact hArena.backward h

theorem not_lengthOf_of_ref {r : RefInfo} {al sl : Option Fact} (hArena : a.Coherent H)
    (h : s.fact a v = .ref r al sl) : ∀ l q, ¬ a.LengthOf l q v :=
  Arena.Backward.not_lengthOf_of_ref hArena.backward h

theorem fact_setFact_of_ne (hArena : a.Coherent H) (hNe : u ≠ v)
    (hLength : ∀ l, ¬ a.LengthOf l v u) : (s.setFact a v f).fact a u = s.fact a u :=
  Arena.Backward.fact_setFact_of_ne hArena.backward hNe hLength

theorem fact_setFact_self (hArena : a.Coherent H) (hv : a.get v = .var x) :
    (s.setFact a v f).fact a v = (s.derived a x).meet ((s.setFact a v f).stored v) :=
  Arena.Backward.fact_setFact_self hArena.backward hv

theorem over_derived (hArena : a.Coherent H) (hv : a.get v = .var x) :
    (s.derived a x).Over H := by
  have hOver : x.inherent.Over H := by
    have h := hArena.declared v
    rw [Arena.inherent, hv] at h
    exact h
  rw [derived]
  split
  · exact Fact.over_meet hOver (Fact.over_of_info Fact.integral_lengthFact.info)
  · exact hOver

theorem over_stored (hState : s.Coherent H a) : (s.stored v).Over H := by
  rw [stored]
  cases h : s.facts.get? v with
  | none => exact Fact.over_of_info rfl
  | some f => exact hState.declared h

/-- **Facts of a coherent state** name declared types. -/
theorem over_fact (hArena : a.Coherent H) (hState : s.Coherent H a) : (s.fact a v).Over H := by
  cases hVariable : a.isVariable v with
  | false =>
    rw [fact_of_not_variable hVariable]
    exact hArena.declared v
  | true =>
    obtain ⟨x, hv⟩ := Arena.isVariable_iff.mp hVariable
    rw [fact_var hArena hv]
    exact Fact.over_meet (over_derived hArena hv) (over_stored hState)

/-- A variable is found to be null. -/
theorem fact_setNull_self {w : World} (hArena : a.Coherent w.types)
    (hState : s.Coherent w.types a) (hVariable : a.isVariable v = true)
    (hAdmits : (s.fact a v).Admits w .null) : (s.setFact a v .null).fact a v = .null := by
  obtain ⟨x, hv⟩ := Arena.isVariable_iff.mp hVariable
  have hNone : ∀ l q, ¬ a.LengthOf l q v := by
    intro l q hLength
    obtain ⟨n, hn, hInt⟩ := (integral_fact hArena hLength).exists_int hAdmits
    cases hInt
  rw [fact_var hArena hv] at hAdmits
  have hDerived := (Fact.admits_of_meet (over_derived hArena hv) (over_stored hState) hAdmits).1
  rw [fact_setFact_self hArena hv, stored_setFact hVariable]
  split
  · rename_i hSaid
    rw [Fact.meet_top, derived_of_not_length hv hNone, hSaid]
  · exact Fact.meet_null hDerived

/-- Storing a fact that names declared types keeps the state coherent. -/
theorem coherent_setFact (hState : s.Coherent H a) (hf : f.Over H) :
    (s.setFact a v f).Coherent H a := by
  refine ⟨?_, by rw [setFact_links]; exact hState.linked⟩
  intro u g hu
  cases hVariable : a.isVariable v with
  | false =>
    rw [setFact_of_not_variable hVariable] at hu
    exact hState.declared hu
  | true =>
    unfold setFact at hu
    rw [hVariable] at hu
    simp only [Bool.not_true, Bool.false_eq_true, if_false] at hu
    split at hu
    · rw [OrdMap.get?_erase] at hu
      split at hu
      · cases hu
      · exact hState.declared hu
    · rw [OrdMap.get?_insert] at hu
      split at hu
      · cases hu
        exact hf
      · exact hState.declared hu

end State

end Pathwise
