import Pathwise.Proofs.Contradictions
import Pathwise.Proofs.Dereferences
import Pathwise.Proofs.Escapes
import Pathwise.Proofs.Forgetting

/-!
# Facts that are overridden

Three operations go on as if something was not known: a variable is given a value that its
declaration rules out, a reference that is null is dereferenced, and an object that cannot be
modified is modified. Each stores another fact for the variable in place of the one that is in
the way.

What is stored is met with the declaration when it is read. So it is of no use to store a fact
that the declaration contradicts: the variable is left with a contradiction, and no comparison of
it can hold from then on. Anything else that was known gives way, and a call that modifies
something leaves no contradiction by what it does afterwards.

## Results

* `State.isBottom_setFact`  — which facts cannot be stored.
* `State.isBottom_assign`   — what is left after an assignment.
* `Step.yields_checkNotNull_isBottom`, `Step.yields_checkMutable_isBottom` — after a dereference,
  and after the check of an operand that is modified.
* `Step.leaves_throughout`  — something is left of a variable throughout a call.
* `Step.overrides_of_built` — all of it, for one variable.
* `Step.overrides_contradict` — what is declared survives.
-/

namespace Pathwise

-- ---------------------------------------------------------------------------
-- Facts
-- ---------------------------------------------------------------------------

/-- Another mutability on the right side leaves as much, unless the left side contradicts it. -/
theorem RefInfo.meet?_withMutability {r s t : RefInfo} {m : Mutability} (h : r.meet? s = some t)
    (hm : (r.mutability.meet? m).isSome = true) :
    ∃ t', r.meet? { s with mutability := m } = some t' ∧ t'.nullness = t.nullness := by
  obtain ⟨k, hk⟩ := Option.isSome_iff_exists.mp hm
  obtain ⟨n, l, hNullness, hLiteral, hRest⟩ := meet?_eq_some.mp h
  rcases hRest with ⟨rfl, rfl, rfl⟩ | ⟨hn, b, _, hBound, -, rfl⟩
  · exact ⟨_, meet?_eq_some.mpr ⟨.null, none, hNullness, hLiteral, Or.inl ⟨rfl, rfl, rfl⟩⟩, rfl⟩
  · exact ⟨_, meet?_eq_some.mpr ⟨n, l, hNullness, hLiteral, Or.inr ⟨hn, b, k, hBound, hk, rfl⟩⟩, rfl⟩

namespace Fact

variable {w : World} {H : Hierarchy} {d e f g : Fact} {r s s' t : RefInfo}
  {al al' sl sl' : Option Fact} {m : Mutability}

/-- A meet of references is a contradiction or not by what is left of nullness and of lengths. -/
theorem isBottom_meet_ref_congr (h : ((ref r al sl).meet (ref s al' sl')).isBottom = false)
    (hInfo : ∀ t, r.meet? s = some t → ∃ t', r.meet? s' = some t' ∧ t'.nullness = t.nullness) :
    ((ref r al sl).meet (ref s' al' sl')).isBottom = false := by
  have hSome := ne_bottom_of_isBottom h
  obtain ⟨t, hrs, -⟩ := meet_ref_cases hSome
  obtain ⟨t', hrs', hSame⟩ := hInfo t hrs
  rw [meet_ref, hrs']
  dsimp only
  split
  · rfl
  · rename_i hNull
    rw [hSame] at hNull
    obtain ⟨hArray, hString⟩ := lengthFails_of_meet_ref hSome hrs hNull
    rw [hArray, hString]
    rfl

/-- A fact that is met keeps no value out by its locality. -/
theorem isBottom_meet_dropLocality (h : (f.meet g).isBottom = false) :
    (f.meet g.dropLocality).isBottom = false := by
  cases g with
  | ref s al' sl' =>
    cases f with
    | top => rfl
    | ref r al sl =>
      refine isBottom_meet_ref_congr h fun t hrs => ?_
      obtain ⟨b, -, hDropped⟩ := RefInfo.meet?_dropLocality hrs
      exact ⟨_, hDropped, rfl⟩
    | _ => cases h
  | _ => exact h

/-- Nor does it by its mutability, if the other fact leaves room for that. -/
theorem isBottom_meet_withMutability (h : (f.meet g).isBottom = false)
    (hm : (f.mutability.meet? m).isSome = true) :
    (f.meet (g.withMutability m)).isBottom = false := by
  cases g with
  | ref s al' sl' =>
    cases f with
    | top => rfl
    | ref r al sl =>
      exact isBottom_meet_ref_congr h fun t hrs => RefInfo.meet?_withMutability hrs hm
    | _ => cases h
  | _ => exact h

/-- Where references are left, the left side is on references or says nothing. -/
theorem eq_top_or_ref_of_meet (h : d.meet f = ref r al sl) :
    d = top ∨ ∃ s al' sl', d = ref s al' sl' := by
  have hSome : (d.meet f).isBottom = false := by rw [h]; rfl
  cases d with
  | top => exact Or.inl rfl
  | ref s al' sl' => exact Or.inr ⟨s, al', sl', rfl⟩
  | bottom =>
    rw [bottom_meet] at h
    cases h
  | bool b =>
    obtain ⟨c, hc, -⟩ := exists_bool_of_meet hSome
    cases hc.symm.trans h
  | double c =>
    obtain ⟨e, he, -⟩ := exists_double_of_meet hSome
    cases he.symm.trans h
  | int r =>
    cases hr : r.isEmpty with
    | false =>
      obtain ⟨t, ht, -⟩ := exists_int_of_meet hr hSome
      cases ht.symm.trans h
    | true =>
      rw [eq_top_of_meet_empty hr hSome, meet_top] at h
      cases h

/-- **A declared reference met again** with what is left of it leaves that, if the lengths that
it states are possible. -/
theorem meet_declared_again (hd : d.Over H) (hf : f.Over H) (hFormed : d.Formed)
    (hMeasurable : d.Measurable w) (hNull : d.isNull = false) (h : d.meet f = ref r al sl) :
    d.meet (d.meet f) = d.meet f := by
  have hSome : (d.meet f).isBottom = false := by rw [h]; rfl
  rcases eq_top_or_ref_of_meet h with rfl | ⟨s, al', sl', rfl⟩
  · exact top_meet
  · rcases eq_top_or_ref hSome with rfl | ⟨t, bl, tl, rfl⟩
    · -- the reference is met with itself
      have hNotNull : s.nullness ≠ .null := beq_eq_false_iff_ne.mp hNull
      obtain ⟨⟨n, hal⟩, m, hsl⟩ := hMeasurable
      rw [meet_top, meet_ref, RefInfo.meet?_self hd hFormed hNotNull]
      dsimp only
      rw [if_neg hNotNull, lengthFails_self hal, lengthFails_self hsl, meetLength_self hal,
        meetLength_self hsl]
      rfl
    · exact meet_absorb_ref hd hf hMeasurable hSome

/-- What was met with the declaration before is met with it once more. -/
theorem isBottom_meet_of_declared (w : World) (hd : d ≠ top) (hg : g.Integral) :
    ((d.meet g).meet (d.meet f)).isBottom = true ↔ ((d.meet g).meet f).isBottom = true := by
  rw [isBottom_iff_of_integral (w := w) hd hg, isBottom_iff_of_integral (w := w) hd hg]
  refine forall_congr' fun x => not_congr (and_congr_right fun hdx => and_congr_right fun hgx => ?_)
  obtain ⟨n, hn, rfl⟩ := hg.exists_int hgx
  exact (admits_meet_value (x := .int n hn) nofun nofun).trans (and_iff_right hdx)

/-- A declaration is not contradicted by what is left of it. -/
theorem isBottom_meet_declared (w : World) (hd : d ≠ top) (hg : g.Integral)
    (h : (d.meet g).isBottom = false) : ((d.meet g).meet d).isBottom = false := by
  refine eq_false_of_ne_true fun hNone => ?_
  have hSome := (isBottom_meet_of_declared (f := top) w hd hg).mp (by rw [meet_top]; exact hNone)
  rw [meet_top, h] at hSome
  cases hSome

/-- What is known to be null stays null. -/
theorem isNull_meet (hf : f.isNull = true) (h : (f.meet g).isBottom = false) :
    (f.meet g).isNull = true := by
  obtain ⟨r, al, sl, rfl, hNull⟩ := isNull_iff.mp hf
  rcases eq_top_or_ref h with rfl | ⟨s, al', sl', rfl⟩
  · rw [meet_top]
    exact hf
  · obtain ⟨t, hrs, ⟨-, hEq⟩ | ⟨ht, -⟩⟩ := meet_ref_cases (ne_bottom_of_isBottom h)
    · rw [hEq]
      rfl
    · obtain ⟨n, l, hNullness, -, ⟨-, -, rfl⟩ | ⟨hn, b, m, -, -, rfl⟩⟩ :=
        RefInfo.meet?_eq_some.mp hrs
      · exact absurd rfl ht
      · exact absurd hNull (Nullness.meet?_eq_some hNullness hn).1

/-- **Null contradicts "not null"**, and no other reference does. -/
theorem isBottom_meet_notNull_iff (hFormed : f.Formed) (hRef : f = top ∨ ∃ r al sl, f = ref r al sl) :
    (f.meet notNull).isBottom = true ↔ f.isNull = true := by
  rcases hRef with rfl | ⟨r, al, sl, rfl⟩
  · rw [top_meet]
    exact Iff.rfl
  · have hBound : r.bound.meet? .top = some r.bound := TypeBound.Made.meet?_top hFormed
    rw [notNull, ofNullness, meet_ref]
    by_cases hNull : r.nullness = .null
    · have hNone : r.meet? (.ofNullness .notNull) = none := by
        simp [RefInfo.meet?, RefInfo.ofNullness, hNull, Nullness.meet?]
      rw [hNone]
      simp [isBottom, isNull, nullness, hNull]
    · have hMeet : r.meet? (.ofNullness .notNull) =
          some ⟨.notNull, r.bound, r.isLocal || false, r.mutability, r.literal⟩ := by
        refine RefInfo.meet?_eq_some.mpr ⟨.notNull, r.literal, ?_, ?_,
          Or.inr ⟨by decide, r.bound, r.mutability, hBound, ?_, rfl⟩⟩
        · cases hn : r.nullness <;> first | rfl | exact absurd hn hNull
        · cases r.literal <;> rfl
        · cases r.mutability <;> rfl
      rw [hMeet]
      simp [isBottom, isNull, nullness, hNull, lengthFails]

/-- Only references are known to be unmodifiable. -/
theorem exists_ref_of_mutability (h : f.mutability = .unmodifiable) :
    ∃ r al sl, f = ref r al sl ∧ r.mutability = .unmodifiable := by
  cases f with
  | ref r al sl => exact ⟨r, al, sl, rfl, h⟩
  | _ => cases h

/-- Nothing but null is known of a null reference after a meet, its mutability neither. -/
theorem not_null_of_mutability_meet (h : (d.meet f).mutability = .unmodifiable)
    (hd : d.mutability ≠ .unmodifiable) : d.isNull = false := by
  refine eq_false_of_ne_true fun hNull => ?_
  obtain ⟨t, tl, tl', hMeet, -⟩ := exists_ref_of_mutability h
  have hSome : (d.meet f).isBottom = false := by rw [hMeet]; rfl
  have hNullMeet := isNull_meet hNull hSome
  obtain ⟨r, al, sl, rfl, -⟩ := isNull_iff.mp hNull
  rcases eq_top_or_ref hSome with rfl | ⟨s, al', sl', rfl⟩
  · rw [meet_top] at h
    exact hd h
  · obtain ⟨k, -, ⟨-, hEq⟩ | ⟨hk, hEq⟩⟩ := meet_ref_cases (ne_bottom_of_isBottom hSome)
    · rw [hEq] at h
      cases h
    · rw [hEq] at hNullMeet
      exact hk (beq_iff_eq.mp hNullMeet)

/-- **No object is modifiable and not.** -/
theorem isBottom_meet_mutable (hd : d.mutability = .unmodifiable) (hdNull : d.isNull = false)
    (hf : f.mutability = .mutable) (hfNull : f.isNull = false) : (d.meet f).isBottom = true := by
  by_contra hSome
  have hSome := eq_false_of_ne_true hSome
  obtain ⟨r, al, sl, rfl, hr⟩ := exists_ref_of_mutability hd
  rcases eq_top_or_ref hSome with rfl | ⟨s, al', sl', rfl⟩
  · cases hf
  · obtain ⟨t, hrs, -⟩ := meet_ref_cases (ne_bottom_of_isBottom hSome)
    obtain ⟨n, l, hNullness, -, ⟨rfl, -, -⟩ | ⟨-, b, m, -, hMutability, -⟩⟩ :=
      RefInfo.meet?_eq_some.mp hrs
    · rcases (Nullness.meet?_eq_some_null hNullness).2.2 with hNull | hNull
      · simp [isNull, nullness, hNull] at hdNull
      · simp [isNull, nullness, hNull] at hfNull
    · have hs : s.mutability = .mutable := hf
      rw [hr, hs] at hMutability
      cases hMutability

end Fact

-- ---------------------------------------------------------------------------
-- Storing a fact
-- ---------------------------------------------------------------------------

namespace State

variable {w : World} {H : Hierarchy} {a b : Arena} {s t : State} {f : Fact} {u v m : ValueId}
  {x : Variable}

theorem isBottom_derived (hArena : a.Coherent H) (hv : a.get v = .var x)
    (hAlive : (s.fact a v).isBottom = false) : (s.derived a x).isBottom = false := by
  rw [fact_var hArena hv] at hAlive
  exact Fact.isBottom_eq_false_of_meet hAlive

/-- **Which facts cannot be stored** for a variable: those that contradict what is derived for it,
unless the declaration says the same anyway. -/
theorem isBottom_setFact (hArena : a.Coherent H) (hv : a.get v = .var x)
    (hAlive : (s.fact a v).isBottom = false) :
    ((s.setFact a v f).fact a v).isBottom = true ↔
      f ≠ a.inherent v ∧ ((s.derived a x).meet f).isBottom = true := by
  rw [fact_setFact_self hArena hv, stored_setFact (Arena.isVariable_iff.mpr ⟨x, hv⟩)]
  split
  · rename_i hSaid
    rw [Fact.meet_top, isBottom_derived hArena hv hAlive]
    exact iff_of_false Bool.false_ne_true fun h => absurd hSaid h.1
  · rename_i hOther
    exact (and_iff_right hOther).symm

-- ---------------------------------------------------------------------------
-- Assignments
-- ---------------------------------------------------------------------------

/-- What is known of the destination after an assignment is what was stored for it. -/
theorem fact_assign_self (hArena : a.Coherent H) (hNe : v ≠ u) (hVariable : a.isVariable v = true) :
    (s.assign a v u).fact a v =
      (s.setFact a v ((a.inherent v).believed (s.fact a u))).fact a v := by
  refine fact_congr_below hArena.backward fun m hm => ?_
  rw [stored_assign_believed hNe hVariable]
  split
  · rename_i hSame
    rw [hSame, stored_setFact hVariable]
  · rename_i hOther
    rw [stored_setFact_of_ne hOther,
      if_neg (Arena.not_mem_dependents_of_le hArena.backward hm)]

/-- It makes no difference that the fact of the source is met with the declaration before it is
stored, as the declaration is met with what is stored anyway. -/
theorem isBottom_believed (hArena : a.Coherent w.types) (hf : f.Over w.types)
    (hDeclared : Declared w a v) (hv : a.get v = .var x)
    (hAlive : (s.fact a v).isBottom = false) :
    ((a.inherent v).believed f ≠ a.inherent v ∧
        ((s.derived a x).meet ((a.inherent v).believed f)).isBottom = true) ↔
      f ≠ a.inherent v ∧ ((s.derived a x).meet f).isBottom = true := by
  have hDerived := isBottom_derived hArena hv hAlive
  cases hRoom : ((a.inherent v).meet f).isBottom with
  | true => rw [Fact.believed, if_pos hRoom]
  | false =>
    rw [Fact.believed_of_room hRoom]
    by_cases hLength : ∃ l q, a.LengthOf l q v
    · obtain ⟨l, q, hLength⟩ := hLength
      have hTop := hDeclared.length hLength
      rw [derived_of_length hv hLength] at hDerived ⊢
      have hSelf := Fact.isBottom_meet_declared w hTop Fact.integral_lengthFact hDerived
      rw [Fact.isBottom_meet_of_declared w hTop Fact.integral_lengthFact]
      refine and_congr_left fun hNone => ⟨?_, fun _ hSaid => ?_⟩
      · rintro - rfl
        rw [hSelf] at hNone
        cases hNone
      · rw [← Fact.isBottom_meet_of_declared w hTop Fact.integral_lengthFact, hSaid, hSelf] at hNone
        cases hNone
    · have hNone : ∀ l q, ¬ a.LengthOf l q v := fun l q h => hLength ⟨l, q, h⟩
      rw [derived_of_not_length hv hNone, hRoom]
      constructor
      · rintro ⟨hMore, hBottom⟩
        have hAgain := Fact.meet_again (g := .top) (hArena.declared v) hf (Fact.over_of_info rfl)
          hDeclared.measurable (by rw [Fact.meet_top]; exact hRoom)
        rw [Fact.meet_top] at hAgain
        rw [hAgain.resolve_left hMore, hRoom] at hBottom
        cases hBottom
      · rintro ⟨-, hBottom⟩
        cases hBottom

/-- **After an assignment** the destination is left with a contradiction exactly if the fact on
the source contradicts what is derived for the destination. -/
theorem isBottom_assign (hReached : Reached w.types a s) (hDeclared : Declared w a v)
    (hv : a.get v = .var x) (hAlive : (s.fact a v).isBottom = false) (hNe : v ≠ u) :
    ((s.assign a v u).fact a v).isBottom = true ↔
      s.fact a u ≠ a.inherent v ∧ ((s.derived a x).meet (s.fact a u)).isBottom = true := by
  obtain ⟨hArena, hState⟩ := hReached.coherent
  rw [fact_assign_self hArena hNe (Arena.isVariable_iff.mpr ⟨x, hv⟩),
    isBottom_setFact hArena hv hAlive]
  exact isBottom_believed hArena (over_fact hArena hState) hDeclared hv hAlive

-- ---------------------------------------------------------------------------
-- Dereferences
-- ---------------------------------------------------------------------------

section

variable (hBuilt : Built w.types a s) (hv : a.get v = .var x)
  (hNone : ∀ l q, ¬ a.LengthOf l q v) (hAlive : (s.fact a v).isBottom = false)
include hBuilt hv hNone hAlive

/-- A null that is taken for an object. -/
theorem isBottom_setNotNull (hNull : (s.fact a v).isNull = true) :
    ((s.setFact a v (s.fact a v).dereferenced).fact a v).isBottom = true ↔
      (a.inherent v).isNull = true := by
  have hArena := hBuilt.reached.coherent.1
  obtain ⟨r, al, sl, hRef, hr⟩ := Fact.isNull_iff.mp hNull
  have hDereferenced : (s.fact a v).dereferenced = .notNull := by
    rw [hRef, Fact.dereferenced, if_pos hr]
  rw [fact_var hArena hv, derived_of_not_length hv hNone] at hRef
  rw [isBottom_setFact hArena hv hAlive, derived_of_not_length hv hNone, hDereferenced,
    Fact.isBottom_meet_notNull_iff (hBuilt.declared_and_stored.1 v)
      (Fact.eq_top_or_ref_of_meet hRef)]
  refine and_iff_right_of_imp fun hDeclared hEq => ?_
  rw [← hEq] at hDeclared
  cases hDeclared

/-- Anything else is found not to be null, with all that equal it. -/
theorem isBottom_meetNotNull (hDeclared : Declared w a v) (hNull : (s.fact a v).isNull = false) :
    ((s.meetFact a v .notNull).state.fact a v).isBottom = true ↔
      (a.inherent v).isNull = true := by
  obtain ⟨hArena, hState⟩ := hBuilt.reached.coherent
  have hSpared : s.Spares a v v := fun _ m _ l => hNone l m
  have hNext := alive_meetFact hArena (f := .notNull) Fact.over_ofNullness hDeclared hSpared
    ⟨hState, hAlive⟩
  rw [hNext.fact]
  refine ⟨nofun, fun hDeclared => ?_⟩
  rw [fact_var hArena hv, derived_of_not_length hv hNone] at hAlive hNull
  rw [Fact.isNull_meet hDeclared hAlive] at hNull
  cases hNull

end

-- ---------------------------------------------------------------------------
-- Modifications
-- ---------------------------------------------------------------------------

/-- Nothing is known of a value that there is not. -/
theorem lt_size_of_mutability (h : (s.fact a v).mutability = .unmodifiable) : v < a.size := by
  refine Arena.lt_size_of_get fun hGet => ?_
  have hNone : a.isVariable v = false :=
    Arena.isVariable_of_get_ne hGet (by simp)
  rw [fact_of_not_variable hNone, Arena.inherent, hGet] at h
  cases h

/-- A variable of which nothing is declared that stands in the way of a modification: it is no
length, and may be an object that can be modified. -/
structure Overridable (w : World) (a : Arena) (v : ValueId) : Prop where
  isVariable : a.isVariable v = true
  declared   : Declared w a v
  notLength  : ∀ l q, ¬ a.LengthOf l q v
  notNull    : (a.inherent v).isNull = false
  modifiable : (a.inherent v).mutability ≠ .unmodifiable

theorem Declared.part (h : Declared w a v) (hPart : a.Part b) (hSize : v < a.size) :
    Declared w b v := by
  refine ⟨by rw [hPart.inherent hSize]; exact h.measurable, ?_⟩
  rintro l q ⟨x, hx, hRest⟩
  rw [hPart.inherent hSize]
  exact h.length ⟨x, (hPart.get hSize).symm.trans hx, hRest⟩

theorem Overridable.part (h : Overridable w a v) (hPart : a.Part b) : Overridable w b v := by
  have hSize := Arena.lt_of_isVariable h.isVariable
  have hInherent := hPart.inherent hSize
  refine ⟨(hPart.isVariable hSize).trans h.isVariable, h.declared.part hPart hSize, ?_,
    by rw [hInherent]; exact h.notNull, by rw [hInherent]; exact h.modifiable⟩
  rintro l q ⟨x, hx, hRest⟩
  exact h.notLength l q ⟨x, (hPart.get hSize).symm.trans hx, hRest⟩

/-- A reference that is not declared to be unmodifiable, but known to be. -/
theorem overridable_of_unmodifiable (hArena : a.Coherent w.types)
    (hVariable : a.isVariable v = true) (hDeclared : Declared w a v)
    (hFixed : (s.fact a v).mutability = .unmodifiable)
    (hOpen : (a.inherent v).mutability ≠ .unmodifiable) : Overridable w a v := by
  obtain ⟨x, hv⟩ := Arena.isVariable_iff.mp hVariable
  obtain ⟨r, al, sl, hRef, -⟩ := Fact.exists_ref_of_mutability hFixed
  have hNone := not_lengthOf_of_ref hArena hRef
  rw [fact_var hArena hv, derived_of_not_length hv hNone] at hFixed
  exact ⟨hVariable, hDeclared, hNone, Fact.not_null_of_mutability_meet hFixed hOpen, hOpen⟩

/-- The state is one that there can be, and something is left of the variable. -/
structure Leaves (w : World) (v : ValueId) (a : Arena) (s : State) : Prop where
  built       : Built w.types a s
  overridable : Overridable w a v
  fact        : (s.fact a v).isBottom = false

namespace Leaves

variable (h : Leaves w v a s)
include h

/-- A larger arena tells the same of the variable. -/
theorem part (hPart : a.Part b) (hBuilt : Built w.types b s) : Leaves w v b s := by
  refine ⟨hBuilt, h.overridable.part hPart, ?_⟩
  rw [fact_part h.built.reached.coherent.1 hPart
    (Arena.lt_of_isVariable h.overridable.isVariable)]
  exact h.fact

theorem congr (hFacts : t.facts = s.facts) (hLinks : t.links = s.links) : Leaves w v a t :=
  ⟨h.built.same hFacts hLinks, h.overridable, by rw [fact_congr hFacts]; exact h.fact⟩

theorem typed (hOver : f.Over w.types) (hFormed : f.Formed) : Leaves w v (a.typed f).2 s :=
  h.part Arena.part_intern (h.built.intern _ ⟨hOver, by simp⟩ hFormed)

theorem lengthOf {l : Length} : Leaves w v (a.lengthOf l u).2 s := by
  refine h.part Arena.part_lengthOf ?_
  by_cases hu : u < a.size
  · exact h.built.lengthOf hu
  · -- nothing is known of the length of a value that there is not
    have hGet : a.get u = .unknown := by
      by_contra hGet
      exact hu (Arena.lt_size_of_get hGet)
    unfold Arena.lengthOf
    rw [hGet]
    exact h.built.intern _ ⟨Fact.over_of_info rfl, by simp⟩ (Fact.formed_of_info rfl)

theorem var {d : Descriptor} (hu : a.isVariable u = true) (hOver : f.Over w.types)
    (hFormed : f.Formed) : Leaves w v (a.var d (some u) f).2 s := by
  refine h.part Arena.part_intern (h.built.intern _ ⟨hOver, ?_⟩ hFormed)
  rintro y q ⟨⟩ ⟨⟩
  exact Arena.lt_of_isVariable hu

theorem apply {c : Condition} : Leaves w v a (s.apply a c).state :=
  ⟨h.built.apply c, h.overridable,
    (alive_apply h.built.reached.coherent.1 h.overridable.declared
      (fun l q hLength => absurd hLength (h.overridable.notLength l q))
      ⟨h.built.reached.coherent.2, h.fact⟩).fact⟩

/-- **Something is left** where the fact on a reference is stored with other words on locality or
mutability, if the declaration has room for them. -/
theorem setFact (hOver : f.Over w.types) (hFormed : f.Formed)
    (hRoom : u = v → ((a.inherent v).meet (s.fact a v)).isBottom = false →
      ((a.inherent v).meet f).isBottom = false)
    (hRef : u = v → ∃ r al sl, s.fact a v = .ref r al sl) : Leaves w v a (s.setFact a u f) := by
  obtain ⟨hBuilt, hOverridable, hAlive⟩ := h
  obtain ⟨hArena, hState⟩ := hBuilt.reached.coherent
  refine ⟨hBuilt.store u f hOver hFormed, hOverridable, ?_⟩
  by_cases hSame : u = v
  · subst hSame
    obtain ⟨x, hv⟩ := Arena.isVariable_iff.mp hOverridable.isVariable
    have hDerived := derived_of_not_length (s := s) hv hOverridable.notLength
    refine eq_false_of_ne_true fun hBottom => ?_
    have hNone := ((isBottom_setFact hArena hv hAlive).mp hBottom).2
    rw [hDerived, hRoom rfl] at hNone
    · cases hNone
    · obtain ⟨r, al, sl, hRef⟩ := hRef rfl
      rw [fact_var hArena hv, hDerived] at hRef ⊢
      rw [Fact.meet_declared_again (hArena.declared u) (over_stored hState)
        (hBuilt.declared_and_stored.1 u) hOverridable.declared.measurable hOverridable.notNull hRef,
        hRef]
      rfl
  · rw [fact_setFact_of_ne hArena (Ne.symm hSame) fun l => hOverridable.notLength l u]
    exact hAlive

theorem dropVariableLocality (u : ValueId) : Leaves w v a (s.dropVariableLocality a u) := by
  obtain ⟨hArena, hState⟩ := h.built.reached.coherent
  unfold State.dropVariableLocality
  dsimp only
  split
  · rename_i hLocal
    refine h.setFact (Fact.over_dropLocality (over_fact hArena hState))
      (Fact.formed_dropLocality (h.built.formed u)) ?_ ?_
    · rintro rfl hMeet
      exact Fact.isBottom_meet_dropLocality hMeet
    · rintro rfl
      exact Fact.exists_ref_of_isLocal hLocal
  · exact h

theorem dropLocality : Leaves w v (s.dropLocality a u).2.2 (s.dropLocality a u).1 := by
  have hState : Leaves w v a (s.dropLocality a u).1 := by
    unfold State.dropLocality
    cases a.get u with
    | var x => exact List.foldlRecOn _ _ h fun _ ht u _ => ht.dropVariableLocality u
    | typed f => exact h
    | wrapped l i f => exact h
    | unknown => exact h
  exact hState.part Arena.grows_dropLocality.part (h.built.dropLocality u)

theorem setMutable (hFixed : (s.fact a u).mutability = .unmodifiable) :
    Leaves w v a (s.setFact a u ((s.fact a u).withMutability .mutable)) := by
  obtain ⟨hArena, hState⟩ := h.built.reached.coherent
  refine h.setFact (Fact.over_withMutability (over_fact hArena hState))
    (Fact.formed_withMutability (h.built.formed u)) ?_ ?_
  · rintro rfl hMeet
    refine Fact.isBottom_meet_withMutability hMeet ?_
    have hOpen := h.overridable.modifiable
    cases hm : (a.inherent u).mutability <;> first | rfl | exact absurd hm hOpen
  · rintro rfl
    obtain ⟨r, al, sl, hRef, -⟩ := Fact.exists_ref_of_mutability hFixed
    exact ⟨r, al, sl, hRef⟩

end Leaves

/-- What is forgotten contradicts nothing. -/
theorem isBottom_forget (hArena : a.Coherent w.types) (h : Overridable w a v) (m : ValueId)
    (hAlive : (s.fact a v).isBottom = false) : ((s.forget m).fact a v).isBottom = false := by
  obtain ⟨x, hv⟩ := Arena.isVariable_iff.mp h.isVariable
  rw [fact_var hArena hv, derived_of_not_length hv h.notLength] at hAlive ⊢
  rw [stored_forget]
  split
  · rw [Fact.meet_top]
    exact Fact.isBottom_eq_false_of_meet hAlive
  · exact hAlive

/-- **A modification** of a variable that is known to be unmodifiable leaves a contradiction
exactly if the variable is declared to be. -/
theorem isBottom_setMutable (hBuilt : Built w.types a s) (hv : a.get v = .var x)
    (hDeclared : Declared w a v) (hAlive : (s.fact a v).isBottom = false)
    (hFixed : (s.fact a v).mutability = .unmodifiable) (hNull : (s.fact a v).isNull = false) :
    ((s.setFact a v ((s.fact a v).withMutability .mutable)).fact a v).isBottom = true ↔
      (a.inherent v).mutability = .unmodifiable := by
  have hArena := hBuilt.reached.coherent.1
  have hVariable := Arena.isVariable_iff.mpr ⟨x, hv⟩
  constructor
  · intro hBottom
    by_contra hOpen
    have hLeaves : Leaves w v a s :=
      ⟨hBuilt, overridable_of_unmodifiable hArena hVariable hDeclared hFixed hOpen, hAlive⟩
    rw [(hLeaves.setMutable hFixed).fact] at hBottom
    cases hBottom
  · intro hClosed
    obtain ⟨r, al, sl, hRef, -⟩ := Fact.exists_ref_of_mutability hFixed
    have hNone := not_lengthOf_of_ref hArena hRef
    have hNew : ((s.fact a v).withMutability .mutable).mutability = .mutable := by
      rw [hRef]
      rfl
    rw [isBottom_setFact hArena hv hAlive, derived_of_not_length hv hNone]
    refine ⟨?_, Fact.isBottom_meet_mutable hClosed ?_ hNew ?_⟩
    · intro hEq
      rw [hEq, hClosed] at hNew
      cases hNew
    · refine eq_false_of_ne_true fun hDeclaredNull => ?_
      rw [fact_var hArena hv, derived_of_not_length hv hNone] at hNull hAlive
      rw [Fact.isNull_meet hDeclaredNull hAlive] at hNull
      cases hNull
    · rw [hRef] at hNull ⊢
      exact hNull

end State

-- ---------------------------------------------------------------------------
-- The steps
-- ---------------------------------------------------------------------------

namespace Step

open State

variable {w : World} {σ τ : Session} {a : Arena} {s : State} {v : ValueId} {x : Variable}
  {ctx : Context} {c : Call} {info : MethodInfo} {index : Nat} {items : List Item}
  {anchor : Option Anchor}

section

variable (hBuilt : Built w.types σ.arena s) (hv : σ.arena.get v = .var x)
  (hDeclared : Declared w σ.arena v) (hAlive : (s.fact σ.arena v).isBottom = false)
include hBuilt hv hDeclared hAlive

/-- **After a dereference** a reference is left with a contradiction exactly if it is declared
to be null. -/
theorem yields_dereference_isBottom {problem : Option Problem}
    (hNone : ∀ l q, ¬ σ.arena.LengthOf l q v) :
    Yields (dereference s v problem) σ fun r τ => τ.arena = σ.arena ∧ r.1 = v ∧
      ((r.2.fact σ.arena v).isBottom = true ↔ (σ.arena.inherent v).isNull = true) := by
  unfold dereference
  refine yields_nullReport.bind ?_
  rintro _ τ ⟨hSame, -⟩
  rw [yields_bind, yields_arena, hSame]
  dsimp only
  rw [if_pos (Arena.isVariable_iff.mpr ⟨x, hv⟩)]
  split
  · rename_i hNull
    exact yields_pure.mpr ⟨hSame, rfl, isBottom_setNotNull hBuilt hv hNone hAlive hNull⟩
  · rename_i hNull
    exact yields_pure.mpr ⟨hSame, rfl, isBottom_meetNotNull hBuilt hv hNone hAlive hDeclared
      (eq_false_of_ne_true hNull)⟩

/-- **A null check of a reference**: what is left of it where the path goes on normally. -/
theorem yields_checkNotNull_isBottom {onNull : Option Transfer}
    (hNone : ∀ l q, ¬ σ.arena.LengthOf l q v) :
    Yields (perform ctx index (s.push v) (.checkNotNull .dereference onNull anchor)) σ
      fun items τ => ∃ (after : State) (diverted : List Item), items =
        (if ctx.config.stopOnNullDereference && s.isNull σ.arena v then []
          else [next index (after.push v)]) ++ diverted ∧
        (((after.push v).fact τ.arena v).isBottom = true ↔
          (σ.arena.inherent v).isNull = true) := by
  have hPop : pop index (s.push v) = pure (v, s) := rfl
  show Yields (checkNotNull ctx index .dereference onNull anchor (s.push v)) σ _
  unfold checkNotNull
  rw [hPop, yields_bind, yields_pure]
  dsimp only
  rw [yields_bind, yields_arena]
  refine (yields_dereference_isBottom hBuilt hv hDeclared hAlive hNone).bind ?_
  rintro ⟨r, after⟩ τ ⟨hSame, rfl, hBottom⟩
  dsimp only at hv hBottom ⊢
  cases onNull with
  | none =>
    refine yields_pure.mpr ⟨after, [], (List.append_nil _).symm, ?_⟩
    rw [fact_congr (t := after.push r) (s := after) rfl, hSame]
    exact hBottom
  | some t =>
    have hPart : σ.arena.Part (τ.arena.typed .null).2 := hSame ▸ Arena.part_intern
    rw [yields_bind, yields_intern, yields_bind, yields_condition]
    refine Yields.bind (P := fun _ υ => υ.arena = (τ.arena.typed .null).2) ?_ ?_
    · unfold transferIf
      rw [yields_bind, yields_arena]
      split <;> exact yields_pure.mpr rfl
    · intro items υ hArena
      refine yields_pure.mpr ⟨after, items, rfl, ?_⟩
      rw [fact_congr (t := after.push r) (s := after) rfl, hArena,
        fact_part hBuilt.reached.coherent.1 hPart (Arena.lt_of_isVariable
          (Arena.isVariable_iff.mpr ⟨x, hv⟩))]
      exact hBottom

/-- **After the check of an operand that is modified** the variable is left with a contradiction
exactly if it is declared to be unmodifiable. Empty arrays are left as they are. -/
theorem yields_checkMutable_isBottom {isReceiver : Bool}
    (hFixed : (s.fact σ.arena v).mutability = .unmodifiable)
    (hNull : (s.fact σ.arena v).isNull = false) :
    Yields (checkMutable anchor isReceiver v s) σ fun t τ => t = s ∨
      ((t.fact τ.arena v).isBottom = true ↔ (σ.arena.inherent v).mutability = .unmodifiable) := by
  have hSize : v < σ.arena.size := Arena.lt_of_isVariable (Arena.isVariable_iff.mpr ⟨x, hv⟩)
  have hArena := hBuilt.reached.coherent.1
  -- the fact that is stored is that of the arena before a length is asked for
  have hReported : ∀ υ : Session, Built w.types υ.arena s → σ.arena.Part υ.arena →
      Yields (do
        report (anchor.map (.mutability · isReceiver)) v .alwaysFails s
        return s.setFact (← arena) v ((s.fact σ.arena v).withMutability .mutable)) υ fun t τ =>
          t = s ∨ ((t.fact τ.arena v).isBottom = true ↔
            (σ.arena.inherent v).mutability = .unmodifiable) := by
    intro υ hNext hPart
    have hFact := fact_part (s := s) hArena hPart hSize
    have hDeclared' := hDeclared.part hPart hSize
    rw [← hFact] at hAlive hFixed hNull ⊢
    have hBottom := isBottom_setMutable hNext ((hPart.get hSize).trans hv) hDeclared' hAlive
      hFixed hNull
    rw [hPart.inherent hSize] at hBottom
    simp only [yields_bind, yields_report, yields_arena, yields_pure]
    cases anchor <;> exact Or.inr hBottom
  unfold checkMutable
  refine yields_bind.mpr (yields_fact.mpr ?_)
  split
  · exact yields_pure.mpr (Or.inl rfl)
  · split
    · refine yields_bind.mpr (yields_intern.mpr (yields_bind.mpr (yields_fact.mpr ?_)))
      split
      · exact yields_pure.mpr (Or.inl rfl)
      · exact hReported _ (hBuilt.lengthOf hSize) Arena.part_lengthOf
    · exact hReported _ hBuilt (Arena.Grows.refl _).part

end

-- ---------------------------------------------------------------------------
-- Calls
-- ---------------------------------------------------------------------------

/-- What a call brings in does not depend on more of the states than before. -/
theorem BringsIn.mono {F : Fact → Prop} {J J' : Arena → State → Prop} (h : BringsIn F J ctx c info)
    (hImp : ∀ {a s}, J' a s → J a s) : BringsIn F J' ctx c info :=
  { h with rule := fun rule args s a f hFound hs => h.rule rule args s a f hFound (hImp hs) }

/-- **Something is left of a variable throughout a call** if its declaration has room for a
modification. -/
theorem leaves_throughout : CallInvariant (fun f => f.Over w.types ∧ f.Formed) (Leaves w v) where
  congr h hFacts hLinks := h.congr hFacts hLinks
  typed h hf := h.typed hf.1 hf.2
  lengthOf h := h.lengthOf
  getter h hq hf := h.var hq hf.1 hf.2
  escape h := h.dropLocality
  mutate := by
    intro a b s u h hPart hb hFixed
    have hSize := lt_size_of_mutability hFixed
    rw [← fact_part h.built.reached.coherent.1 hPart hSize] at hFixed ⊢
    exact hb.setMutable hFixed
  apply h := h.apply

/-- **A call leaves no contradiction** for a variable, whatever it modifies and however its
contracts split the state, if the declaration has room for a modification. -/
theorem isBottom_call (h : Leaves w v σ.arena s)
    (hBrings : BringsIn (fun f => f.Over w.types ∧ f.Formed) (Built w.types) ctx c
      ((c.method.bind ctx.metadata.info?).getD .unknown))
    (hCall : perform ctx index s (.call c) σ = .ok items τ) :
    ∀ it ∈ items, (it.state.fact τ.arena v).isBottom = false := by
  intro it hit
  obtain ⟨-, args, r, u, hState, hLeaves, -⟩ := ensures_call leaves_throughout
    (hBrings.mono fun h => h.built) h items τ hCall it hit
  rw [hState, fact_congr (t := (flushAfterCall τ.arena args r).push u)
    (s := flushAfterCall τ.arena args r) rfl]
  exact flushAfterCall_of_forget (P := fun t => (t.fact τ.arena v).isBottom = false)
    (fun t m => isBottom_forget hLeaves.built.reached.coherent.1 hLeaves.overridable m) hLeaves.fact

-- ---------------------------------------------------------------------------
-- What is left behind
-- ---------------------------------------------------------------------------

/-- **What is left of a variable** where something that is known of it is overridden. -/
structure Overrides (w : World) (a : Arena) (s : State) (v : ValueId) (x : Variable) : Prop where
  /-- The variable is given a value. -/
  assigned     : ∀ u, ((s.assign a v u).fact a v).isBottom = true ↔
    v ≠ u ∧ s.fact a u ≠ a.inherent v ∧ ((s.derived a x).meet (s.fact a u)).isBottom = true
  /-- The reference is dereferenced. -/
  dereferenced : (∀ l q, ¬ a.LengthOf l q v) → ∀ ctx index onNull anchor σ, σ.arena = a →
    Yields (perform ctx index (s.push v) (.checkNotNull .dereference onNull anchor)) σ
      fun items τ => ∃ (after : State) (diverted : List Item), items =
        (if ctx.config.stopOnNullDereference && s.isNull a v then []
          else [next index (after.push v)]) ++ diverted ∧
        (((after.push v).fact τ.arena v).isBottom = true ↔ (a.inherent v).isNull = true)
  /-- The object, known to be unmodifiable, is to be modified. -/
  checked      : (s.fact a v).mutability = .unmodifiable → (s.fact a v).isNull = false →
    ∀ anchor isReceiver σ, σ.arena = a →
      Yields (checkMutable anchor isReceiver v s) σ fun t τ => t = s ∨
        ((t.fact τ.arena v).isBottom = true ↔ (a.inherent v).mutability = .unmodifiable)
  /-- A call returns that may have modified it. -/
  called       : (s.fact a v).mutability = .unmodifiable →
    (a.inherent v).mutability ≠ .unmodifiable → ∀ ctx c index σ items τ, σ.arena = a →
      BringsIn (fun f => f.Over w.types ∧ f.Formed) (Built w.types) ctx c
        ((c.method.bind ctx.metadata.info?).getD .unknown) →
      perform ctx index s (.call c) σ = .ok items τ →
      ∀ it ∈ items, (it.state.fact τ.arena v).isBottom = false

/-- **Only what is declared of a variable survives an override**: an assignment, a dereference
and a modification leave a contradiction exactly where the declaration, or for a length the object
it is a length of, contradicts what is stored. -/
theorem overrides_of_built (hBuilt : Built w.types a s) (hv : a.get v = .var x)
    (hDeclared : Declared w a v) (hAlive : (s.fact a v).isBottom = false) :
    Overrides w a s v x where
  assigned u := by
    by_cases hNe : v = u
    · rw [State.assign, if_pos hNe, hAlive]
      exact iff_of_false Bool.false_ne_true fun h => absurd hNe h.1
    · rw [isBottom_assign hBuilt.reached hDeclared hv hAlive hNe]
      exact (and_iff_right hNe).symm
  dereferenced hNone ctx index onNull anchor σ hArena := by
    subst hArena
    exact yields_checkNotNull_isBottom hBuilt hv hDeclared hAlive hNone
  checked hFixed hNull anchor isReceiver σ hArena := by
    subst hArena
    exact yields_checkMutable_isBottom hBuilt hv hDeclared hAlive hFixed hNull
  called hFixed hOpen ctx c index σ items τ hArena hBrings hCall := by
    subst hArena
    have hVariable := Arena.isVariable_iff.mpr ⟨x, hv⟩
    exact isBottom_call ⟨hBuilt, overridable_of_unmodifiable hBuilt.reached.coherent.1 hVariable
      hDeclared hFixed hOpen, hAlive⟩ hBrings hCall

-- ---------------------------------------------------------------------------
-- A variable of each declaration
-- ---------------------------------------------------------------------------

/-- A variable that is declared by a fact, and a class object. -/
def declaring (d : Fact) : Arena :=
  ((Arena.new.var (.localVar "x" false) none d).2.typed (.ofClassObject .string)).2

/-- A call without arguments that modifies its receiver. -/
def clear : Call := ⟨some 0, 0, none, false, none⟩

/-- What is declared of the method that is called. -/
def clearInfo : MethodInfo :=
  { MethodInfo.unknown with mutation := Mutation.pure.alsoThis, explicitMutation := true }

/-- The usual configuration, with the one method. -/
def clearContext : Context := ⟨.usual, .ofTables [(0, clearInfo)] [], .usual⟩

/-- Whether the variable is left with a contradiction in the states after an instruction that
takes it from the stack. -/
def contradicts (d : Fact) (s : State) (i : Instr) : Option (List Bool) :=
  match perform clearContext 0 (s.push 1) i (.start (declaring d)) with
  | .ok items τ => some (items.map fun it => (it.state.fact τ.arena 1).isBottom)
  | .error _ _ => none

/-- The object is known not to be null, and to be unmodifiable. -/
def fixedObject : State :=
  initial.setFact (declaring .unknownRef) 1 (Fact.notNull.withMutability .unmodifiable)

theorem evaluated_fixedObject :
    (declaring .unknownRef).get 1 = .var ⟨.localVar "x" false, none, .unknownRef⟩ ∧
      (fixedObject.fact (declaring .unknownRef) 1).isBottom = false ∧
      (fixedObject.fact (declaring .unknownRef) 1).mutability = .unmodifiable ∧
      (Fact.unknownRef.meet (fixedObject.fact (declaring .unknownRef) 2)).isBottom = false ∧
      (contradicts .unknownRef fixedObject (.call clear)).map List.length = some 1 := by
  decide +kernel

theorem built_fixedObject : Built plainWorld.types (declaring .unknownRef) fixedObject := by
  refine .store _ _ (.intern _ (.intern _ .start ⟨Fact.over_ofNullness, by rintro y q ⟨⟩ ⟨⟩⟩
    Fact.formed_ofNullness) ⟨Fact.over_ofClassObject (by simp [plainWorld]), nofun⟩
    Fact.formed_ofClassObject) (Fact.over_withMutability Fact.over_ofNullness)
    (Fact.formed_withMutability Fact.formed_ofNullness)

theorem bringsIn_clear :
    BringsIn (fun f => f.Over plainWorld.types ∧ f.Formed) (Built plainWorld.types) clearContext
      clear ((clear.method.bind clearContext.metadata.info?).getD .unknown) := by
  have hInfo : (clear.method.bind clearContext.metadata.info?).getD .unknown = clearInfo := rfl
  rw [hInfo]
  refine ⟨by simp [clearInfo, MethodInfo.unknown], by simp [clearInfo, MethodInfo.unknown], ?_,
    by simp [clear], by simp [clear], ⟨Fact.over_of_info rfl, Fact.formed_of_info rfl⟩⟩
  intro rule args s a f hRule
  cases hRule

/-- A reference of which nothing is declared is given another value, dereferenced, and modified
against what is known of it, and no contradiction is left. -/
theorem overrides_fixedObject :
    ((fixedObject.assign (declaring .unknownRef) 1 2).fact (declaring .unknownRef) 1).isBottom =
        false ∧
      Yields (perform clearContext 0 (fixedObject.push 1) (.checkNotNull .dereference none none))
        (.start (declaring .unknownRef)) (fun items τ => ∃ it ∈ items, it.index = 1 ∧
          (it.state.fact τ.arena 1).isBottom = false) ∧
      ∃ items τ, perform clearContext 0 (fixedObject.push 1) (.call clear)
          (.start (declaring .unknownRef)) = .ok items τ ∧ items.length = 1 ∧
        ∀ it ∈ items, (it.state.fact τ.arena 1).isBottom = false := by
  obtain ⟨hGet, hAlive, hFixed, hRoom, hReturns⟩ := evaluated_fixedObject
  have hInherent : (declaring .unknownRef).inherent 1 = .unknownRef := by
    rw [Arena.inherent, hGet]
    rfl
  have hNone : ∀ l q, ¬ (declaring .unknownRef).LengthOf l q 1 := by
    rintro l q ⟨x, hx, hLength, -⟩
    cases hGet.symm.trans hx
    cases hLength
  have hDeclared : Declared plainWorld (declaring .unknownRef) 1 :=
    ⟨by rw [hInherent]; exact ⟨⟨none, trivial⟩, none, trivial⟩, fun h => absurd h (hNone _ _)⟩
  have hOverrides := overrides_of_built built_fixedObject hGet hDeclared hAlive
  refine ⟨?_, ?_, ?_⟩
  · refine eq_false_of_ne_true fun hBottom => ?_
    have hNoRoom := ((hOverrides.assigned 2).mp hBottom).2.2
    rw [derived_of_not_length hGet hNone, hInherent, hRoom] at hNoRoom
    cases hNoRoom
  · refine (hOverrides.dereferenced hNone clearContext 0 none none _ rfl).mono ?_
    rintro items τ ⟨after, diverted, rfl, hBottom⟩
    rw [hInherent] at hBottom
    refine ⟨_, List.mem_append_left _ (List.mem_singleton.mpr rfl), rfl, ?_⟩
    exact eq_false_of_ne_true fun hNone => Bool.false_ne_true (hBottom.mp hNone)
  · have hFact : (fixedObject.push 1).fact (declaring .unknownRef) 1 =
        fixedObject.fact (declaring .unknownRef) 1 := fact_congr rfl
    rw [← hFact] at hAlive hFixed
    have hPushed := overrides_of_built (built_fixedObject.same (t := fixedObject.push 1) rfl rfl)
      hGet hDeclared hAlive
    unfold contradicts at hReturns
    cases hCall : perform clearContext 0 (fixedObject.push 1) (.call clear)
        (.start (declaring .unknownRef)) with
    | error e τ =>
      rw [hCall] at hReturns
      cases hReturns
    | ok items τ =>
      rw [hCall] at hReturns
      refine ⟨items, τ, rfl, by simpa using hReturns, ?_⟩
      exact hPushed.called hFixed (by rw [hInherent]; decide) _ _ _ _ _ _ rfl bringsIn_clear hCall

/-- **What is declared survives**: a string is given a class object, what is declared to be null
is dereferenced, and what is declared to be unmodifiable is modified. -/
theorem overrides_contradict :
    ((initial.assign (declaring (.ofExactType .string .notNull)) 1 2).fact
        (declaring (.ofExactType .string .notNull)) 1).isBottom = true ∧
      contradicts .null initial (.checkNotNull .dereference none none) = some [true] ∧
      contradicts (Fact.notNull.withMutability .unmodifiable) initial (.call clear) =
        some [true] := by
  decide +kernel

end Step

end Pathwise
