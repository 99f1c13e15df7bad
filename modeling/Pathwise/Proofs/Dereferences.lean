import Pathwise.Proofs.Feasibility
import Pathwise.Proofs.Forms
import Pathwise.Proofs.Stacks

/-!
# Null checks

A value that is dereferenced is not null afterwards. A variable is narrowed together with all
that equal it, any other value is replaced by one that is not null; what comes of the narrowing
is not looked at. Where the check may fail, the path goes on at a target from the state as it was
before.

A bound that was made from types is not changed by a fact that only says "not null"
(`TypeBound.Made.meet?_top`), so no object is lost, also none of a class that is below two
unrelated array types.

## Results

* `Fact.meet_notNull`           — an object stays in a fact that is found not to be null.
* `State.satisfies_meetNotNull` — a variable and all that equal it are found not to be null.
* `Step.perform_checkNotNull_covers` — a null check covers both outcomes, and its verdict is
  right.
-/

namespace Pathwise

-- ---------------------------------------------------------------------------
-- Facts that are not null
-- ---------------------------------------------------------------------------

namespace Fact

variable {w : World} {f g : Fact} {o : Nat}

/-- The bound and the nullness of a meet in which there is an object. -/
theorem parts_of_admits_meet (hf : f.Admits w (.object o)) (hg : g.Admits w (.object o))
    (hfTop : f ≠ top) (hgTop : g ≠ top) (h : (f.meet g).Admits w (.object o)) :
    f.bound.meet? g.bound = some (f.meet g).bound ∧
      ((f.meet g).nullness = .notNull ↔ f.nullness = .notNull ∨ g.nullness = .notNull) := by
  obtain ⟨r, al, sl, rfl, -⟩ := (admits_object_iff.mp hf).resolve_left hfTop
  obtain ⟨s, al', sl', rfl, -⟩ := (admits_object_iff.mp hg).resolve_left hgTop
  have hMeet : (ref r al sl).meet (ref s al' sl') ≠ bottom := fun h' => by simp [h'] at h
  obtain ⟨t, hrs, ⟨-, hEq⟩ | ⟨hNull, hEq⟩⟩ := meet_ref_cases hMeet
  · rw [hEq] at h
    exact absurd rfl (admits_object.mp h).1.notNull
  · rw [hEq]
    obtain ⟨n, l, hNullness, -, ⟨rfl, -, rfl⟩ | ⟨hn, b, m, hBound, -, rfl⟩⟩ :=
      RefInfo.meet?_eq_some.mp hrs
    · exact absurd rfl hNull
    · exact ⟨hBound, (Nullness.meet?_eq_some hNullness hn).2.2⟩

/-- **An object is not null**: the fact that says so tells nothing else of it. -/
theorem meet_notNull (hFormed : f.Formed) (hf : f.Admits w (.object o)) :
    (f.meet notNull).Admits w (.object o) ∧ (f.meet notNull).nullness = .notNull ∧
      (f.meet notNull).bound = f.bound := by
  by_cases hTop : f = top
  · subst hTop
    rw [top_meet]
    exact ⟨notNull_admits, rfl, rfl⟩
  · have hBound : f.bound.meet? notNull.bound = some f.bound := hFormed.meet?_top
    have hAdmits := admits_meet_object_of (Option.isSome_iff_exists.mpr ⟨_, hBound⟩) hf
      notNull_admits
    obtain ⟨hMeet, hNullness⟩ := parts_of_admits_meet hf notNull_admits hTop nofun hAdmits
    exact ⟨hAdmits, hNullness.mpr (Or.inr rfl), (Option.some.inj (hBound.symm.trans hMeet)).symm⟩

/-- What a fact and another one leave of the bound is left when the fact is met again. -/
theorem bound_absorb {H : Hierarchy} (hf : f.Over H) (hg : g.Over H)
    (hfo : f.Admits w (.object o)) (hgo : g.Admits w (.object o)) (hTop : f ≠ top)
    (h : (f.meet g).Admits w (.object o)) (hFormed : (f.meet g).Formed) :
    f.bound.meet? (f.meet g).bound = some (f.meet g).bound := by
  by_cases hgTop : g = top
  · subst hgTop
    rw [meet_top] at hFormed ⊢
    exact hFormed.meet?_self hf
  · exact TypeBound.meet?_absorb hf hg (parts_of_admits_meet hfo hgo hTop hgTop h).1

end Fact

-- ---------------------------------------------------------------------------
-- Variables that are not null
-- ---------------------------------------------------------------------------

namespace State

variable {w : World} {a : Arena} {s : State} {ρ : ValueId → Concrete} {u v m : ValueId} {o : Nat}
  {x : Concrete}

/-- The fact of a variable that is found not to be null. -/
theorem fact_setNotNull (hArena : a.Coherent w.types) (hState : s.Coherent w.types a)
    (hVariable : a.isVariable m = true) (hObject : (s.fact a m).Admits w (.object o))
    (hFormed : (s.fact a m).Formed) :
    ((s.setFact a m ((s.fact a m).meet .notNull)).fact a m).Admits w (.object o) ∧
      ((s.setFact a m ((s.fact a m).meet .notNull)).fact a m).nullness = .notNull ∧
      ((s.setFact a m ((s.fact a m).meet .notNull)).fact a m).bound = (s.fact a m).bound := by
  obtain ⟨i, hi⟩ := Arena.isVariable_iff.mp hVariable
  have hNarrowed := Fact.meet_notNull hFormed hObject
  rw [fact_setFact_self hArena hi, stored_setFact hVariable]
  have hFact := fact_var (s := s) hArena hi
  split
  · -- the declaration says so, and no more is derived, as an object is no length
    rename_i hSaid
    rw [Fact.meet_top, derived_of_not_length hi ?_, ← hSaid]
    · exact hNarrowed
    · intro l q hLength
      obtain ⟨n, hn, hInt⟩ := (integral_fact hArena hLength).exists_int hObject
      cases hInt
  · by_cases hTop : s.derived a i = .top
    · rw [hTop, Fact.top_meet]
      exact hNarrowed
    · have hDerived : (s.derived a i).Over w.types := over_derived hArena hi
      have hStored : (s.stored m).Over w.types := over_stored hState
      rw [hFact] at hObject hFormed
      obtain ⟨hd, hs⟩ := Fact.admits_of_meet hDerived hStored hObject
      obtain ⟨hAdmits, hNotNull, hBound⟩ := hNarrowed
      -- what is derived was met with what was stored already
      have hAgain := Fact.bound_absorb hDerived hStored hd hs hTop hObject hFormed
      rw [← hFact, ← hBound] at hAgain
      have hMeet := Fact.admits_meet_object_of (Option.isSome_iff_exists.mpr ⟨_, hAgain⟩) hd
        hAdmits
      have hNarrowTop : (s.fact a m).meet .notNull ≠ .top := by
        intro h
        rw [h] at hNotNull
        cases hNotNull
      obtain ⟨hParts, hNullness⟩ := Fact.parts_of_admits_meet hd hAdmits hTop hNarrowTop hMeet
      refine ⟨hMeet, hNullness.mpr (Or.inr hNotNull), ?_⟩
      rw [← hBound]
      exact (Option.some.inj (hAgain.symm.trans hParts)).symm

/-- A variable that stands for an object depends on no other one. -/
theorem fact_setFact_of_object {f : Fact} (hArena : a.Coherent w.types) (hNe : v ≠ m)
    (hObject : (s.fact a v).Admits w (.object o)) :
    (s.setFact a m f).fact a v = s.fact a v := by
  refine fact_setFact_of_ne hArena hNe fun l hLength => ?_
  obtain ⟨n, hn, hInt⟩ := (integral_fact hArena hLength).exists_int hObject
  cases hInt

/-- No variable is narrowed that could be null, so none is exempt. -/
theorem scope_nothing : Scope w a ρ (fun _ => 0) (fun _ => False) fun _ => False :=
  ⟨nofun, nofun, nofun⟩

/-- **One variable** is found not to be null. -/
theorem kept_setNotNull
    (hKept : Kept w a ρ (fun _ => 0) (fun _ => False) (fun _ => False) s)
    (hArena : a.Coherent w.types) (hVariable : a.isVariable m = true) (hValue : ρ m = .object o)
    (hFormed : (s.fact a m).Formed) :
    Kept w a ρ (fun _ => 0) (fun _ => False) (fun _ => False)
      (s.setFact a m ((s.fact a m).meet .notNull)) := by
  have hOld : (s.fact a m).Admits w (ρ m) := hKept.fits.admits hVariable nofun
  have hNew : ((s.setFact a m ((s.fact a m).meet .notNull)).fact a m).Admits w (ρ m) := by
    rw [hValue] at hOld ⊢
    exact (fact_setNotNull hArena hKept.coherent hVariable hOld hFormed).1
  have hNotNull : ρ m ≠ .null := by
    rw [hValue]
    nofun
  have hOver : ((s.fact a m).meet .notNull).Over w.types :=
    Fact.over_meet (over_fact hArena hKept.coherent) Fact.over_ofNullness
  refine kept_setFact_of hArena scope_nothing hKept hOver (Fact.keeps_of_admits hNotNull hNew) ?_
  intro l v hLength hNe _
  exact admits_setFact_length hArena hLength hNe (fun p n => hKept.fits.lengths hLength hVariable)
    hNotNull hOld hNew (hKept.fits.admits hLength.isVariable nofun)

/-- Variables are found not to be null one after the other. What is known not to be null stays
so, as it depends on none of them. -/
theorem kept_meetNotNulls (hArena : a.Coherent w.types) (vs : List ValueId)
    (hvs : ∀ v ∈ vs, a.isVariable v = true ∧ ρ v = .object o ∧ (s.fact a v).Formed)
    (hKept : Kept w a ρ (fun _ => 0) (fun _ => False) (fun _ => False) s) :
    (meetFacts a .notNull vs s).state.Satisfies w a ρ ∧
      ∀ v, a.isVariable v = true → ρ v = .object o →
        (v ∈ vs ∨ (s.fact a v).nullness = .notNull) →
        ((meetFacts a .notNull vs s).state.fact a v).nullness = .notNull := by
  induction vs generalizing s with
  | nil => exact ⟨hKept.fits, fun v _ _ h => h.resolve_left List.not_mem_nil⟩
  | cons m vs ih =>
    obtain ⟨hVariable, hValue, hFormed⟩ := hvs m List.mem_cons_self
    have hObject : ∀ {v}, a.isVariable v = true → ρ v = .object o →
        (s.fact a v).Admits w (.object o) := fun hv hSame => hSame ▸ hKept.fits.admits hv nofun
    obtain ⟨-, hNotNull, hBound⟩ :=
      fact_setNotNull hArena hKept.coherent hVariable (hObject hVariable hValue) hFormed
    have hNext := kept_setNotNull hKept hArena hVariable hValue hFormed
    rw [meetFacts, Fact.isBottom_of_admits (Fact.meet_notNull hFormed (hObject hVariable hValue)).1]
    -- the others are as they were
    have hOthers : ∀ v, v ≠ m → a.isVariable v = true → ρ v = .object o →
        (s.setFact a m ((s.fact a m).meet .notNull)).fact a v = s.fact a v :=
      fun v hNe hv hSame => fact_setFact_of_object hArena hNe (hObject hv hSame)
    have hMembers : ∀ v ∈ vs, a.isVariable v = true ∧ ρ v = .object o ∧
        ((s.setFact a m ((s.fact a m).meet .notNull)).fact a v).Formed := by
      intro v hv
      obtain ⟨hv', hSame, hForm⟩ := hvs v (List.mem_cons_of_mem _ hv)
      refine ⟨hv', hSame, ?_⟩
      by_cases hNe : v = m
      · rw [hNe, Fact.Formed, hBound]
        exact hFormed
      · rw [hOthers v hNe hv' hSame]
        exact hForm
    obtain ⟨hRest, hNullness⟩ := ih hMembers hNext
    refine ⟨hRest, fun v hv hSame h => hNullness v hv hSame ?_⟩
    by_cases hNe : v = m
    · rw [hNe]
      exact Or.inr hNotNull
    · rw [hOthers v hNe hv hSame]
      exact h.imp_left fun h => (List.mem_cons.mp h).resolve_left hNe

/-- **A variable and all that equal it** are found not to be null. -/
theorem satisfies_meetNotNull (hArena : a.Coherent w.types) (hState : s.Coherent w.types a)
    (hρ : s.Satisfies w a ρ) (hVariable : a.isVariable v = true) (hValue : ρ v = .object o)
    (hFormed : ∀ m, (s.fact a m).Formed) :
    (s.meetFact a v .notNull).state.Satisfies w a ρ ∧
      ((s.meetFact a v .notNull).state.fact a v).nullness = .notNull := by
  have hMembers : ∀ m ∈ s.equalClass v,
      a.isVariable m = true ∧ ρ m = .object o ∧ (s.fact a m).Formed := by
    intro m hm
    obtain ⟨hMember, hSame⟩ := of_mem_equalClass hState hρ.links hVariable hm
    exact ⟨hMember, hSame.trans hValue, hFormed m⟩
  obtain ⟨hNext, hNotNull⟩ := kept_meetNotNulls hArena (s.equalClass v) hMembers ⟨hState, hρ, nofun⟩
  unfold meetFact
  rw [if_pos hVariable]
  exact ⟨hNext, hNotNull v hVariable hValue (Or.inl mem_equalClass_self)⟩

/-- **A value that may be null** is found to be null. -/
theorem satisfies_apply_isNull (hArena : a.Coherent w.types) (hState : s.Coherent w.types a)
    (hρ : s.Satisfies w a ρ) (hv : Denotes w a ρ v .null) (hNull : s.fact a u = .null)
    (hu : a.isVariable u = false) :
    (s.apply a (.of a v .eq u)).feasible = true ∧
      (s.apply a (.of a v .eq u)).state.Satisfies w a ρ := by
  have hLeft : NullOperand w a ρ (fun _ => False) s v := ⟨hv.own, hv.admits hρ, fun _ _ _ => id⟩
  have hRight : NullOperand w a ρ (fun _ => False) s u := by
    refine ⟨fun h => ?_, ?_, fun _ _ _ => id⟩
    · rw [hu] at h
      cases h
    · rw [hNull]
      exact Fact.admits_null.mpr RefInfo.admitsNull_null
  have hKept := kept_apply_of hArena scope_nothing ⟨hState, hρ, nofun⟩
    (.nulls rfl rfl hLeft hRight (Or.inr hNull)) ⟨rfl, fun _ => ⟨rfl, nofun⟩⟩
  exact ⟨hKept.1, hKept.2.fits⟩

end State

-- ---------------------------------------------------------------------------
-- The step
-- ---------------------------------------------------------------------------

namespace Step

variable {w : World} {σ : Session} {s : State} {ρ : ValueId → Concrete} {v : ValueId} {o : Nat}
  {x : Concrete} {ctx : Context} {index : Nat} {anchor : Option Anchor}

open State (Denotes Built)

/-- **A verdict on a value being dereferenced that is right** for all valuations. -/
structure RightVerdict (w : World) (a : Arena) (s : State) (v : ValueId) (verdict : Verdict) :
    Prop where
  never  : verdict = .neverFails → ∀ ρ, s.Satisfies w a ρ → ¬ Denotes w a ρ v .null
  always : verdict = .alwaysFails → ∀ ρ x, s.Satisfies w a ρ → Denotes w a ρ v x → x = .null

theorem right_nullVerdict {a : Arena} :
    RightVerdict w a s v (nullVerdict (s.fact a v).nullness) := by
  constructor
  · intro hNever ρ hρ hv
    refine Fact.not_admits_null ?_ (hv.admits hρ)
    cases h : (s.fact a v).nullness <;> rw [h] at hNever <;> first | rfl | cases hNever
  · intro hAlways ρ x hρ hv
    refine Fact.eq_null_of_isNull ?_ (hv.admits hρ)
    unfold Fact.isNull
    cases h : (s.fact a v).nullness <;> rw [h] at hAlways <;> first | rfl | cases hAlways

/-- What is reported of a value being dereferenced. -/
def nullReport (problem : Option Problem) (a : Arena) (s : State) (v : ValueId)
    (verdict : Verdict) : List Event :=
  (problem.map fun p => .condition p v (s.fact a v) verdict s).toList

theorem yields_nullReport {problem : Option Problem} :
    Yields (reportNull problem v s) σ fun _ τ => τ.arena = σ.arena ∧
      τ.events.toList = σ.events.toList ++
        nullReport problem σ.arena s v (nullVerdict (s.fact σ.arena v).nullness) := by
  unfold reportNull
  rw [yields_bind, yields_fact, yields_report]
  cases problem with
  | none => exact ⟨rfl, (List.append_nil _).symm⟩
  | some p => exact ⟨rfl, Array.toList_push ..⟩

theorem over_dereferencedFact {H : Hierarchy} {f : Fact} (hf : f.Over H) :
    (dereferencedFact f).Over H := by
  unfold dereferencedFact
  dsimp only
  split
  · exact Fact.over_dereferenced hf
  · exact Fact.over_meet hf Fact.over_ofNullness

theorem dereferencedFact_of_object {f : Fact} (hFormed : f.Formed)
    (hf : f.Admits w (.object o)) : (dereferencedFact f).nullness = .notNull := by
  obtain ⟨hAdmits, hNotNull, -⟩ := Fact.meet_notNull hFormed hf
  unfold dereferencedFact
  dsimp only
  rw [Fact.isBottom_of_admits hAdmits]
  exact hNotNull

/-- **A dereferenced object** is known not to be null, and a valuation goes on. -/
theorem dereference_keeps {problem : Option Problem} (hBuilt : Built w.types σ.arena s)
    (hv : v < σ.arena.size) :
    Yields (dereference s v problem) σ fun r τ =>
      Arena.Extends w.types σ.arena τ.arena ∧ r.1 < τ.arena.size ∧ r.2.stack = s.stack ∧
        τ.events.toList = σ.events.toList ++
          nullReport problem σ.arena s v (nullVerdict (s.fact σ.arena v).nullness) ∧
        ∀ ρ o, s.Satisfies w σ.arena ρ → Denotes w σ.arena ρ v (.object o) →
          r.2.Satisfies w τ.arena ρ ∧ (r.2.fact τ.arena r.1).nullness = .notNull := by
  obtain ⟨hArena, hState⟩ := hBuilt.reached.coherent
  have hFormed := hBuilt.formed
  unfold dereference
  refine yields_nullReport.bind ?_
  rintro _ τ ⟨hSame, hEvents⟩
  rw [yields_bind, yields_arena, hSame]
  dsimp only
  have hExtends : Arena.Extends w.types σ.arena τ.arena := by
    rw [hSame]
    exact .refl hArena
  have hSize : v < τ.arena.size := by
    rw [hSame]
    exact hv
  split
  · rename_i hVariable
    split
    · -- no object is known to be null
      rename_i hNull
      refine yields_pure.mpr ⟨hExtends, hSize, State.frame_setFact.stack, hEvents, ?_⟩
      intro ρ o hρ hObject
      cases Fact.eq_null_of_isNull hNull (hObject.admits hρ)
    · refine yields_pure.mpr ⟨hExtends, hSize, State.frame_meetFact.stack, hEvents, ?_⟩
      intro ρ o hρ hObject
      rw [hSame]
      exact State.satisfies_meetNotNull hArena hState hρ hVariable (hObject.own hVariable) hFormed
  · have hNotNull : ∀ ρ o, s.Satisfies w σ.arena ρ → Denotes w σ.arena ρ v (.object o) →
        (dereferencedFact (s.fact σ.arena v)).nullness = .notNull :=
      fun ρ o hρ hObject => dereferencedFact_of_object (hFormed v) (hObject.admits hρ)
    split
    · rename_i hKnown
      rw [hKnown] at hNotNull
      refine yields_pure.mpr ⟨hExtends, hSize, rfl, hEvents, ?_⟩
      rw [hSame]
      exact fun ρ o hρ hObject => ⟨hρ, hNotNull ρ o hρ hObject⟩
    · have hTyped : Arena.Extends w.types σ.arena
          (σ.arena.typed (dereferencedFact (s.fact σ.arena v))).2 :=
        Arena.extends_typed hArena (over_dereferencedFact (State.over_fact hArena hState))
      rw [yields_bind, yields_intern, yields_pure, hSame]
      refine ⟨hTyped, Arena.lt_size_intern, rfl, hEvents, ?_⟩
      intro ρ o hρ hObject
      dsimp only
      rw [State.fact_typed]
      exact ⟨(State.satisfies_grows hArena hTyped.grows).mpr hρ, hNotNull ρ o hρ hObject⟩

/-- **The failing path** goes on at the target of the transfer, in a state that is marked and has
an empty stack, if what is assumed is feasible. -/
theorem transferIf_covers {cs : List Condition} {t : Transfer} :
    Yields (transferIf ctx s cs t true) σ fun items τ => τ = σ ∧
      ∀ ρ target exempt, t = .goto target → ctx.handler = .usual →
        (applyAll σ.arena cs s).feasible = true →
        (applyAll σ.arena cs s).state.Fits w σ.arena ρ exempt → ∃ it ∈ items, it.index = target ∧
          it.state.isEphemeral = true ∧ it.state.stack = [] ∧
          it.state.Fits w σ.arena ρ exempt := by
  unfold transferIf
  rw [yields_bind, yields_arena]
  cases hFeasible : (applyAll σ.arena cs s).feasible with
  | false =>
    simp only [Narrowing.state?, hFeasible, Bool.false_eq_true, if_false]
    exact yields_pure.mpr ⟨rfl, fun _ _ _ _ _ h => h.elim⟩
  | true =>
    simp only [Narrowing.state?, hFeasible, if_true]
    refine yields_pure.mpr ⟨rfl, ?_⟩
    rintro ρ target exempt rfl hHandler - hFits
    unfold dispatch
    rw [hHandler]
    exact ⟨_, List.mem_singleton.mpr rfl, rfl, rfl, rfl, hFits.congr rfl rfl⟩

/-- A null goes on at the target of the transfer. -/
theorem transferIf_keeps {u : ValueId} {t : Transfer} (hArena : σ.arena.Coherent w.types)
    (hState : s.Coherent w.types σ.arena) (hNull : s.fact σ.arena u = .null)
    (hu : σ.arena.isVariable u = false) :
    Yields (transferIf ctx s [.of σ.arena v .eq u] t true) σ fun items τ => τ = σ ∧
      ∀ ρ target, t = .goto target → ctx.handler = .usual → s.Satisfies w σ.arena ρ →
        Denotes w σ.arena ρ v .null → ∃ it ∈ items, it.index = target ∧
          it.state.isEphemeral = true ∧ it.state.stack = [] ∧ it.state.Satisfies w σ.arena ρ := by
  refine (transferIf_covers (w := w)).mono ?_
  rintro items τ ⟨rfl, hCovers⟩
  refine ⟨rfl, fun ρ target hGoto hHandler hρ hv => ?_⟩
  obtain ⟨hFeasible, hNext⟩ := State.satisfies_apply_isNull hArena hState hρ hv hNull hu
  have hAll : applyAll τ.arena [.of τ.arena v .eq u] s =
      ⟨true, (s.apply τ.arena (.of τ.arena v .eq u)).state⟩ := by
    simp only [applyAll, hFeasible, if_true]
  exact hCovers ρ target _ hGoto hHandler (by rw [hAll]) (by rw [hAll]; exact hNext)

/-- **The null check covers both outcomes.** A value is taken from the stack. If it is an object
the valuation goes on at the next instruction, where the top of the stack is known not to be
null; if it is null, the valuation goes on at the target that is given, as the usual handler of
transfers has it. The verdict is right for all valuations. -/
theorem perform_checkNotNull_covers {onNull : Option Transfer} (hBuilt : Built w.types σ.arena s)
    (hv : v < σ.arena.size) :
    Yields (perform ctx index (s.push v) (.checkNotNull .dereference onNull anchor)) σ
      fun items τ =>
        (∃ verdict, RightVerdict w σ.arena s v verdict ∧ τ.events.toList = σ.events.toList ++
          nullReport (anchor.map .nullDereference) σ.arena s v verdict) ∧
        ∀ ρ, s.Satisfies w σ.arena ρ →
          (∀ o, Denotes w σ.arena ρ v (.object o) → ∃ it ∈ items, it.index = index + 1 ∧
            it.state.Satisfies w τ.arena ρ ∧ ∃ r, it.state.stack = r :: s.stack ∧
              (it.state.fact τ.arena r).nullness = .notNull) ∧
          (∀ target, onNull = some (.goto target) → ctx.handler = .usual →
            Denotes w σ.arena ρ v .null → ∃ it ∈ items, it.index = target ∧
              it.state.isEphemeral = true ∧ it.state.stack = [] ∧
              it.state.Satisfies w τ.arena ρ) := by
  obtain ⟨hArena, hState⟩ := hBuilt.reached.coherent
  have hPop : pop index (s.push v) = pure (v, s) := rfl
  show Yields (checkNotNull ctx index .dereference onNull anchor (s.push v)) σ _
  unfold checkNotNull
  rw [hPop, yields_bind, yields_pure]
  dsimp only
  rw [yields_bind, yields_arena]
  refine (dereference_keeps hBuilt hv).bind ?_
  rintro ⟨r, after⟩ τ ⟨hExtends, hSize, hStack, hEvents, hKeeps⟩
  dsimp only at hSize hStack hKeeps ⊢
  -- where there is an object the path does not end
  have hNormal : ∀ b : Arena, τ.arena.Grows b → ∀ ρ o, s.Satisfies w σ.arena ρ →
      Denotes w σ.arena ρ v (.object o) → ∃ it ∈
        (if (ctx.config.stopOnNullDereference && s.isNull σ.arena v) = true then []
          else [next index (after.push r)]), it.index = index + 1 ∧
        it.state.Satisfies w b ρ ∧ ∃ r, it.state.stack = r :: s.stack ∧
          (it.state.fact b r).nullness = .notNull := by
    intro b hGrows ρ o hρ hObject
    have hNotNull : s.isNull σ.arena v = false := by
      refine eq_false_of_ne_true fun hNull => ?_
      cases Fact.eq_null_of_isNull hNull (hObject.admits hρ)
    obtain ⟨hAfter, hTop⟩ := hKeeps ρ o hρ hObject
    rw [hNotNull, Bool.and_false]
    refine ⟨_, List.mem_singleton.mpr rfl, rfl, ?_, r, congrArg (r :: ·) hStack, ?_⟩
    · exact ((State.satisfies_grows hExtends.coherent hGrows).mpr hAfter).congr rfl rfl
    · show ((after.push r).fact b r).nullness = .notNull
      rw [State.fact_congr (t := after.push r) (s := after) rfl,
        State.fact_grows hExtends.coherent hGrows hSize]
      exact hTop
  cases onNull with
  | none =>
    refine yields_pure.mpr ⟨⟨_, right_nullVerdict, hEvents⟩, fun ρ hρ => ⟨?_, nofun⟩⟩
    exact fun o hObject => hNormal _ (.refl _) ρ o hρ hObject
  | some t =>
    have hTyped : Arena.Extends w.types τ.arena (τ.arena.typed .null).2 :=
      Arena.extends_typed hExtends.coherent Fact.over_ofNullness
    have hGrows := hExtends.trans hTyped
    rw [yields_bind, yields_intern, yields_bind, yields_condition]
    refine (transferIf_keeps (w := w) hGrows.coherent (State.coherent_grows hGrows.grows hState)
      State.fact_typed Arena.isVariable_typed).bind ?_
    rintro items υ ⟨rfl, hFailing⟩
    refine yields_pure.mpr ⟨⟨_, right_nullVerdict, hEvents⟩, fun ρ hρ => ⟨?_, ?_⟩⟩
    · intro o hObject
      obtain ⟨it, hit, hRest⟩ := hNormal _ hTyped.grows ρ o hρ hObject
      exact ⟨it, List.mem_append_left _ hit, hRest⟩
    · intro target hTarget hHandler hNull
      obtain ⟨it, hit, hRest⟩ := hFailing ρ target (Option.some.inj hTarget) hHandler
        ((State.satisfies_grows hArena hGrows.grows).mpr hρ) (hNull.grows hGrows.grows hv)
      exact ⟨it, List.mem_append_right _ hit, hRest⟩

/-- A parameter of which nothing is known is found not to be null, and to be null at the target. -/
theorem checkNotNull_covers_parameter :
    Yields (perform usualContext 0 (State.initial.push 1)
        (.checkNotNull .dereference (some (.goto 7)) none)) (.start State.nullTest) fun items τ =>
      (∃ it ∈ items, it.index = 1 ∧
        it.state.Satisfies State.plainWorld τ.arena (fun _ => .object 0) ∧
        ∃ r, it.state.stack = r :: [] ∧ (it.state.fact τ.arena r).nullness = .notNull) ∧
      ∃ it ∈ items, it.index = 7 ∧ it.state.isEphemeral = true ∧ it.state.stack = [] ∧
        it.state.Satisfies State.plainWorld τ.arena fun _ => .null := by
  have hBuilt : Built State.plainWorld.types State.nullTest .initial :=
    .intern _ (.intern _ .start ⟨Fact.over_ofNullness, by rintro y q ⟨⟩ ⟨⟩⟩
      Fact.formed_ofNullness) ⟨Fact.over_ofNullness, nofun⟩ Fact.formed_ofNullness
  obtain ⟨hSize, -, hVariable, -⟩ := State.evaluated_nullTest
  have hObject : Fact.nullable.Admits State.plainWorld (.object 0) := Fact.ofNullness_admits nofun
  have hNull : Fact.nullable.Admits State.plainWorld .null := Fact.admits_null.mpr ⟨nofun, rfl⟩
  refine (perform_checkNotNull_covers hBuilt (hSize ▸ by decide)).mono ?_
  rintro items τ ⟨-, hCovers⟩
  exact ⟨(hCovers _ (State.satisfies_nullTest hObject)).1 0 (.of_variable hVariable rfl),
    (hCovers _ (State.satisfies_nullTest hNull)).2 7 rfl rfl (.of_variable hVariable rfl)⟩

end Step

end Pathwise
