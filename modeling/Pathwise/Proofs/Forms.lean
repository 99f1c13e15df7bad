import Pathwise.Proofs.Absorption
import Pathwise.Proofs.Coherence

/-!
# Bounds are made from types

The bound of a reference is made: it is that of one type, or the meet of others. Nothing that an
analysis does with facts makes other bounds. So where the facts that it brings in have made
bounds, all facts have, and none of them is changed by a meet with one that says nothing of the
class.

## Results

* `Fact.Formed`        — a fact with a bound that was made; `formed_ofType`, … — those are.
* `State.Built`        — the arenas and states that come from such facts.
* `State.Built.formed` — all facts of them have this form.
-/

namespace Pathwise

-- ---------------------------------------------------------------------------
-- Facts
-- ---------------------------------------------------------------------------

namespace Fact

variable {f g h : Fact} {n : Nullness} {t : TypeDesc} {rel : Relation}

/-- The bound of the fact was made from types. -/
def Formed (f : Fact) : Prop := f.bound.Made

theorem formed_of_info (h : f.info? = none) : f.Formed := by
  rw [Formed, bound, h]
  exact .top

theorem formed_ofNullness : (ofNullness n).Formed := .top

theorem formed_ofExactType : (ofExactType t n).Formed := .exactly t

theorem formed_ofType : (ofType t n).Formed := by
  unfold ofType
  split
  · refine formed_of_info ?_
    unfold ofPrimitive
    split <;> rfl
  · exact .subtypeOf t

theorem formed_ofString {s : String} : (ofString s).Formed := .exactly _

theorem formed_ofClassObject : (ofClassObject t).Formed := .exactly _

theorem formed_withLength {l : Length} (hf : f.Formed) : (f.withLength l g).Formed := by
  cases f <;> cases l <;> exact hf

theorem formed_withMutability {m : Mutability} (hf : f.Formed) : (f.withMutability m).Formed := by
  cases f <;> exact hf

theorem formed_dereferenced (hf : f.Formed) : f.dereferenced.Formed := by
  cases f with
  | ref r al sl =>
    rw [dereferenced]
    split
    · exact formed_ofNullness
    · exact hf
  | _ => exact hf

theorem formed_dropLocality (hf : f.Formed) : f.dropLocality.Formed := by
  cases f <;> exact hf

theorem formed_meet (hf : f.Formed) (hg : g.Formed) : (f.meet g).Formed := by
  unfold Formed
  rcases bound_meet_cases (f := f) (g := g) with hEq | hEq | hEq | hMeet
  · rw [hEq]
    exact .top
  · rw [hEq]
    exact hf
  · rw [hEq]
    exact hg
  · exact .meet hf hg hMeet

theorem Narrower.formed (h' : Narrower g h) (hg : g.Formed) : h.Formed := by
  cases h' with
  | same => exact hg
  | plain hNone => exact formed_of_info hNone
  | nullness n => exact formed_ofNullness
  | bound n => exact hg
  | excluded n ht => exact .notSubtypeOf _

theorem formed_narrow (hf : f.Formed) (hg : g.Formed) : (f.narrow rel g).Formed := by
  have hNarrowed : Narrowed f g (narrow rel f g) := narrowed_narrow
  generalize f.narrow rel g = k at hNarrowed ⊢
  cases hNarrowed with
  | kept => exact hf
  | fewer hNone _ => exact formed_of_info hNone
  | meet hNarrower => exact formed_meet hf (hNarrower.formed hg)

end Fact

-- ---------------------------------------------------------------------------
-- States
-- ---------------------------------------------------------------------------

namespace State

/-- **The arenas and states that come from facts with made bounds**: as `Reached`, and nothing
else is put into the arena or stored. -/
inductive Built (H : Hierarchy) : Arena → State → Prop where
  | start : Built H .new .initial
  | intern {a s} (x : Value) : Built H a s → a.Admits H x → x.inherent.Formed →
      Built H (a.intern x).2 s
  | same {a s t} : Built H a s → t.facts = s.facts → t.links = s.links → Built H a t
  | store {a s} (v : ValueId) (f : Fact) : Built H a s → f.Over H → f.Formed →
      Built H a (s.setFact a v f)
  | meet {a s} (v : ValueId) (f : Fact) : Built H a s → f.Over H → f.Formed →
      Built H a (s.meetFact a v f).state
  | apply {a s} (c : Condition) : Built H a s → Built H a (s.apply a c).state
  | assign {a s} (v u : ValueId) : Built H a s → a.isVariable v = true →
      Built H a (s.assign a v u)
  | flushVariable {a s} (v : ValueId) : Built H a s → Built H a (s.flushVariable a v)
  | flushDependents {a s} (v : ValueId) : Built H a s → Built H a (s.flushDependents a v)
  | flushFields {a s} : Built H a s → Built H a (s.flushFields a)
  | dropLocality {a s} (v : ValueId) : Built H a s →
      Built H (s.dropLocality a v).2.2 (s.dropLocality a v).1

variable {H : Hierarchy} {a : Arena} {s : State} {f : Fact} {v : ValueId} {x : Value}

theorem Built.reached (h : Built H a s) : Reached H a s := by
  induction h with
  | start => exact .start
  | intern x _ hx _ ih => exact ih.intern x hx
  | same _ hFacts hLinks ih => exact ih.same hFacts hLinks
  | store v f _ hf _ ih => exact ih.store v f hf
  | meet v f _ hf _ ih => exact ih.meet v f hf
  | apply c _ ih => exact ih.apply c
  | assign v u _ hv ih => exact ih.assign v u hv
  | flushVariable v _ ih => exact ih.flushVariable v
  | flushDependents v _ ih => exact ih.flushDependents v
  | flushFields _ ih => exact ih.flushFields
  | dropLocality v _ ih => exact ih.dropLocality v

/-- All facts that are stored have made bounds. -/
def Formed (s : State) : Prop := ∀ v, (s.stored v).Formed

theorem formed_initial : initial.Formed := fun _ => Fact.formed_of_info rfl

theorem formed_fact (hArena : a.Coherent H) (hDeclared : ∀ v, (a.inherent v).Formed)
    (hs : s.Formed) : (s.fact a v).Formed := by
  cases hVariable : a.isVariable v with
  | false =>
    rw [fact_of_not_variable hVariable]
    exact hDeclared v
  | true =>
    obtain ⟨x, hv⟩ := Arena.isVariable_iff.mp hVariable
    have hInherent := hDeclared v
    rw [Arena.inherent, hv] at hInherent
    rw [fact_var hArena hv]
    refine Fact.formed_meet ?_ (hs v)
    rw [derived]
    split
    · exact Fact.formed_meet hInherent (Fact.formed_of_info Fact.integral_lengthFact.info)
    · exact hInherent

theorem formed_setFact (hs : s.Formed) (hf : f.Formed) : (s.setFact a v f).Formed := by
  intro u
  cases hVariable : a.isVariable v with
  | false =>
    rw [setFact_of_not_variable hVariable]
    exact hs u
  | true =>
    by_cases hNe : u = v
    · rw [hNe, stored_setFact hVariable]
      split
      · exact Fact.formed_of_info rfl
      · exact hf
    · rw [stored_setFact_of_ne hNe]
      exact hs u

theorem formed_forget (hs : s.Formed) : (s.forget v).Formed := by
  intro u
  rw [stored_forget]
  split
  · exact Fact.formed_of_info rfl
  · exact hs u

/-- **The form of facts is an invariant.** -/
theorem formed_invariant (hArena : a.Coherent H) (hDeclared : ∀ v, (a.inherent v).Formed) :
    Invariant a Formed Fact.Formed where
  closed := ⟨Fact.formed_of_info, Fact.formed_meet, Fact.formed_narrow, Fact.formed_dropLocality⟩
  declared := hDeclared
  fact := formed_fact hArena hDeclared
  store hf hs := formed_setFact hs hf
  link _ _ hs := by
    intro v
    rw [stored, facts_addLink]
    exact hs v
  forget := formed_forget

theorem formed_intern (hDeclared : ∀ v, (a.inherent v).Formed) (hx : x.inherent.Formed) :
    ((a.intern x).2.inherent v).Formed := by
  rw [Arena.inherent]
  rcases Arena.get_intern (a := a) (x := x) (v := v) with hOld | ⟨rfl, hNew⟩
  · rw [hOld]
    exact hDeclared v
  · rw [hNew]
    exact hx

/-- What is declared in an arena and stored in a state has made bounds. -/
theorem Built.declared_and_stored (h : Built H a s) :
    (∀ v, (a.inherent v).Formed) ∧ s.Formed := by
  have hInvariant : ∀ {b t}, Built H b t → (∀ v, (b.inherent v).Formed) →
      Invariant b Formed Fact.Formed := fun hb => formed_invariant hb.reached.coherent.1
  induction h with
  | start =>
    refine ⟨fun v => Fact.formed_of_info ?_, formed_initial⟩
    cases v <;> rfl
  | intern x _ _ hx ih => exact ⟨fun _ => formed_intern ih.1 hx, ih.2⟩
  | same _ hFacts _ ih =>
    refine ⟨ih.1, fun v => ?_⟩
    rw [stored, hFacts]
    exact ih.2 v
  | store v f _ _ hf ih => exact ⟨ih.1, formed_setFact ih.2 hf⟩
  | meet v f hb _ hf ih => exact ⟨ih.1, (hInvariant hb ih.1).meetFact hf ih.2⟩
  | apply c hb ih => exact ⟨ih.1, (hInvariant hb ih.1).apply ih.2 c⟩
  | assign v u hb hv ih => exact ⟨ih.1, (hInvariant hb ih.1).assign ih.2 hv⟩
  | flushVariable v hb ih => exact ⟨ih.1, (hInvariant hb ih.1).flushVariable ih.2⟩
  | flushDependents v hb ih => exact ⟨ih.1, (hInvariant hb ih.1).flushDependents ih.2⟩
  | flushFields hb ih => exact ⟨ih.1, (hInvariant hb ih.1).flushFields ih.2⟩
  | dropLocality v hb ih =>
    rcases (hInvariant hb ih.1).dropLocality (v := v) ih.2 with
      ⟨hArena, hState⟩ | ⟨x, hx, -, hArena, hState⟩
    · rw [hArena]
      exact ⟨ih.1, hState⟩
    · rw [hArena, hState]
      exact ⟨fun _ => formed_intern ih.1 hx, ih.2⟩

/-- **All facts have made bounds** where those that are brought in have. -/
theorem Built.formed (h : Built H a s) (v : ValueId) : (s.fact a v).Formed :=
  formed_fact h.reached.coherent.1 h.declared_and_stored.1 h.declared_and_stored.2

end State

end Pathwise
