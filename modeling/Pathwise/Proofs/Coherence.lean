import Pathwise.State.Update
import Pathwise.Proofs.Decisions
import Pathwise.Proofs.Valuations

/-!
# Coherence is kept

What an analysis does to its arena and to the state of a path keeps both coherent, as long
as the facts it brings in name only types of the hierarchy. The facts that are made from such
types do, and so do all that are made from them.

## Results

* `over_ofType`, `over_ofString`, … — facts on declared types.
* `Arena.coherent_intern`     — a new value keeps the arena coherent.
* `State.Invariant`           — what the basic operations on a state keep, all of them keep.
* `State.Reached`             — the arenas and states that there can be.
* `State.Reached.coherent`    — all of them are coherent.
-/

namespace Pathwise

-- ---------------------------------------------------------------------------
-- Facts
-- ---------------------------------------------------------------------------

namespace Fact

variable {H : Hierarchy} {f : Fact} {t : TypeDesc} {n : Nullness} {b : TypeBound}

theorem over_ofType (ht : H.Declares t) : (ofType t n).Over H := by
  unfold ofType
  split
  · refine over_of_info ?_
    unfold ofPrimitive
    split <;> rfl
  · exact over_ofBound (TypeBound.over_subtypeOf ht)

theorem over_ofExactType (ht : H.Declares t) : (ofExactType t n).Over H :=
  over_ofBound (TypeBound.over_exactly ht)

theorem over_ofString {s : String} (h : H.Declares .string) : (ofString s).Over H :=
  TypeBound.over_exactly h

theorem over_ofClassObject (h : H.Declares .classObject) : (ofClassObject t).Over H :=
  TypeBound.over_exactly h

theorem over_withLength {l : Length} {g : Fact} (h : f.Over H) : (f.withLength l g).Over H := by
  cases f <;> cases l <;> exact h

theorem over_dropLocality (h : f.Over H) : f.dropLocality.Over H := by
  cases f <;> exact h

theorem over_withMutability {m : Mutability} (h : f.Over H) : (f.withMutability m).Over H := by
  cases f <;> exact h

theorem over_dereferenced (h : f.Over H) : f.dereferenced.Over H := by
  cases f with
  | ref s al sl =>
    rw [dereferenced]
    split
    · exact over_ofNullness
    · exact h
  | _ => exact h

end Fact

-- ---------------------------------------------------------------------------
-- Arenas
-- ---------------------------------------------------------------------------

namespace Arena

variable {H : Hierarchy} {a : Arena} {x : Value} {u v : ValueId}

/-- A value may be put into an arena: its fact names declared types, and what
qualifies it is there already. -/
structure Admits (H : Hierarchy) (a : Arena) (x : Value) : Prop where
  declared  : x.inherent.Over H
  qualifier : ∀ {y q}, x = .var y → y.qualifier = some q → q < a.size

theorem coherent_new : new.Coherent H := by
  have hUnknown : ∀ v, new.get v = .unknown := by
    intro v
    cases v <;> rfl
  constructor
  · intro v x q hv
    rw [hUnknown] at hv
    cases hv
  · intro v
    rw [inherent, hUnknown]
    exact Fact.over_of_info rfl

/-- What is in the arena stays, and at most one value is put at the end. -/
theorem get_intern : (a.intern x).2.get v = a.get v ∨ v = a.size ∧ (a.intern x).2.get v = x := by
  unfold intern
  split
  · exact Or.inl rfl
  · rcases Nat.lt_trichotomy v a.size with hLess | rfl | hMore
    · refine Or.inl ?_
      simp only [get, Array.getD_eq_getD_getElem?]
      rw [Array.getElem?_push_lt hLess, Array.getElem?_eq_getElem hLess]
    · refine Or.inr ⟨rfl, ?_⟩
      simp only [get, Array.getD_eq_getD_getElem?, size, Array.getElem?_push_size, Option.getD_some]
    · refine Or.inl ?_
      have hNone : a.values[v]? = none := Array.getElem?_eq_none (Nat.le_of_lt hMore)
      have hNone' : (a.values.push x)[v]? = none := by
        refine Array.getElem?_eq_none ?_
        rw [Array.size_push]
        exact hMore
      simp only [get, Array.getD_eq_getD_getElem?, hNone, hNone']

/-- **A new value** keeps the arena coherent. -/
theorem coherent_intern (ha : a.Coherent H) (hx : a.Admits H x) : (a.intern x).2.Coherent H := by
  constructor
  · intro v y q hv hQualifier
    rcases get_intern (a := a) (x := x) (v := v) with hOld | ⟨rfl, hNew⟩
    · exact ha.qualifier_lt (hOld ▸ hv) hQualifier
    · exact hx.qualifier (hNew.symm.trans hv) hQualifier
  · intro v
    rw [inherent]
    rcases get_intern (a := a) (x := x) (v := v) with hOld | ⟨rfl, hNew⟩
    · rw [hOld]
      exact ha.declared v
    · rw [hNew]
      exact hx.declared

/-- Variables stay variables. -/
theorem isVariable_intern (h : a.isVariable v = true) : (a.intern x).2.isVariable v = true := by
  obtain ⟨y, hy⟩ := isVariable_iff.mp h
  have hLess : v < a.size := List.mem_range.mp (List.mem_filter.mp (mem_allVars.mpr h)).1
  rcases get_intern (a := a) (x := x) (v := v) with hOld | ⟨rfl, -⟩
  · exact isVariable_iff.mpr ⟨y, hOld.trans hy⟩
  · exact absurd hLess (Nat.lt_irrefl _)

end Arena

-- ---------------------------------------------------------------------------
-- States
-- ---------------------------------------------------------------------------

namespace State

section

variable {H : Hierarchy} {a : Arena} {s : State} {f : Fact} {rel : Relation} {u v : ValueId}

theorem coherent_initial : initial.Coherent H a := ⟨nofun, nofun⟩

theorem coherent_intern {x : Value} (hs : s.Coherent H a) : s.Coherent H (a.intern x).2 :=
  ⟨hs.declared, fun l hl =>
    (hs.linked l hl).imp Arena.isVariable_intern Arena.isVariable_intern⟩

/-- A relation between variables is recorded. -/
theorem coherent_addLink (hs : s.Coherent H a) (hu : a.isVariable u = true)
    (hv : a.isVariable v = true) : (s.addLink u rel v).Coherent H a := by
  refine ⟨by rw [facts_addLink]; exact hs.declared, ?_⟩
  intro l hl
  rcases mem_addLink hl with hl | rfl | ⟨r, -, rfl⟩
  · exact hs.linked l hl
  · exact ⟨hu, hv⟩
  · exact ⟨hv, hu⟩

section

variable {P : State → Prop} (hForget : ∀ s v, P s → P (s.forget v))
include hForget

/-- What is kept when one variable is forgotten is kept when all that it qualifies is as well. -/
theorem flushVariable_of_forget (hs : P s) : P (s.flushVariable a v) :=
  List.foldlRecOn _ _ (hForget s v hs) fun t ht m _ => hForget t m ht

theorem flushDependents_of_forget (hs : P s) : P (s.flushDependents a v) :=
  List.foldlRecOn _ _ hs fun _ ht _ _ => flushVariable_of_forget hForget ht

theorem flushFields_of_forget (hs : P s) : P (s.flushFields a) := by
  refine List.foldlRecOn _ _ hs fun t ht m _ => ?_
  split
  · exact hForget t m ht
  · exact ht

end

/-- A property of facts that is kept by what the analysis does with them. -/
structure Closed (Q : Fact → Prop) : Prop where
  plain        : ∀ {f}, f.info? = none → Q f
  meet         : ∀ {f g}, Q f → Q g → Q (f.meet g)
  narrow       : ∀ {f g rel}, Q f → Q g → Q (f.narrow rel g)
  dropLocality : ∀ {f}, Q f → Q f.dropLocality

/-- **A property of states that the basic operations keep**: a fact is stored, variables are
related, and a variable is forgotten. Something is known of all facts on the way. -/
structure Invariant (a : Arena) (P : State → Prop) (Q : Fact → Prop) : Prop where
  closed   : Closed Q
  declared : ∀ v, Q (a.inherent v)
  fact     : ∀ {s v}, P s → Q (s.fact a v)
  store    : ∀ {s v f}, Q f → P s → P (s.setFact a v f)
  link     : ∀ {s u rel v}, a.isVariable u = true → a.isVariable v = true → P s →
    P (s.addLink u rel v)
  forget   : ∀ {s v}, P s → P (s.forget v)

namespace Invariant

variable {P : State → Prop} {Q : Fact → Prop} (h : Invariant a P Q)
include h

theorem meetFacts (hf : Q f) (vs : List ValueId) (hs : P s) :
    P (State.meetFacts a f vs s).state := by
  induction vs generalizing s with
  | nil => exact hs
  | cons v vs ih =>
    rw [State.meetFacts]
    split
    · exact hs
    · exact ih (h.store (h.closed.meet (h.fact hs) hf) hs)

theorem meetFact (hf : Q f) (hs : P s) : P (s.meetFact a v f).state := by
  unfold State.meetFact
  split
  · exact h.meetFacts hf _ hs
  · exact hs

theorem applyOpen (hs : P s) : P (s.applyOpen a u rel v).state := by
  have hLeft : P (s.meetFact a u ((s.fact a u).narrow rel (s.fact a v))).state :=
    h.meetFact (h.closed.narrow (h.fact hs) (h.fact hs)) hs
  -- the relation is recorded between variables only
  have hRecorded : ∀ {n : Narrowing}, P n.state →
      P (if (n.feasible && (a.isVariable u && a.isVariable v && !rel.isTypeTest)) = true then
        (⟨true, n.state.addLink u rel v⟩ : Narrowing) else n).state := by
    intro n hn
    split
    · rename_i hLinked
      simp only [Bool.and_eq_true] at hLinked
      exact h.link hLinked.2.1.1 hLinked.2.1.2 hn
    · exact hn
  unfold State.applyOpen
  dsimp only
  split
  · exact hs
  · split
    · exact hLeft
    · split
      · exact hRecorded (h.meetFact (h.closed.narrow (h.fact hs) (h.fact hLeft)) hLeft)
      · exact hRecorded hLeft

/-- **Assuming a condition** keeps an invariant, whether the condition can hold or not. -/
theorem apply (hs : P s) (c : Condition) : P (s.apply a c).state := by
  cases c with
  | always | never => exact hs
  | relation u rel v =>
    show P (s.applyRelation a u rel v).state
    unfold applyRelation
    dsimp only
    split
    · exact hs
    · split
      · exact hs
      · split
        · unfold applySelf
          split
          · split
            · exact h.meetFact (h.closed.plain rfl) hs
            · exact hs
            · exact hs
            · exact hs
          · exact hs
        · split
          · exact hs
          · exact h.applyOpen hs

theorem flushVariable (hs : P s) : P (s.flushVariable a v) :=
  flushVariable_of_forget (fun _ _ => h.forget) hs

theorem flushDependents (hs : P s) : P (s.flushDependents a v) :=
  flushDependents_of_forget (fun _ _ => h.forget) hs

theorem flushFields (hs : P s) : P (s.flushFields a) :=
  flushFields_of_forget (fun _ _ => h.forget) hs

/-- **Assigning to a variable** keeps an invariant. -/
theorem assign (hs : P s) (hv : a.isVariable v = true) : P (s.assign a v u) := by
  have hSource : Q (s.fact a u) := h.fact hs
  unfold State.assign
  split
  · exact hs
  · have hMerged : P ((s.flushVariable a v).setFact a v
        (if ((a.inherent v).meet (s.fact a u)).isBottom then s.fact a u
          else (a.inherent v).meet (s.fact a u))) := by
      split
      · exact h.store hSource (h.flushVariable hs)
      · exact h.store (h.closed.meet (h.declared v) hSource) (h.flushVariable hs)
    dsimp only
    split
    · rename_i hu
      exact h.link hv hu hMerged
    · exact hMerged

theorem dropVariableLocality (hs : P s) : P (s.dropVariableLocality a v) := by
  unfold State.dropVariableLocality
  dsimp only
  split
  · exact h.store (h.closed.dropLocality (h.fact hs)) hs
  · exact hs

/-- A value that escapes loses its locality, or is put into the arena anew. -/
theorem dropLocality (hs : P s) :
    ((s.dropLocality a v).2.2 = a ∧ P (s.dropLocality a v).1) ∨
      ∃ x, Q x.inherent ∧ (∀ y, x ≠ .var y) ∧ (s.dropLocality a v).2.2 = (a.intern x).2 ∧
        (s.dropLocality a v).1 = s := by
  have hDeclared := h.declared v
  rw [Arena.inherent] at hDeclared
  unfold State.dropLocality
  cases hv : a.get v with
  | var x =>
    exact Or.inl ⟨rfl, List.foldlRecOn _ _ hs fun _ ht _ _ => h.dropVariableLocality ht⟩
  | typed f =>
    rw [hv] at hDeclared
    dsimp only
    split
    · exact Or.inr ⟨.typed f.dropLocality, h.closed.dropLocality hDeclared, by simp, rfl, rfl⟩
    · exact Or.inl ⟨rfl, hs⟩
  | wrapped l inner f =>
    rw [hv] at hDeclared
    dsimp only
    split
    · exact Or.inr ⟨.wrapped l inner f.dropLocality, h.closed.dropLocality hDeclared, by simp, rfl,
        rfl⟩
    · exact Or.inl ⟨rfl, hs⟩
  | unknown => exact Or.inl ⟨rfl, hs⟩

end Invariant

theorem stored_forget : (s.forget v).stored u = if u = v then .top else s.stored u := by
  rw [stored, State.forget, OrdMap.get?_erase, stored]
  split
  · rename_i hEq
    rw [if_pos hEq.symm]
    rfl
  · rename_i hNe
    rw [if_neg fun h => hNe h.symm]

theorem coherent_forget (hs : s.Coherent H a) : (s.forget v).Coherent H a := by
  refine ⟨?_, fun l hl => hs.linked l (OrdSet.mem_filter.mp hl).1⟩
  intro u f hu
  simp only [State.forget, OrdMap.get?_erase] at hu
  split at hu
  · cases hu
  · exact hs.declared hu

/-- **Coherence is an invariant**: facts on declared types are all that is made of such facts. -/
theorem coherent_invariant (ha : a.Coherent H) : Invariant a (Coherent H a) (Fact.Over H) where
  closed := ⟨Fact.over_of_info, Fact.over_meet, Fact.over_narrow, Fact.over_dropLocality⟩
  declared := ha.declared
  fact := over_fact ha
  store hf hs := coherent_setFact hs hf
  link hu hv hs := coherent_addLink hs hu hv
  forget := coherent_forget

end

/-- **The arenas and states that there can be**: those that come from a new arena and the
initial state by operations on facts that name declared types. -/
inductive Reached (H : Hierarchy) : Arena → State → Prop where
  | start : Reached H .new .initial
  | intern {a s} (x : Value) : Reached H a s → a.Admits H x → Reached H (a.intern x).2 s
  /-- What is neither stored nor linked may change, such as the stack. -/
  | same {a s t} : Reached H a s → t.facts = s.facts → t.links = s.links → Reached H a t
  | store {a s} (v : ValueId) (f : Fact) : Reached H a s → f.Over H →
      Reached H a (s.setFact a v f)
  | meet {a s} (v : ValueId) (f : Fact) : Reached H a s → f.Over H →
      Reached H a (s.meetFact a v f).state
  | apply {a s} (c : Condition) : Reached H a s → Reached H a (s.apply a c).state
  | assign {a s} (v u : ValueId) : Reached H a s → a.isVariable v = true →
      Reached H a (s.assign a v u)
  | flushVariable {a s} (v : ValueId) : Reached H a s → Reached H a (s.flushVariable a v)
  | flushDependents {a s} (v : ValueId) : Reached H a s → Reached H a (s.flushDependents a v)
  | flushFields {a s} : Reached H a s → Reached H a (s.flushFields a)
  | dropLocality {a s} (v : ValueId) : Reached H a s →
      Reached H (s.dropLocality a v).2.2 (s.dropLocality a v).1

/-- **What there can be is coherent.** The induction is on the operations. -/
theorem Reached.coherent {H : Hierarchy} {a : Arena} {s : State} (h : Reached H a s) :
    a.Coherent H ∧ s.Coherent H a := by
  induction h with
  | start => exact ⟨Arena.coherent_new, coherent_initial⟩
  | intern x _ hx ih => exact ⟨Arena.coherent_intern ih.1 hx, coherent_intern ih.2⟩
  | same _ hFacts hLinks ih =>
    refine ⟨ih.1, ⟨?_, ?_⟩⟩
    · rw [hFacts]
      exact ih.2.declared
    · rw [hLinks]
      exact ih.2.linked
  | store v f _ hf ih => exact ⟨ih.1, coherent_setFact ih.2 hf⟩
  | meet v f _ hf ih => exact ⟨ih.1, (coherent_invariant ih.1).meetFact hf ih.2⟩
  | apply c _ ih => exact ⟨ih.1, (coherent_invariant ih.1).apply ih.2 c⟩
  | assign v u _ hv ih => exact ⟨ih.1, (coherent_invariant ih.1).assign ih.2 hv⟩
  | flushVariable v _ ih => exact ⟨ih.1, (coherent_invariant ih.1).flushVariable ih.2⟩
  | flushDependents v _ ih => exact ⟨ih.1, (coherent_invariant ih.1).flushDependents ih.2⟩
  | flushFields _ ih => exact ⟨ih.1, (coherent_invariant ih.1).flushFields ih.2⟩
  | @dropLocality a s v _ ih =>
    rcases (coherent_invariant ih.1).dropLocality (v := v) ih.2 with
      ⟨hArena, hState⟩ | ⟨x, hx, hVar, hArena, hState⟩
    · rw [hArena]
      exact ⟨ih.1, hState⟩
    · rw [hArena, hState]
      exact ⟨Arena.coherent_intern ih.1 ⟨hx, fun h => absurd h (hVar _)⟩, coherent_intern ih.2⟩

end State

end Pathwise
