import Pathwise.Proofs.Canonical
import Pathwise.Proofs.Overrides

/-!
# What is still local

An object is known to be local until it escapes. When a variable escapes, the locality is taken
off its fact and off those of all that it qualifies, and the fact without it is stored.

Two things are left. What is stored is met with the declaration when it is read, so what is
declared to be local is so for good, unless it is null (`Fact.isLocal_meet_iff`). And only the
variables that are owned are looked at: one that is known to be equal to them refers to the same
object, and is as local as before. Narrowing, in contrast, goes through all values known to be
equal.

## Results

* `State.isLocal_dropLocality`   — what is local after a variable has escaped.
* `Step.yields_escape_escaped`   — what is local after several values have escaped.
* `Step.locality_after_escape`   — both, for the operation and the instruction.
* `Step.escaped_stay_local`      — what equals an object that has escaped, and what is declared to
  be local, stay so.
-/

namespace Pathwise

-- ---------------------------------------------------------------------------
-- Facts
-- ---------------------------------------------------------------------------

namespace Fact

variable {f g : Fact} {r s : RefInfo} {al al' sl sl' : Option Fact}

theorem isLocal_dropLocality : f.dropLocality.isLocal = false := by cases f <;> rfl

theorem Integral.isLocal (h : f.Integral) : f.isLocal = false := by
  rw [Fact.isLocal, h.info]
  rfl

/-- **What is local after a meet** of references: one side says so, neither is null, and they do
not contradict each other. -/
theorem isLocal_meet_iff : ((ref r al sl).meet (ref s al' sl')).isLocal = true ↔
    (r.isLocal = true ∨ s.isLocal = true) ∧ r.nullness ≠ .null ∧ s.nullness ≠ .null ∧
      ((ref r al sl).meet (ref s al' sl')).isBottom = false := by
  by_cases hBottom : (ref r al sl).meet (ref s al' sl') = bottom
  · rw [hBottom]
    exact iff_of_false nofun fun h => by cases h.2.2.2
  obtain ⟨t, hrs, hEq⟩ := meet_ref_cases hBottom
  obtain ⟨n, l, hNullness, -, hRest⟩ := RefInfo.meet?_eq_some.mp hrs
  rcases hEq with ⟨ht, hEq⟩ | ⟨ht, hEq⟩
  · -- null is nowhere
    rw [hEq]
    refine iff_of_false nofun fun ⟨_, hr, hs, _⟩ => ?_
    rcases hRest with ⟨rfl, -, -⟩ | ⟨hn, _, _, -, -, rfl⟩
    · exact (Nullness.meet?_eq_some_null hNullness).2.2.elim hr hs
    · exact hn ht
  · rw [hEq]
    rcases hRest with ⟨-, -, rfl⟩ | ⟨hn, _, _, -, -, rfl⟩
    · exact absurd rfl ht
    · obtain ⟨hr, hs, -⟩ := Nullness.meet?_eq_some hNullness hn
      show (r.isLocal || s.isLocal) = true ↔ _
      rw [Bool.or_eq_true]
      exact (and_iff_left ⟨hr, hs, rfl⟩).symm

/-- What is met with a reference that is not known to be local is local by the other side. -/
theorem isLocal_meet_dropLocality (hg : g = ref s al' sl') :
    (f.meet g.dropLocality).isLocal = true ↔ f.isLocal = true ∧ f.isNull = false ∧
      g.isNull = false ∧ (f.meet g.dropLocality).isBottom = false := by
  subst hg
  have hNull : ∀ {i : RefInfo} {bl tl}, (ref i bl tl).isNull = false ↔ i.nullness ≠ .null :=
    beq_eq_false_iff_ne
  cases f with
  | ref r al sl =>
    rw [dropLocality, isLocal_meet_iff, hNull, hNull]
    exact and_congr_left fun _ => or_iff_left Bool.false_ne_true
  | top => exact iff_of_false Bool.false_ne_true fun h => Bool.false_ne_true h.1
  | _ => exact iff_of_false Bool.false_ne_true fun h => Bool.false_ne_true h.1

end Fact

-- ---------------------------------------------------------------------------
-- Arenas
-- ---------------------------------------------------------------------------

namespace Arena

variable {a b : Arena} {s : State} {v m : ValueId}

/-- Values that are no variables are owned by nothing, so those that are new change nothing. -/
theorem Grows.owns (h : a.Grows b) (hBack : a.Backward) : b.Owns v m ↔ a.Owns v m := by
  refine or_congr_right ?_
  by_cases hm : m < a.size
  · exact h.part.mem_dependents hBack hm
  · refine iff_of_false (fun hMem => ?_) fun hMem => ?_
    · exact hm (h.lt_size (mem_dependents.mp hMem).1)
    · exact hm (lt_of_isVariable (mem_dependents.mp hMem).1)

/-- A value and all that it qualifies are listed once. -/
theorem nodup_owned (hBack : a.Backward) : (v :: a.dependents v).Nodup := by
  refine List.nodup_cons.mpr ⟨?_, (List.nodup_range.filter _).filter _⟩
  exact not_mem_dependents_of_le hBack (Nat.le_refl v)

end Arena

-- ---------------------------------------------------------------------------
-- One variable
-- ---------------------------------------------------------------------------

namespace State

variable {a : Arena} {s t : State} {f : Fact} {u v m : ValueId} {i : Variable}

theorem isLocal_of_lengthOf {l : Length} {q : ValueId} (hBack : a.Backward)
    (h : a.LengthOf l q m) : (s.fact a m).isLocal = false :=
  (hBack.integral_fact h).isLocal

/-- What escapes is stored for that variable only. -/
theorem stored_dropVariableLocality_of_ne (hNe : m ≠ v) :
    (s.dropVariableLocality a v).stored m = s.stored m := by
  unfold dropVariableLocality
  dsimp only
  split
  · exact stored_setFact_of_ne hNe
  · rfl

theorem stored_foldl_drop_of_not_mem {vs : List ValueId} (hm : m ∉ vs) :
    (vs.foldl (dropVariableLocality a) s).stored m = s.stored m := by
  refine List.foldlRecOn _ _ (motive := fun t : State => t.stored m = s.stored m) rfl
    fun t ht u hu => ?_
  have hNe : m ≠ u := fun hEq => hm (hEq ▸ hu)
  rw [stored_dropVariableLocality_of_ne hNe, ht]

/-- What a variable does not own does not escape with it, and with any other value nothing does. -/
theorem stored_dropLocality_of_not_owns (h : a.isVariable v = true → ¬ a.Owns v m) :
    (s.dropLocality a v).1.stored m = s.stored m := by
  unfold dropLocality
  split
  case h_1 i hi =>
    have hFree : ¬ a.Owns v m := h (Arena.isVariable_iff.mpr ⟨i, hi⟩)
    exact stored_foldl_drop_of_not_mem fun hMem => hFree (List.mem_cons.mp hMem)
  all_goals rfl

/-- The fact of a variable that is no length depends on what is stored for it. -/
theorem fact_congr_of_stored (hBack : a.Backward) (hNone : ∀ l q, ¬ a.LengthOf l q m)
    (hStored : t.stored m = s.stored m) : t.fact a m = s.fact a m := by
  refine fact_congr_stored (P := (· = m)) hBack ?_ ?_ rfl
  · rintro _ rfl
    exact hStored
  · rintro l q _ hLength rfl
    exact absurd hLength (hNone l q)

/-- What is stored for a variable that escapes, by what is known of it. -/
theorem stored_dropVariableLocality_self (hVariable : a.isVariable v = true)
    (hFact : t.fact a v = s.fact a v) (hStored : t.stored v = s.stored v) :
    (t.dropVariableLocality a v).stored v = (s.dropVariableLocality a v).stored v := by
  unfold dropVariableLocality
  dsimp only
  rw [hFact]
  split
  · rw [stored_setFact hVariable, stored_setFact hVariable]
  · exact hStored

/-- **A variable that escapes** stays local exactly if it is declared to be local, and neither
null nor a contradiction. -/
theorem isLocal_dropVariableLocality (hBack : a.Backward) (hVariable : a.isVariable v = true) :
    ((s.dropVariableLocality a v).fact a v).isLocal = true ↔ (s.fact a v).isLocal = true ∧
      (a.inherent v).isLocal = true ∧ (s.fact a v).isNull = false ∧
      ((s.dropVariableLocality a v).fact a v).isBottom = false := by
  unfold dropVariableLocality
  dsimp only
  split
  case isFalse hNot => exact iff_of_false hNot fun h => hNot h.1
  case isTrue hLocal =>
  rw [and_iff_right hLocal]
  obtain ⟨r, al, sl, hRef⟩ := Fact.exists_ref_of_isLocal hLocal
  obtain ⟨i, hi⟩ := Arena.isVariable_iff.mp hVariable
  rw [hBack.fact_setFact_self hi, stored_setFact hVariable, derived_of_isLocal hBack hi hLocal]
  split
  · -- the declaration says the same as what is to be stored, so it is not local
    rename_i hSaid
    have hDropped : (a.inherent v).isLocal = false := hSaid ▸ Fact.isLocal_dropLocality
    rw [Fact.meet_top, hDropped]
    exact iff_of_false Bool.false_ne_true fun h => Bool.false_ne_true h.1
  · rw [Fact.isLocal_meet_dropLocality hRef]
    refine and_congr_right fun _ => and_iff_right_of_imp fun ⟨hNull, _⟩ => ?_
    -- where null is declared, null is what is known
    rw [hBack.fact_var hi, derived_of_isLocal hBack hi hLocal] at hNull hRef
    refine Bool.eq_false_iff.mpr fun hDeclared => ?_
    rw [Fact.isNull_meet hDeclared (by rw [hRef]; rfl)] at hNull
    cases hNull

-- ---------------------------------------------------------------------------
-- A value with all that it qualifies
-- ---------------------------------------------------------------------------

/-- Of several variables that escape each one does so by itself. -/
theorem stored_foldl_dropVariableLocality (hBack : a.Backward) (vs : List ValueId)
    (hNodup : vs.Nodup) (hVariables : ∀ v ∈ vs, a.isVariable v = true)
    (hNone : ∀ l q, ¬ a.LengthOf l q m) :
    (vs.foldl (dropVariableLocality a) s).stored m =
      if m ∈ vs then (s.dropVariableLocality a m).stored m else s.stored m := by
  induction vs generalizing s with
  | nil => rfl
  | cons v vs ih =>
    obtain ⟨hNew, hNodup⟩ := List.nodup_cons.mp hNodup
    obtain ⟨hv, hVariables⟩ := List.forall_mem_cons.mp hVariables
    rw [List.foldl_cons, ih hNodup hVariables]
    by_cases hSame : m = v
    · subst hSame
      rw [if_neg hNew, if_pos List.mem_cons_self]
    · have hStored := stored_dropVariableLocality_of_ne (a := a) (s := s) hSame
      by_cases hMem : m ∈ vs
      · rw [if_pos hMem, if_pos (List.mem_cons_of_mem _ hMem)]
        exact stored_dropVariableLocality_self (hVariables m hMem)
          (fact_congr_of_stored hBack hNone hStored) hStored
      · rw [if_neg hMem, if_neg (by simp [hSame, hMem]), hStored]

/-- **What is local after a variable has escaped**: what was before, and of the variable itself and
all it qualifies only what is declared to be local. -/
theorem isLocal_dropLocality (hBack : a.Backward) (hVariable : a.isVariable v = true) :
    ((s.dropLocality a v).1.fact a m).isLocal = true ↔ (s.fact a m).isLocal = true ∧
      (a.Owns v m → (a.inherent m).isLocal = true ∧ (s.fact a m).isNull = false ∧
        ((s.dropLocality a v).1.fact a m).isBottom = false) := by
  by_cases hLength : ∃ l q, a.LengthOf l q m
  · obtain ⟨l, q, hLength⟩ := hLength
    rw [isLocal_of_lengthOf hBack hLength, isLocal_of_lengthOf hBack hLength]
    exact iff_of_false Bool.false_ne_true fun h => Bool.false_ne_true h.1
  have hNone : ∀ l q, ¬ a.LengthOf l q m := fun l q h => hLength ⟨l, q, h⟩
  have hDropped : (s.dropLocality a v).1 =
      (v :: a.dependents v).foldl (dropVariableLocality a) s := by
    obtain ⟨i, hi⟩ := Arena.isVariable_iff.mp hVariable
    rw [dropLocality, hi]
  have hOwned : ∀ u ∈ v :: a.dependents v, a.isVariable u = true :=
    List.forall_mem_cons.mpr ⟨hVariable, fun u hu => (Arena.mem_dependents.mp hu).1⟩
  have hStored := stored_foldl_dropVariableLocality (s := s) hBack (v :: a.dependents v)
    (Arena.nodup_owned hBack) hOwned hNone
  rw [← hDropped] at hStored
  by_cases hOwns : a.Owns v m
  · have hMem : m ∈ v :: a.dependents v := List.mem_cons.mpr hOwns
    rw [if_pos hMem] at hStored
    rw [fact_congr_of_stored hBack hNone hStored,
      isLocal_dropVariableLocality hBack (hOwned m hMem)]
    exact and_congr_right fun _ => (imp_iff_right hOwns).symm
  · rw [if_neg fun hMem => hOwns (List.mem_cons.mp hMem)] at hStored
    rw [fact_congr_of_stored hBack hNone hStored]
    exact (and_iff_left fun h => absurd h hOwns).symm

end State

-- ---------------------------------------------------------------------------
-- Several values
-- ---------------------------------------------------------------------------

/-- **What is left local when values have escaped**: nothing that was not, of what the values own
only what is declared to be, and everything else. -/
structure Escaped (vs : List ValueId) (a : Arena) (s : State) (b : Arena) (t : State) : Prop where
  grows : a.Grows b
  backward : b.Backward
  before : ∀ m, m < a.size → (t.fact b m).isLocal = true → (s.fact a m).isLocal = true
  declared : ∀ m, m < a.size → (t.fact b m).isLocal = true →
    ∀ v ∈ vs, a.isVariable v = true → a.Owns v m → (a.inherent m).isLocal = true
  others : ∀ m, m < a.size → (s.fact a m).isLocal = true →
    (∀ v ∈ vs, a.isVariable v = true → ¬ a.Owns v m) → (t.fact b m).isLocal = true

namespace Escaped

variable {a b c : Arena} {s t u : State} {v : ValueId} {vs : List ValueId}

theorem nil (hBack : a.Backward) : Escaped [] a s a s where
  grows := .refl a
  backward := hBack
  before := fun _ _ h => h
  declared := fun _ _ _ _ hv => absurd hv List.not_mem_nil
  others := fun _ _ h _ => h

/-- One value escapes. -/
theorem one (hBack : a.Backward) :
    Escaped [v] a s (s.dropLocality a v).2.2 (s.dropLocality a v).1 := by
  have hGrows : a.Grows (s.dropLocality a v).2.2 := Arena.grows_dropLocality
  cases hVariable : a.isVariable v with
  | true =>
    have hArena : (s.dropLocality a v).2.2 = a := by
      obtain ⟨i, hi⟩ := Arena.isVariable_iff.mp hVariable
      rw [State.dropLocality, hi]
    rw [hArena]
    have hLocal : ∀ m, _ := fun m => State.isLocal_dropLocality (s := s) (m := m) hBack hVariable
    refine ⟨.refl a, hBack, fun m _ h => ((hLocal m).mp h).1, ?_, ?_⟩
    · intro m _ h v' hv' _ hOwns
      rw [List.mem_singleton.mp hv'] at hOwns
      exact (((hLocal m).mp h).2 hOwns).1
    · intro m _ h hFree
      exact (hLocal m).mpr ⟨h, fun hOwns =>
        absurd hOwns (hFree v (List.mem_singleton_self v) hVariable)⟩
  | false =>
    -- a value that is no variable is replaced, and the state stays
    have hState : (s.dropLocality a v).1 = s := by
      unfold State.dropLocality
      split
      · rename_i i hi
        rw [Arena.isVariable_iff.mpr ⟨i, hi⟩] at hVariable
        cases hVariable
      all_goals rfl
    rw [hState]
    have hFact : ∀ m, m < a.size → s.fact (s.dropLocality a v).2.2 m = s.fact a m := fun m hm =>
      hBack.fact_part hGrows.part hm
    refine ⟨hGrows, hBack.dropLocality, fun m hm h => hFact m hm ▸ h, ?_,
      fun m hm h _ => (hFact m hm).symm ▸ h⟩
    intro m _ _ v' hv' hVariable'
    rw [List.mem_singleton.mp hv', hVariable] at hVariable'
    cases hVariable'

/-- One value after the other. -/
theorem cons (h : Escaped [v] a s b t) (hBack : a.Backward) (h' : Escaped vs b t c u) :
    Escaped (v :: vs) a s c u := by
  have hOwns : ∀ {v m}, b.Owns v m ↔ a.Owns v m := h.grows.owns hBack
  have hInside : ∀ {m}, m < a.size → m < b.size := fun hm => Nat.lt_of_lt_of_le hm h.grows.size
  refine ⟨h.grows.trans h'.grows, h'.backward, ?_, ?_, ?_⟩
  · exact fun m hm hLocal => h.before m hm (h'.before m (hInside hm) hLocal)
  · intro m hm hLocal v' hv' hVariable hOwned
    rcases List.mem_cons.mp hv' with rfl | hv'
    · exact h.declared m hm (h'.before m (hInside hm) hLocal) _ (List.mem_singleton_self _)
        hVariable hOwned
    · rw [← h.grows.inherent hm]
      exact h'.declared m (hInside hm) hLocal v' hv' (h.grows.isVariable.trans hVariable)
        (hOwns.mpr hOwned)
  · intro m hm hLocal hFree
    refine h'.others m (hInside hm) (h.others m hm hLocal ?_) ?_
    · intro v' hv'
      rw [List.mem_singleton.mp hv']
      exact hFree v List.mem_cons_self
    · intro v' hv' hVariable hOwned
      exact hFree v' (List.mem_cons_of_mem _ hv') (h.grows.isVariable.symm.trans hVariable)
        (hOwns.mp hOwned)

end Escaped

namespace Step

variable {σ : Session} {ctx : Context} {s : State} {index : Nat} {v m : ValueId}

theorem yields_escape_escaped (hBack : σ.arena.Backward) (vs : List ValueId) :
    Yields (escape vs s) σ fun t τ => Escaped vs σ.arena s τ.arena t := by
  induction vs generalizing s σ with
  | nil => exact yields_pure.mpr (.nil hBack)
  | cons v vs ih =>
    rw [escape, yields_bind, yields_dropLocality]
    have hOne : Escaped [v] σ.arena s _ _ := .one hBack
    exact (ih (σ := { σ with arena := (s.dropLocality σ.arena v).2.2 }) hOne.backward).mono
      fun t τ h => hOne.cons hBack h

/-- **What is local after an escape.** When a variable escapes it stays local with all it qualifies
as far as they are declared to be, and everything else is as local as before. An instruction for
several values goes on with one state, where the same holds of all of them. -/
theorem locality_after_escape (hBack : σ.arena.Backward) :
    (∀ v m, σ.arena.isVariable v = true →
      (((s.dropLocality σ.arena v).1.fact σ.arena m).isLocal = true ↔
        (s.fact σ.arena m).isLocal = true ∧
          (σ.arena.Owns v m → (σ.arena.inherent m).isLocal = true ∧
            (s.fact σ.arena m).isNull = false ∧
            ((s.dropLocality σ.arena v).1.fact σ.arena m).isBottom = false))) ∧
      ∀ vs, Yields (perform ctx index s (.escape vs)) σ fun items τ =>
        ∃ t, items = [next index t] ∧ Escaped vs σ.arena s τ.arena t := by
  refine ⟨fun v m => State.isLocal_dropLocality hBack, fun vs => ?_⟩
  refine (yields_escape_escaped hBack vs).bind fun t τ h => ?_
  exact yields_pure.mpr ⟨t, rfl, h⟩

-- ---------------------------------------------------------------------------
-- Objects that stay local
-- ---------------------------------------------------------------------------

/-- Two variables, a field of the second one, a variable that is declared to be local, and an
object that was made here. -/
def objects : Arena :=
  let first := (Arena.new.var (.localVar "x" false) none .unknownRef).2
  let second := (first.var (.localVar "y" false) none .unknownRef).2
  let read := (second.var (.field "f" false false false) (some 2) .unknownRef).2
  let declared := (read.var (.localVar "z" false) none .localObject).2
  (declared.typed .localObject).2

theorem arises_objects : State.Arises objects .initial := by
  have hFirst := State.Arises.start.move
    (.ask (r := .var (.localVar "x" false) none .unknownRef) ⟨nofun, rfl⟩)
  have hSecond := hFirst.move
    (.ask (r := .var (.localVar "y" false) none .unknownRef) ⟨nofun, rfl⟩)
  have hRead := hSecond.move
    (.ask (r := .var (.field "f" false false false) (some 2) .unknownRef) ⟨by decide +kernel, rfl⟩)
  have hDeclared := hRead.move
    (.ask (r := .var (.localVar "z" false) none .localObject) ⟨nofun, rfl⟩)
  exact hDeclared.move (.ask (r := .typed .localObject) ⟨nofun, rfl⟩)

/-- The object is in both variables and in the field. -/
def shared : State :=
  (((State.initial.assign objects 1 5).assign objects 2 1).assign objects 3 5)

theorem evaluated_shared :
    objects.allVars = [1, 2, 3, 4] ∧ objects.dependents 2 = [3] ∧
      (objects.inherent 2).isLocal = false ∧ (objects.inherent 3).isLocal = false ∧
      shared.links.toList = [⟨1, .eq, 2⟩] ∧
      [1, 2, 3, 4].map (fun v => (shared.fact objects v).isLocal) = [true, true, true, true] := by
  decide +kernel

/-- The second variable escapes with its field. -/
theorem locality_after_escape_shared :
    ((shared.dropLocality objects 2).1.fact objects 2).isLocal = false ∧
      Yields (perform usualContext 0 shared (.escape [2])) (.start objects) fun items τ =>
        ∃ t, items = [next 0 t] ∧ (t.fact τ.arena 3).isLocal = false := by
  obtain ⟨hVars, hOwned, hSecond, hField, -, -⟩ := evaluated_shared
  have hVariable : objects.isVariable 2 = true := Arena.mem_allVars.mp (hVars ▸ by decide)
  obtain ⟨hOne, hAll⟩ := @locality_after_escape (.start objects) usualContext shared 0
    arises_objects.ordered.backward
  constructor
  · refine Bool.eq_false_iff.mpr fun hLocal => ?_
    have hDeclared := (((hOne 2 2 hVariable).mp hLocal).2 (Or.inl rfl)).1
    exact Bool.false_ne_true (hSecond.symm.trans hDeclared)
  · refine (hAll [2]).mono ?_
    rintro items τ ⟨t, hItems, hEscaped⟩
    refine ⟨t, hItems, Bool.eq_false_iff.mpr fun hLocal => ?_⟩
    have hInside : 3 < objects.size :=
      Arena.lt_of_isVariable (Arena.mem_allVars.mp (hVars ▸ by decide))
    have hDeclared := hEscaped.declared 3 hInside hLocal 2 (List.mem_singleton_self 2) hVariable
      (Or.inr (hOwned ▸ List.mem_singleton_self 3))
    exact Bool.false_ne_true (hField.symm.trans hDeclared)

/-- **Objects that have escaped are still local**: the second variable escapes, and what is known to
be equal to it is local; a variable escapes that is declared to be local, and it is. -/
theorem escaped_stay_local :
    State.Arises objects shared ∧ ⟨1, .eq, 2⟩ ∈ shared.links ∧
      ((shared.dropLocality objects 2).1.fact objects 1).isLocal = true ∧
      ((shared.dropLocality objects 4).1.fact objects 4).isLocal = true := by
  obtain ⟨hVars, -, -, -, hLinks, -⟩ := evaluated_shared
  have hVariable : ∀ v ∈ [1, 2, 3, 4], objects.isVariable v = true := fun v hv =>
    Arena.mem_allVars.mp (hVars ▸ hv)
  refine ⟨?_, ?_, by decide +kernel⟩
  · exact ((arises_objects.move (.assign 1 5 (hVariable 1 (by decide)))).move
      (.assign 2 1 (hVariable 2 (by decide)))).move (.assign 3 5 (hVariable 3 (by decide)))
  · show _ ∈ shared.links.toList
    rw [hLinks]
    exact List.mem_singleton_self _

end Step

end Pathwise
