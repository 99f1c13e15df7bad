import Pathwise.Proofs.Destinations

/-!
# Elements of an array

A write into an array at an index that is not known may change any element of it. So all elements
that are known of are forgotten then, with what they qualify, and with whatever else of the array
a call may change (`Arena.Exposed`).

Whether the index is known is told by the destination: an element is a variable. What stands for
an element at an unknown index should be none, but nothing forbids a variable there. If the
destination is a variable, whichever it is, only what it owns is forgotten, and all that is known
of other elements is known still.

## Results

* `Arena.ElementOf.exposed`     — the elements of an array are forgotten.
* `Step.forgets_flushElements`  — exactly what is exposed is forgotten.
* `State.SameOutside`           — what stays as it was.
* `Step.slots_after_assign`     — **what a write into an array leaves of its elements.**
* `Step.elements_stay_known`    — a local variable is written in the place of an element, and the
  elements are not forgotten.
-/

namespace Pathwise

-- ---------------------------------------------------------------------------
-- Elements
-- ---------------------------------------------------------------------------

namespace Arena

variable {a : Arena} {u v m : ValueId}

/-- The variable is an element of an array, at an index that is known. -/
def ElementOf (a : Arena) (v m : ValueId) : Prop :=
  ∃ i x, a.get m = .var x ∧ x.descriptor = .element i ∧ x.qualifier = some v

/-- What a write into an array may change: what it qualifies and a call may change. -/
def Exposed (a : Arena) (v m : ValueId) : Prop :=
  m ∈ a.dependents v ∧ a.isCallFlushable m = true

/-- What an exposed variable qualifies is exposed, a final field as well. -/
theorem Exposed.owned (hBack : a.Backward) (h : a.Exposed v u) (hm : a.Owns u m) :
    a.Exposed v m := by
  rcases hm with rfl | hm
  · exact h
  · obtain ⟨hDependent, hFlushable⟩ := h
    obtain ⟨-, hAbove⟩ := mem_dependents.mp hm
    refine ⟨mem_dependents_of_mem_qualifiers hBack hAbove hDependent, ?_⟩
    rw [isCallFlushable, List.any_eq_true] at hFlushable ⊢
    obtain ⟨q, hq, hMayChange⟩ := hFlushable
    refine ⟨q, List.mem_cons_of_mem _ ?_, hMayChange⟩
    rcases List.mem_cons.mp hq with rfl | hq
    · exact hAbove
    · exact mem_qualifiers_trans hBack hAbove hq

/-- **An element of an array is exposed.** -/
theorem ElementOf.exposed (hBack : a.Backward) (h : a.ElementOf v m) : a.Exposed v m := by
  obtain ⟨i, x, hm, hElement, hArray⟩ := h
  have hQualifier : a.qualifier? m = some v := qualifier?_eq_some.mpr ⟨x, hm, hArray⟩
  constructor
  · refine mem_dependents.mpr ⟨isVariable_iff.mpr ⟨x, hm⟩, ?_⟩
    exact (mem_qualifiers_iff hBack).mpr (.single hQualifier)
  · rw [isCallFlushable, List.any_eq_true]
    refine ⟨m, List.mem_cons_self, ?_⟩
    rw [varAt?, hm, Option.any_some, hElement]
    rfl

end Arena

-- ---------------------------------------------------------------------------
-- What stays
-- ---------------------------------------------------------------------------

namespace State

variable {a b : Arena} {r s t : State} {u v m : ValueId} {D E K : ValueId → Prop}

/-- **What stays as it was**: what is stored for a variable, unless it is in `K`, or forgotten by
`D`; and a relation, unless a side of it is forgotten. -/
structure SameOutside (K D : ValueId → Prop) (s t : State) : Prop where
  stored : ∀ {m}, ¬ K m → ¬ D m → t.stored m = s.stored m
  links  : ∀ {l}, ¬ D l.left → ¬ D l.right → (l ∈ t.links ↔ l ∈ s.links)

namespace SameOutside

theorem refl (s : State) : SameOutside K D s s := ⟨fun _ _ => rfl, fun _ _ => Iff.rfl⟩

theorem mono (h : SameOutside K D s t) (hImp : ∀ m, D m → E m) : SameOutside K E s t where
  stored hK hE := h.stored hK fun hD => hE (hImp _ hD)
  links hLeft hRight := h.links (fun hD => hLeft (hImp _ hD)) fun hD => hRight (hImp _ hD)

/-- The stacks have no part in this. -/
theorem congr {s' t' : State} (h : SameOutside K D s t) (hs : s'.facts = s.facts)
    (hs' : s'.links = s.links) (ht : t'.facts = t.facts) (ht' : t'.links = t.links) :
    SameOutside K D s' t' where
  stored hK hD := by
    rw [State.stored, State.stored, hs, ht]
    exact h.stored hK hD
  links hLeft hRight := by
    rw [hs', ht']
    exact h.links hLeft hRight

theorem trans (h : SameOutside K D r s) (h' : SameOutside K D s t) : SameOutside K D r t where
  stored hK hD := (h'.stored hK hD).trans (h.stored hK hD)
  links hLeft hRight := (h'.links hLeft hRight).trans (h.links hLeft hRight)

end SameOutside

theorem Forgets.sameOutside (h : Forgets D s t) : SameOutside K D s t where
  stored _ hD := h.stored hD
  links hLeft hRight := h.links.trans (and_iff_left ⟨hLeft, hRight⟩)

/-- An assignment says nothing of what the destination does not own. -/
theorem sameOutside_assign (hNe : v ≠ u) (hVariable : a.isVariable v = true) :
    SameOutside K (a.Owns v) s (s.assign a v u) where
  stored _ hm := by
    rw [stored_assign_believed hNe hVariable, if_neg fun h => hm (Or.inl h),
      if_neg fun h => hm (Or.inr h)]
  links {l} hLeft hRight := by
    rw [mem_links_assign hNe]
    constructor
    · rintro (⟨-, hNew⟩ | ⟨hl, -⟩)
      · -- the new relation has the destination on one side
        split at hNew <;> subst hNew
        · exact absurd (Or.inl rfl) hLeft
        · exact absurd (Or.inl rfl) hRight
      · exact hl
    · refine fun hl => Or.inr ⟨hl, fun m hm => ?_⟩
      have hOwned : a.Owns v m := List.mem_cons.mp hm
      rw [Link.mentions, Bool.or_eq_false_iff, beq_eq_false_iff_ne, beq_eq_false_iff_ne]
      exact ⟨fun hEq => hLeft (hEq ▸ hOwned), fun hEq => hRight (hEq ▸ hOwned)⟩

/-- Only what is no variable is replaced when it escapes, and by what is no variable. -/
theorem dropLocality_eq_self
    (h : (s.dropLocality a v).2.2.isVariable (s.dropLocality a v).2.1 = true) :
    (s.dropLocality a v).2.1 = v := by
  unfold dropLocality at h ⊢
  split
  case h_1 | h_4 => rfl
  all_goals
    rename_i hGet
    rw [hGet] at h
    dsimp only at h ⊢
    split
    · rename_i hLocal
      rw [if_pos hLocal] at h
      exact absurd h (Bool.eq_false_iff.mp (Arena.isVariable_intern_value (by simp)))
    · rfl

/-- **What is left of a value on its way** from `u`: it may have escaped with what it owns, but a
variable is the same one, and nothing else is known otherwise. -/
structure Sent (a : Arena) (s : State) (u : ValueId) (b : Arena) (t : State) (m : ValueId) :
    Prop where
  grows    : a.Grows b
  backward : b.Backward
  same     : b.isVariable m = true → m = u
  outside  : SameOutside (b.Owns u) (fun _ => False) s t

namespace Sent

theorem start (hBack : a.Backward) : Sent a s u a s u := ⟨.refl a, hBack, fun _ => rfl, .refl s⟩

/-- A value on its way escapes. -/
theorem drop (h : Sent a s u b t m) : Sent a s u (t.dropLocality b m).2.2
    (t.dropLocality b m).1 (t.dropLocality b m).2.1 := by
  have hGrows : b.Grows (t.dropLocality b m).2.2 := Arena.grows_dropLocality
  refine ⟨h.grows.trans hGrows, Arena.Backward.dropLocality h.backward, fun hVariable => ?_, ?_⟩
  · have hSame := dropLocality_eq_self hVariable
    rw [hSame] at hVariable ⊢
    exact h.same (hGrows.isVariable.symm.trans hVariable)
  · constructor
    · intro q hFree hD
      have hFree : ¬ b.Owns u q := fun hOwned => hFree ((hGrows.owns h.backward).mpr hOwned)
      rw [stored_dropLocality_of_not_owns, h.outside.stored hFree hD]
      exact fun hVariable => h.same hVariable ▸ hFree
    · intro l hLeft hRight
      rw [links_dropLocality]
      exact h.outside.links hLeft hRight

end Sent

end State

-- ---------------------------------------------------------------------------
-- The step
-- ---------------------------------------------------------------------------

namespace Step

open State

variable {σ : Session} {a : Arena} {s t : State} {u v m source dest : ValueId} {i : Variable}
  {K : ValueId → Prop} {ctx : Context} {index : Nat} {anchor : Option Anchor}
  {isInitializer : Bool} {assigned : Option ValueId}

theorem sameOutside_storeInto (hBack : a.Backward) (hv : a.get v = .var i) (hNe : v ≠ u) :
    SameOutside K (a.Owns v) s (storeInto a s v i u isInitializer) := by
  rw [storeInto_eq hBack hv]
  split
  · exact .refl s
  · exact sameOutside_assign hNe (Arena.isVariable_iff.mpr ⟨i, hv⟩)

/-- **Storing a value** takes locality from what the value owns, and only what the destination
owns is known otherwise. -/
theorem yields_store_sameOutside (hBack : σ.arena.Backward) (hNe : source ≠ dest) :
    Yields (store dest source isInitializer s) σ fun r τ =>
      σ.arena.Grows τ.arena ∧ τ.arena.Backward ∧ SameOutside (τ.arena.Owns source)
        (fun m => σ.arena.isVariable dest = true ∧ τ.arena.Owns dest m) s r := by
  refine (yields_store_of (P := Sent σ.arena s source) (.start hBack) fun h => h.drop).mono ?_
  rintro r τ ⟨t, m, hSent, rfl⟩
  refine ⟨hSent.grows, hSent.backward, ?_⟩
  have hEscaped := hSent.outside.mono (E := fun m => σ.arena.isVariable dest = true ∧
    τ.arena.Owns dest m) fun _ h => h.elim
  cases hDest : σ.arena.varAt? dest with
  | none => exact hEscaped
  | some i =>
    have hi : σ.arena.get dest = .var i := Arena.varAt?_eq_some.mp hDest
    have hVariable := Arena.isVariable_iff.mpr ⟨i, hi⟩
    have hGet := (hSent.grows.get (Arena.lt_of_isVariable hVariable)).trans hi
    have hOther : dest ≠ m := by
      rintro rfl
      exact hNe (hSent.same (hSent.grows.isVariable.trans hVariable)).symm
    exact hEscaped.trans ((sameOutside_storeInto hSent.backward hGet hOther).mono
      fun _ hOwned => ⟨hVariable, hOwned⟩)

/-- **What is exposed is forgotten** by a write whose destination is no variable. -/
theorem forgets_flushElements (hBack : a.Backward) (hArray : a.isVariable v = true)
    (hDest : a.isVariable dest = false) :
    Forgets (a.Exposed v) s (flushElements a (some v) dest s) := by
  have hFlush : flushElements a (some v) dest s =
      ((a.dependents v).filter a.isCallFlushable).foldl (State.flushVariable a) s := by
    rw [flushElements, hDest, hArray]
    rfl
  rw [hFlush]
  refine (forgets_foldl _ fun _ _ _ => forgets_owned).congr fun m => ⟨?_, fun hm => ?_⟩
  · rintro ⟨u, hu, hOwned⟩
    exact Arena.Exposed.owned hBack (List.mem_filter.mp hu) hOwned
  · exact ⟨m, List.mem_filter.mpr hm, Or.inl rfl⟩

/-- **What a write into an array leaves of its elements.** If the destination is no variable nothing
is known any more of an element of the array, nor of what has one above itself, and only what is
exposed is forgotten. If it is a variable, whichever it is, only what it owns is known otherwise,
so all other elements are known as before. In both cases what the source owns may lose its
locality. -/
theorem slots_after_assign {popped : ValueId} {rest : List ValueId} (hBack : σ.arena.Backward)
    (hStack : s.stack = source :: popped :: rest)
    (hDest : (if σ.arena.isVariable popped then popped else assigned.getD popped) = dest)
    (hArray : σ.arena.isVariable v = true) :
    Yields (perform ctx index s (.assign assigned isInitializer (some v) anchor)) σ fun items τ =>
      ∃ t, items = [next index t] ∧ σ.arena.Grows τ.arena ∧
        (σ.arena.isVariable dest = false →
          (∀ e m, τ.arena.ElementOf v e → τ.arena.Owns e m → ¬ t.Mentions m) ∧
            SameOutside (τ.arena.Owns source) (τ.arena.Exposed v) s t) ∧
        (σ.arena.isVariable dest = true →
          SameOutside (τ.arena.Owns source) (τ.arena.Owns dest) s t) := by
  show Yields (assign index assigned isInitializer (some v) anchor s) σ _
  unfold assign
  rw [pop_of_stack hStack, yields_bind, yields_pure]
  dsimp only
  rw [pop_of_stack rfl, yields_bind, yields_pure, yields_bind, yields_arena, yields_bind,
    yields_emit]
  dsimp only
  rw [hDest]
  refine yields_ite_bind (P := fun r τ => σ.arena.Grows τ.arena ∧ τ.arena.Backward ∧
    SameOutside (τ.arena.Owns source) (fun m => σ.arena.isVariable dest = true ∧
      τ.arena.Owns dest m) { s with stack := rest } r) ?_ ?_ ?_
  · exact fun _ => yields_pure.mpr ⟨.refl _, hBack, .refl _⟩
  · intro hNe
    refine yields_store_sameOutside ?_ hNe
    exact hBack
  · rintro r τ ⟨hGrows, hBack, hStored⟩
    -- taking the operands and pushing the destination says nothing of a variable
    have hPushed : SameOutside (τ.arena.Owns source) _ s (r.push dest) :=
      hStored.congr rfl rfl rfl rfl
    refine yields_pushed.bind ?_
    rintro _ υ ⟨rfl, hArena, -⟩
    rw [yields_bind, yields_arena, yields_pure, hArena]
    refine ⟨_, rfl, hGrows, fun hValue => ?_, fun hVariable => ?_⟩
    · have hForgets := forgets_flushElements (s := r.push dest) hBack
        (hGrows.isVariable.trans hArray) (hGrows.isVariable.trans hValue)
      constructor
      · intro e m hElement hOwned
        exact hForgets.gone (Arena.Exposed.owned hBack (hElement.exposed hBack) hOwned)
      · refine (hPushed.mono fun _ h => ?_).trans hForgets.sameOutside
        exact absurd h.1 (Bool.eq_false_iff.mp hValue)
    · rw [flushElements_of_variable (hGrows.isVariable.trans hVariable)]
      exact hPushed.mono fun _ h => h.2

-- ---------------------------------------------------------------------------
-- One array
-- ---------------------------------------------------------------------------

/-- An array, its first element, a final field of that, a local variable, and an object. -/
def shelf : Arena :=
  let array := (Arena.new.var (.localVar "a" false) none .unknownRef).2
  let first := (array.var (.element 0) (some 1) .unknownRef).2
  let size := (first.var (.field "size" false false true) (some 2) (.int .full)).2
  let other := (size.var (.localVar "x" false) none .unknownRef).2
  (other.typed .notNull).2

theorem becomes_shelf : Arena.new.Becomes shelf := by
  have hArray := Arena.Becomes.refl (a := .new).var (d := .localVar "a" false) (p := none)
    (f := .unknownRef) nofun
  have hFirst := hArray.var (d := .element 0) (p := some 1) (f := .unknownRef) (by decide +kernel)
  have hSize := hFirst.var (d := .field "size" false false true) (p := some 2) (f := .int .full)
    (by decide +kernel)
  have hOther := hSize.var (d := .localVar "x" false) (p := none) (f := .unknownRef) nofun
  exact hOther.ask (r := .typed .notNull) ⟨nofun, rfl⟩

/-- The element is not null and of size 5, and the variable equals it. The object is to be written
into the array, in the place of `dest`. -/
def stocked (dest : ValueId) : State :=
  let known := (State.initial.setFact shelf 2 .notNull).setFact shelf 3 (.ofInt 5)
  { known.assign shelf 4 2 with stack := [5, dest] }

/-- What is known of after the object was written. -/
def knownAfter (dest : ValueId) : Option (List (List ValueId)) :=
  match perform usualContext 0 (stocked dest) (.assign none false (some 1) none) (.start shelf) with
  | .ok items _ => some (items.map fun it => it.state.tracked.toList)
  | .error _ _ => none

theorem evaluated_shelf :
    shelf.get 2 = .var ⟨.element 0, some 1, .unknownRef⟩ ∧
      shelf.get 4 = .var ⟨.localVar "x" false, none, .unknownRef⟩ ∧ shelf.dependents 2 = [3] ∧
      shelf.allVars = [1, 2, 3, 4] ∧ shelf.isVariable 0 = false ∧
      (stocked 0).tracked.toList = [2, 3, 4] ∧ knownAfter 4 = some [[2, 3, 4]] := by
  decide +kernel

theorem elementOf_shelf : shelf.ElementOf 1 2 :=
  ⟨0, _, evaluated_shelf.1, rfl, rfl⟩

/-- Nothing is known where the object was written: the element is forgotten with its final field. -/
theorem slots_after_assign_unknown :
    (stocked 0).Mentions 2 ∧ (stocked 0).Mentions 3 ∧
      Yields (perform usualContext 0 (stocked 0) (.assign none false (some 1) none)) (.start shelf)
        fun items _ => ∃ t, items = [next 0 t] ∧ ¬ t.Mentions 2 ∧ ¬ t.Mentions 3 := by
  obtain ⟨-, -, hOwned, hVars, hValue, hTracked, -⟩ := evaluated_shelf
  have hArray : shelf.isVariable 1 = true := Arena.mem_allVars.mp (hVars ▸ by decide)
  have hBack : shelf.Backward := (becomes_shelf.ordered Arena.ordered_new).backward
  have hMentions : ∀ m ∈ [2, 3, 4], (stocked 0).Mentions m := fun m hm =>
    mem_tracked.mp (show m ∈ (stocked 0).tracked.toList from hTracked ▸ hm)
  refine ⟨hMentions 2 (by decide), hMentions 3 (by decide), ?_⟩
  have hAfter : Yields (perform usualContext 0 (stocked 0) (.assign none false (some 1) none))
      (.start shelf) _ := slots_after_assign hBack rfl
        (if_neg (Bool.eq_false_iff.mp hValue)) hArray
  refine hAfter.mono ?_
  rintro items τ ⟨t, hItems, hGrows, hForgotten, -⟩
  obtain ⟨hSlots, -⟩ := hForgotten hValue
  have hElement : τ.arena.ElementOf 1 2 := by
    obtain ⟨i, x, hGet, hRest⟩ := elementOf_shelf
    exact ⟨i, x, (hGrows.get (Arena.lt_size_of_get (hGet ▸ by simp))).trans hGet, hRest⟩
  have hField : τ.arena.Owns 2 3 :=
    (hGrows.owns hBack).mpr (Or.inr (hOwned ▸ List.mem_singleton_self 3))
  exact ⟨t, hItems, hSlots 2 2 hElement (Or.inl rfl), hSlots 2 3 hElement hField⟩

/-- **Elements stay known**: the local variable stands where the object was written, and is no
element of the array, but the element and its field are not forgotten. -/
theorem elements_stay_known :
    shelf.ElementOf 1 2 ∧ shelf.Owns 2 3 ∧ ¬ shelf.ElementOf 1 4 ∧
      knownAfter 4 = some [[2, 3, 4]] := by
  obtain ⟨-, hLocal, hOwned, -, -, -, hAfter⟩ := evaluated_shelf
  refine ⟨elementOf_shelf, Or.inr (hOwned ▸ List.mem_singleton_self 3), ?_, hAfter⟩
  rintro ⟨i, x, hGet, hElement, -⟩
  cases hLocal.symm.trans hGet
  cases hElement

end Step

end Pathwise
