import Pathwise.Proofs.Interning
import Pathwise.Proofs.Stacks

/-!
# What is forgotten

A variable is forgotten when the fact stored for it is dropped with all its relations. What
becomes of a state in which several variables are forgotten, one after the other, is said by
naming them: nothing is known of those, and all else is as it was (`State.Forgets`).

A variable takes with it all that it qualifies, however deep. A call takes what it may change,
unless that is owned by a local object, and whether it is so is asked while variables are being
forgotten, which may take the locality from an object. The order of the indices decides: what
qualifies a variable comes before it, so nothing that an answer depends on is forgotten after
the answer was given, and the state that is left gives the same answers.

## Results

* `State.Mentions`          — the variables that a state knows something about.
* `State.Forgets`           — exactly what is named is forgotten.
* `forgets_foldl`           — one variable after the other.
* `forgets_foldl_unowned`   — ownership is the same before and after.
* `flushVariable_exact`     — a variable is forgotten with all that it qualifies.
* `flushFields_exact`       — what a call may change is forgotten, unless a local object owns it
  in the state that is left.
-/

namespace Pathwise

namespace Arena

variable {a : Arena} {v m : ValueId}

/-- A value owns itself and what it is above, in any number of steps. -/
theorem owns_iff (hBack : a.Backward) :
    a.Owns v m ↔ Relation.ReflTransGen (fun m q => a.qualifier? m = some q) m v := by
  rw [Owns, Relation.reflTransGen_iff_eq_or_transGen, mem_dependents, mem_qualifiers_iff hBack]
  refine or_congr eq_comm (and_iff_right_of_imp fun hChain => ?_)
  exact isVariable_of_mem_qualifiers ((mem_qualifiers_iff hBack).mpr hChain)

end Arena

namespace State

variable {a : Arena} {r s t : State} {D E : ValueId → Prop} {u v q m : ValueId}

-- ---------------------------------------------------------------------------
-- Forgetting
-- ---------------------------------------------------------------------------

/-- The state knows something about a variable: a fact is stored, or a relation recorded. -/
def Mentions (s : State) (v : ValueId) : Prop :=
  (s.facts.get? v).isSome = true ∨ ∃ l ∈ s.links, l.mentions v = true

theorem mem_tracked : v ∈ s.tracked ↔ s.Mentions v := by
  rw [tracked, OrdSet.mem_ofList, List.mem_append, OrdMap.mem_keys_iff, Mentions]
  refine or_congr Iff.rfl ?_
  simp only [List.mem_flatMap, List.mem_cons, List.not_mem_nil, or_false, Link.mentions,
    Bool.or_eq_true, beq_iff_eq, OrdSet.mem_def, eq_comm (a := v)]

/-- **Nothing is new in a state**, and nothing is forgotten but what is named. -/
structure Forgot (D : ValueId → Prop) (s t : State) : Prop where
  kept  : ∀ {m}, ¬ D m → t.facts.get? m = s.facts.get? m
  fewer : ∀ {m}, t.Mentions m → s.Mentions m

/-- **Exactly what is named is forgotten**: nothing is known of it, and what is known of all else
is as it was, a relation if neither side of it is named. -/
structure Forgets (D : ValueId → Prop) (s t : State) : Prop extends Forgot D s t where
  gone  : ∀ {m}, D m → ¬ t.Mentions m
  links : ∀ {l}, l ∈ t.links ↔ l ∈ s.links ∧ ¬ D l.left ∧ ¬ D l.right
  frame : s.SameFrame t

namespace Forgets

theorem refl (hNone : ∀ m, ¬ D m) : Forgets D s s where
  kept _ := rfl
  fewer := id
  gone hm := absurd hm (hNone _)
  links := (and_iff_left ⟨hNone _, hNone _⟩).symm
  frame := .refl s

theorem trans (h : Forgets D r s) (h' : Forgets E s t) : Forgets (fun m => D m ∨ E m) r t where
  kept hm := (h'.kept fun hE => hm (Or.inr hE)).trans (h.kept fun hD => hm (Or.inl hD))
  fewer hm := h.fewer (h'.fewer hm)
  gone hm hMentions := hm.elim (fun hD => h.gone hD (h'.fewer hMentions)) fun hE =>
    h'.gone hE hMentions
  links {l} := by
    rw [h'.links, h.links, not_or, not_or, and_assoc, and_and_and_comm]
  frame := h.frame.trans h'.frame

theorem congr (h : Forgets D s t) (hSame : ∀ m, D m ↔ E m) : Forgets E s t := by
  obtain rfl : D = E := funext fun m => propext (hSame m)
  exact h

end Forgets

theorem forgets_forget : Forgets (· = v) s (s.forget v) where
  kept {m} hm := by rw [forget, OrdMap.get?_erase, if_neg fun hEq : v = m => hm hEq.symm]
  fewer {m} hm := by
    refine hm.imp (fun hFact => ?_) ?_
    · rw [forget, OrdMap.get?_erase] at hFact
      split at hFact
      · cases hFact
      · exact hFact
    · rintro ⟨l, hl, hMentions⟩
      exact ⟨l, (OrdSet.mem_filter.mp hl).1, hMentions⟩
  gone := by
    rintro m rfl (hFact | ⟨l, hl, hMentions⟩)
    · rw [forget, OrdMap.get?_erase, if_pos rfl] at hFact
      cases hFact
    · have hNot := (OrdSet.mem_filter.mp hl).2
      rw [hMentions] at hNot
      cases hNot
  links {l} := by
    rw [forget, OrdSet.mem_filter, Bool.not_eq_true', Link.mentions, Bool.or_eq_false_iff,
      beq_eq_false_iff_ne, beq_eq_false_iff_ne]
  frame := ⟨rfl, rfl⟩

/-- **One variable after the other is forgotten**, each with what goes with it. -/
theorem forgets_foldl {step : State → ValueId → State} {W : ValueId → ValueId → Prop}
    (vs : List ValueId) (hStep : ∀ s, ∀ v ∈ vs, Forgets (W v) s (step s v)) :
    Forgets (fun m => ∃ v ∈ vs, W v m) s (vs.foldl step s) := by
  induction vs generalizing s with
  | nil => exact .refl fun m => by simp
  | cons v vs ih =>
    have hFirst := hStep s v List.mem_cons_self
    have hRest := ih (s := step s v) fun t u hu => hStep t u (List.mem_cons_of_mem _ hu)
    exact (hFirst.trans hRest).congr fun m => by simp

/-- A variable is forgotten with what it qualifies. -/
theorem forgets_owned : Forgets (a.Owns v) s (s.flushVariable a v) := by
  refine (forgets_forget.trans (forgets_foldl (W := fun u m => m = u) _ fun _ _ _ =>
    forgets_forget)).congr fun m => ?_
  simp only [Arena.Owns, exists_eq_right']

/-- What a value qualifies is forgotten, and nothing else. -/
theorem forgets_flushDependents (hBack : a.Backward) :
    Forgets (· ∈ a.dependents v) s (s.flushDependents a v) := by
  refine (forgets_foldl _ fun _ _ _ => forgets_owned).congr fun m => ⟨?_, fun hm => ?_⟩
  · rintro ⟨u, hu, rfl | hm⟩
    · exact hu
    · exact Arena.mem_dependents_of_mem_qualifiers hBack (Arena.mem_dependents.mp hm).2 hu
  · exact ⟨m, hm, Or.inl rfl⟩

/-- An object with a field and a field of that; and an object with a final field, an element of it,
and an object that was made here. -/
def holders : Arena :=
  let this := (Arena.new.var (.parameter "this" 0) none .notNull).2
  let items := (this.var (.field "items" false false false) (some 1) .unknownRef).2
  let next := (items.var (.field "next" false false false) (some 2) .unknownRef).2
  let own := (next.var (.localVar "own" false) none .unknownRef).2
  let data := (own.var (.field "data" false false true) (some 4) .unknownRef).2
  let first := (data.var (.element 0) (some 5) .unknownRef).2
  (first.typed .localObject).2

theorem becomes_holders : Arena.new.Becomes holders := by
  have hThis := Arena.Becomes.refl (a := .new).var (d := .parameter "this" 0) (p := none)
    (f := .notNull) nofun
  have hItems := hThis.var (d := .field "items" false false false) (p := some 1) (f := .unknownRef)
    (by decide +kernel)
  have hNext := hItems.var (d := .field "next" false false false) (p := some 2) (f := .unknownRef)
    (by decide +kernel)
  have hOwn := hNext.var (d := .localVar "own" false) (p := none) (f := .unknownRef) nofun
  have hData := hOwn.var (d := .field "data" false false true) (p := some 4) (f := .unknownRef)
    (by decide +kernel)
  have hFirst := hData.var (d := .element 0) (p := some 5) (f := .unknownRef) (by decide +kernel)
  exact hFirst.ask (r := .typed .localObject) ⟨nofun, rfl⟩

/-- Both the field and the second object are new objects, and the field of the field is the
element. -/
def filled : State :=
  let made := (State.initial.assign holders 2 7).assign holders 4 7
  ((made.setFact holders 5 .notNull).setFact holders 6 .notNull).assign holders 3 6

theorem evaluated_holders :
    holders.dependents 4 = [5, 6] ∧ holders.qualifiers 3 = [2, 1] ∧
      holders.qualifiers 6 = [5, 4] ∧ holders.isCallFlushable 3 = true ∧
      filled.tracked.toList = [2, 3, 4, 5, 6] ∧ filled.links.toList = [⟨3, .eq, 6⟩] ∧
      (filled.fact holders 2).isLocal = true ∧
      [1, 2, 4].map (fun q => ((filled.flushFields holders).fact holders q).isLocal) =
        [false, false, true] := by
  decide +kernel

theorem Forgot.stored (h : Forgot D s t) (hm : ¬ D m) : t.stored m = s.stored m := by
  rw [State.stored, State.stored, h.kept hm]

/-- A fact stays where nothing was forgotten of what qualifies its value. -/
theorem Forgot.fact (h : Forgot D s t) (hBack : a.Backward)
    (hQualifier : ∀ {m q}, a.qualifier? m = some q → D q → D m) (hm : ¬ D m) :
    t.fact a m = s.fact a m :=
  fact_congr_stored (P := fun m => ¬ D m) hBack (fun _ => h.stored)
    (fun hLength hm hD => hm (hQualifier hLength.qualifier? hD)) hm

theorem fact_flushDependents (hBack : a.Backward) (hm : m ∉ a.dependents v) :
    (s.flushDependents a v).fact a m = s.fact a m :=
  (forgets_flushDependents hBack).fact hBack (fun hq hDependent =>
    Arena.mem_dependents_of_mem_qualifiers hBack
      ((Arena.mem_qualifiers_iff hBack).mpr (.single hq)) hDependent) hm

/-- A fact stays where nothing was forgotten but what comes later. -/
theorem Forgot.fact_of_lt (h : Forgot D s t) (hBack : a.Backward) (hLater : ∀ m, D m → u ≤ m)
    (hm : m < u) : t.fact a m = s.fact a m :=
  fact_congr_below hBack fun q hq =>
    h.stored fun hD => Nat.not_le_of_lt (Nat.lt_of_le_of_lt hq hm) (hLater q hD)

-- ---------------------------------------------------------------------------
-- Objects that are owned
-- ---------------------------------------------------------------------------

theorem isOwnedByLocal_iff :
    s.isOwnedByLocal a v = true ↔ ∃ q ∈ a.qualifiers v, (s.fact a q).isLocal = true := by
  rw [isOwnedByLocal, List.any_eq_true]

/-- What is forgotten later does not change by whom a variable is owned. -/
theorem Forgot.isOwnedByLocal (h : Forgot D s t) (hBack : a.Backward)
    (hLater : ∀ m, D m → u ≤ m) : t.isOwnedByLocal a u = s.isOwnedByLocal a u := by
  rw [Bool.eq_iff_iff, isOwnedByLocal_iff, isOwnedByLocal_iff]
  refine exists_congr fun q => and_congr_right fun hq => ?_
  rw [h.fact_of_lt hBack hLater (Arena.lt_of_mem_qualifiers hBack hq)]

/-- The state after a variable was visited: it is forgotten if a call may change it, unless a local
object owns it. -/
def forgetUnowned (a : Arena) (s : State) (v : ValueId) : State :=
  if a.isCallFlushable v && !s.isOwnedByLocal a v then s.forget v else s

theorem forgets_forgetUnowned : Forgets
    (fun m => m = v ∧ a.isCallFlushable v = true ∧ s.isOwnedByLocal a v = false) s
    (s.forgetUnowned a v) := by
  rw [← Bool.not_eq_true', ← Bool.and_eq_true]
  unfold forgetUnowned
  split
  · rename_i hForgets
    exact forgets_forget.congr fun m => (and_iff_left hForgets).symm
  · rename_i hStays
    exact .refl fun m hm => hStays hm.2

/-- **Variables are visited in the order of their indices.** So what decides whether a variable is
forgotten is settled when it is visited, and may as well be read off the state that is left. -/
theorem forgets_foldl_unowned (hBack : a.Backward) (vs : List ValueId)
    (hAscending : vs.Pairwise (· < ·)) :
    Forgets (fun m => m ∈ vs ∧ a.isCallFlushable m = true ∧
      (vs.foldl (forgetUnowned a) s).isOwnedByLocal a m = false) s
      (vs.foldl (forgetUnowned a) s) := by
  induction vs generalizing s with
  | nil => exact .refl fun m => by simp
  | cons u us ih =>
    obtain ⟨hFirst, hRest⟩ := List.pairwise_cons.mp hAscending
    rw [List.foldl_cons]
    have hStep := forgets_forgetUnowned (a := a) (s := s) (v := u)
    have hLater := ih hRest (s := s.forgetUnowned a u)
    have hBoth := hStep.trans hLater
    -- the answer that was given for the first variable is the one that the last state gives
    have hSettled := hBoth.toForgot.isOwnedByLocal (u := u) hBack fun m hm => by
      rcases hm with ⟨rfl, -⟩ | ⟨hm, -⟩
      · exact Nat.le_refl m
      · exact Nat.le_of_lt (hFirst m hm)
    refine hBoth.congr fun m => ?_
    rw [List.mem_cons, or_and_right]
    refine or_congr (and_congr_right ?_) Iff.rfl
    rintro rfl
    rw [hSettled]

/-- A call forgets what the state knows something about and the call may change, unless it is owned
by a local object in the state that is left. -/
theorem forgets_flushFields (hBack : a.Backward) :
    Forgets (fun m => s.Mentions m ∧ a.isCallFlushable m = true ∧
      (s.flushFields a).isOwnedByLocal a m = false) s (s.flushFields a) := by
  have hAscending : s.tracked.toList.Pairwise (· < ·) :=
    s.tracked.ascending.imp fun h => Nat.compare_eq_lt.mp h
  exact (forgets_foldl_unowned hBack _ hAscending).congr fun m => and_congr_left' mem_tracked

/-- **Flushing fields is exact**: of all that the state knows something about, what a call may
change is forgotten, unless something above it is known to be local in the state that is left. -/
theorem flushFields_exact (hArena : Arena.new.Becomes a) :
    Forgets (fun m => s.Mentions m ∧ a.isCallFlushable m = true ∧
      ∀ q, Relation.TransGen (fun m q => a.qualifier? m = some q) m q →
        ((s.flushFields a).fact a q).isLocal = false) s (s.flushFields a) := by
  have hBack : a.Backward := (hArena.ordered Arena.ordered_new).backward
  refine (forgets_flushFields hBack).congr fun m => and_congr_right fun _ => and_congr_right ?_
  intro _
  rw [Bool.eq_false_iff, ne_eq, isOwnedByLocal_iff, not_exists]
  refine forall_congr' fun q => ?_
  rw [not_and, Bool.not_eq_true, Arena.mem_qualifiers_iff hBack]

/-- The first field was a local object, but a call may change it, and it is forgotten with the field
of it. The element of the final field is owned by the second object. -/
theorem flushFields_exact_first :
    (filled.fact holders 2).isLocal = true ∧ ¬ (filled.flushFields holders).Mentions 3 ∧
      (filled.flushFields holders).facts.get? 6 = filled.facts.get? 6 := by
  obtain ⟨-, hAbove, hAboveElement, hFlushable, hTracked, -, hLocal, hAfter⟩ := evaluated_holders
  have hBack : holders.Backward := (becomes_holders.ordered Arena.ordered_new).backward
  have hExact := flushFields_exact (s := filled) becomes_holders
  have hLost : ∀ q ∈ [1, 2, 4], ((filled.flushFields holders).fact holders q).isLocal =
      decide (q = 4) := List.map_inj_left.mp hAfter
  refine ⟨hLocal, hExact.gone ⟨?_, hFlushable, fun q hq => ?_⟩, hExact.kept ?_⟩
  · refine mem_tracked.mp ?_
    show _ ∈ filled.tracked.toList
    rw [hTracked]
    decide
  · rw [← Arena.mem_qualifiers_iff hBack, hAbove] at hq
    rcases List.mem_cons.mp hq with rfl | hq
    · exact hLost 2 (by decide)
    · rw [List.mem_singleton.mp hq]
      exact hLost 1 (by decide)
  · rintro ⟨-, -, hNone⟩
    have hOwner := hNone 4 ((Arena.mem_qualifiers_iff hBack).mp (hAboveElement ▸ by decide))
    rw [hLost 4 (by decide)] at hOwner
    cases hOwner

end State

end Pathwise
