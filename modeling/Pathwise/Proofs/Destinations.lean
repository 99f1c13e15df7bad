import Pathwise.Proofs.Edges
import Pathwise.Proofs.Locality

/-!
# Destinations

An assignment forgets its destination before anything is stored for it, so nothing that was known
of the destination before is known after: the fact on it allows the value that was assigned, and
the only relation of it is the one to the source (`Rebinds`). That holds whatever the source went
through on the way, for it may escape twice before it is stored: a value that escapes is the same
value, and as much room is left for it (`Carried`).

There are three exceptions. A length is known by its object as well, which is not asked. Null is
lost where the declaration and the fact on the source have nothing else in common. And a volatile
variable is not bound, but it is not forgotten either, so all that was known of it is known still
(`PassesOver`), the value of another assignment as well.

## Results

* `Fact.dropLocality_meet_dropLocality` — a meet depends on the locality of the right side only in
  its own locality.
* `State.admits_null_meet_dropped` — there is as much room for a null that has escaped.
* `State.Carried.drop`             — a value on its way to a variable escapes.
* `State.admits_assign_self_iff`   — which values an assignment leaves to its destination.
* `Step.perform_assign_rebinds`    — **an assignment binds its destination anew**, unless that is
  volatile.
* `Step.volatile_is_not_forgotten`, `Step.null_is_lost` — a volatile field that is 7, and known to
  be 5; and a null of which nothing is left.
-/

namespace Pathwise

-- ---------------------------------------------------------------------------
-- Facts
-- ---------------------------------------------------------------------------

/-- What may be null is not unknown to be after a meet either. -/
theorem Nullness.ne_unknown_of_meet?_nullable {n k : Nullness}
    (h : Nullness.nullable.meet? n = some k) : k ≠ .unknown := by
  cases n <;> cases h <;> nofun

/-- The locality of the right side has a part in the locality of the meet only. -/
theorem RefInfo.meet?_withLocality {r s : RefInfo} {b : Bool} :
    (r.meet? { s with isLocal := b }).map (fun t => { t with isLocal := false }) =
      (r.meet? s).map fun t => { t with isLocal := false } := by
  simp only [meet?, Option.bind_eq_bind]
  cases r.nullness.meet? s.nullness with
  | none => rfl
  | some n =>
    cases meetKnown? r.literal s.literal with
    | none => rfl
    | some l =>
      simp only [Option.bind_some]
      split
      · rfl
      · cases r.bound.meet? s.bound with
        | none => rfl
        | some d => cases r.mutability.meet? s.mutability <;> rfl

namespace Fact

variable {w : World} {H : Hierarchy} {d e f g : Fact} {r s t : RefInfo}
  {al al' bl sl sl' tl : Option Fact} {x : Concrete}

theorem dropLocality_dropLocality : f.dropLocality.dropLocality = f.dropLocality := by
  cases f <;> rfl

theorem isNull_dropLocality : f.dropLocality.isNull = f.isNull := by cases f <;> rfl

theorem measurable_dropLocality : f.dropLocality.Measurable w ↔ f.Measurable w := by
  cases f <;> rfl

/-- Null is a value of a fact or not, whether or not the object is known to be local. -/
theorem admits_null_dropLocality : f.dropLocality.Admits w .null ↔ f.Admits w .null := by
  cases f with
  | ref r al sl =>
    rw [dropLocality, admits_null, admits_null]
    exact ⟨fun h => ⟨h.nullable, h.literal⟩, fun h => ⟨h.nullable, h.literal⟩⟩
  | _ => exact Iff.rfl

/-- **Up to locality**, a meet does not depend on the locality of its right side. -/
theorem dropLocality_meet_dropLocality :
    (f.meet g.dropLocality).dropLocality = (f.meet g).dropLocality := by
  cases g with
  | ref s al' sl' =>
    cases f with
    | ref r al sl =>
      have hInfo := RefInfo.meet?_withLocality (r := r) (s := s) (b := false)
      rw [dropLocality, meet_ref, meet_ref]
      cases hs : r.meet? s with
      | none =>
        rw [hs, Option.map_none, Option.map_eq_none_iff] at hInfo
        rw [hInfo]
      | some t =>
        rw [hs, Option.map_some, Option.map_eq_some_iff] at hInfo
        obtain ⟨t', ht', hSame⟩ := hInfo
        have hNullness : t'.nullness = t.nullness := (RefInfo.mk.inj hSame).1
        rw [ht']
        dsimp only
        rw [hNullness]
        split
        · rfl
        · split
          · rfl
          · exact congrArg (ref · _ _) hSame
    | top => rfl
    | _ => rfl
  | _ => rfl

/-- Null is in a meet with facts that differ in locality, or in neither. -/
theorem admits_null_meet_congr (h : f.dropLocality = g.dropLocality) :
    (d.meet f).Admits w .null ↔ (d.meet g).Admits w .null := by
  rw [← admits_null_dropLocality, ← dropLocality_meet_dropLocality, h,
    dropLocality_meet_dropLocality, admits_null_dropLocality]

/-- Null is in a meet with what is null, if it is in the other side. -/
theorem admits_null_meet_iff (hd : d.Over w.types) (hf : f.Over w.types) (hNull : f.isNull = true)
    (h : f.Admits w .null) : (d.meet f).Admits w .null ↔ d.Admits w .null :=
  ⟨fun hMeet => (admits_of_meet hd hf hMeet).1, fun hdNull =>
    (keeps_meet_null (o := 0) hdNull h (Or.inr hNull)).admits⟩

/-- What is met with null is null. -/
theorem isNull_meet_right (hg : g.isNull = true) (h : (f.meet g).isBottom = false) :
    (f.meet g).isNull = true := by
  obtain ⟨s, al', sl', rfl, hNull⟩ := isNull_iff.mp hg
  cases f with
  | top => exact hg
  | ref r al sl =>
    obtain ⟨t, hrs, ⟨-, hEq⟩ | ⟨ht, -⟩⟩ := meet_ref_cases (ne_bottom_of_isBottom h)
    · rw [hEq]
      rfl
    · obtain ⟨n, l, hNullness, -, ⟨-, -, rfl⟩ | ⟨hn, b, m, -, -, rfl⟩⟩ :=
        RefInfo.meet?_eq_some.mp hrs
      · exact absurd rfl ht
      · exact absurd hNull (Nullness.meet?_eq_some hNullness hn).2.1
  | _ => cases h

/-- What is declared to be possibly null is not unknown to be. -/
theorem nullness_meet_nullable (h : d.nullness = .nullable) : (d.meet f).nullness ≠ .unknown := by
  cases d with
  | ref r al sl =>
    have hr : r.nullness = .nullable := h
    cases f with
    | top => rw [meet_top, h]; nofun
    | ref s al' sl' =>
      by_cases hBottom : (ref r al sl).meet (ref s al' sl') = bottom
      · rw [hBottom]
        nofun
      · obtain ⟨t, hrs, ⟨-, hEq⟩ | ⟨ht, hEq⟩⟩ := meet_ref_cases hBottom
        · rw [hEq]
          nofun
        · rw [hEq]
          obtain ⟨n, l, hNullness, -, ⟨-, -, rfl⟩ | ⟨hn, b, m, -, -, rfl⟩⟩ :=
            RefInfo.meet?_eq_some.mp hrs
          · nofun
          · exact Nullness.ne_unknown_of_meet?_nullable (hr ▸ hNullness)
    | _ => nofun
  | _ => cases h

end Fact

-- ---------------------------------------------------------------------------
-- What escapes before it is assigned
-- ---------------------------------------------------------------------------

namespace State

variable {w : World} {H : Hierarchy} {a b : Arena} {s t : State} {d : Fact} {u v m : ValueId}
  {x : Concrete} {i : Variable}

/-- What escapes along with a value comes after it, so what is known of the value itself is as if
it escaped alone. -/
theorem fact_dropLocality_self (hArena : a.Coherent H) (hv : a.get v = .var i) :
    (s.dropLocality a v).1.fact a v = (s.dropVariableLocality a v).fact a v := by
  rw [dropLocality, hv]
  refine fact_congr_below hArena.backward fun m hm => ?_
  have hNot : m ∉ a.dependents v := Arena.not_mem_dependents_of_le hArena.backward hm
  exact stored_foldl_drop_of_not_mem hNot

/-- What is not local is known as before when something escapes, unless it is a length. -/
theorem fact_dropLocality_of_not_local (hBack : a.Backward)
    (hNone : ∀ l q, ¬ a.LengthOf l q v) (h : (s.fact a v).isLocal = false) (hv : v < a.size) :
    (s.dropLocality a m).1.fact (s.dropLocality a m).2.2 v = s.fact a v := by
  rw [hBack.fact_part Arena.grows_dropLocality.part hv]
  unfold dropLocality
  split
  case h_1 =>
    refine List.foldlRecOn _ _ (motive := fun t : State => t.fact a v = s.fact a v) rfl
      fun t ht u _ => ?_
    by_cases hSame : v = u
    · subst hSame
      rw [dropVariableLocality, ht, h]
      exact ht
    · rw [fact_congr_of_stored hBack hNone (stored_dropVariableLocality_of_ne hSame), ht]
  all_goals rfl

/-- **Null is in a declaration and in what is known of a variable**, whether or not the variable
has escaped. -/
theorem admits_null_meet_dropped (hBuilt : Built w.types a s) (hVariable : a.isVariable m = true)
    (hd : d.Over w.types) (hNull : (s.fact a m).Admits w .null)
    (hMeasurable : (a.inherent m).Measurable w) :
    (d.meet ((s.dropVariableLocality a m).fact a m)).Admits w .null ↔
      (d.meet (s.fact a m)).Admits w .null := by
  obtain ⟨hArena, hState⟩ := hBuilt.reached.coherent
  unfold dropVariableLocality
  dsimp only
  split
  case isFalse => rfl
  case isTrue hLocal =>
  have hNew := admits_setDropped (ρ := fun _ => .null) hBuilt hVariable hLocal hNull
    fun _ => hMeasurable
  have hOver : (s.fact a m).Over w.types := over_fact hArena hState
  have hNewOver : ((s.setFact a m (s.fact a m).dropLocality).fact a m).Over w.types :=
    over_fact hArena (coherent_setFact hState (Fact.over_dropLocality hOver))
  rcases fact_setDropped hArena.backward hVariable hLocal with hEq | hEq
  · rw [hEq]
    exact Fact.admits_null_meet_congr Fact.dropLocality_dropLocality
  · cases hKnown : (s.fact a m).isNull with
    | true =>
      -- null meets any declaration that allows it
      have hNewNull : ((s.setFact a m (s.fact a m).dropLocality).fact a m).isNull = true := by
        rw [hEq] at hNew ⊢
        exact Fact.isNull_meet_right (Fact.isNull_dropLocality.trans hKnown)
          (Fact.isBottom_of_admits hNew)
      rw [Fact.admits_null_meet_iff hd hNewOver hNewNull hNew,
        Fact.admits_null_meet_iff hd hOver hKnown hNull]
    | false =>
      -- anything else was met with its own declaration before
      obtain ⟨j, hj⟩ := Arena.isVariable_iff.mp hVariable
      have hFact : s.fact a m = (a.inherent m).meet (s.stored m) := by
        rw [fact_var hArena hj, derived_of_isLocal hArena.backward hj hLocal]
      obtain ⟨r, al, sl, hRef⟩ := Fact.exists_ref_of_isLocal hLocal
      refine Fact.admits_null_meet_congr ?_
      rw [hEq, Fact.dropLocality_meet_dropLocality]
      rw [hFact] at hKnown hRef ⊢
      have hDeclared : (a.inherent m).isNull = false := Bool.eq_false_iff.mpr fun hNull => by
        rw [Fact.isNull_meet hNull (by rw [hRef]; rfl)] at hKnown
        cases hKnown
      rw [Fact.meet_declared_again (hArena.declared m) (over_stored hState)
        (hBuilt.declared_and_stored.1 m) hMeasurable hDeclared hRef]

/-- **What is left of a value on its way** from `u` to the variable `v`: it may have escaped, but
it is the same value, and there is as much room for it as before. -/
structure Carried (w : World) (v : ValueId) (x : Concrete) (a : Arena) (s : State) (u : ValueId)
    (b : Arena) (t : State) (m : ValueId) : Prop where
  built : Built w.types b t
  grows : a.Grows b
  distinct : v ≠ m
  same : b.isVariable m = true → m = u
  admits : (t.fact b m).Admits w x
  measurable : x = .null → (b.inherent m).Measurable w
  room : x = .null → (((a.inherent v).meet (t.fact b m)).Admits w .null ↔
    ((a.inherent v).meet (s.fact a u)).Admits w .null)
  links : t.links = s.links
  stays : (∀ l q, ¬ a.LengthOf l q v) → (s.fact a v).isLocal = false → t.fact b v = s.fact a v

namespace Carried

/-- A value that has not escaped. -/
theorem start (hBuilt : Built w.types a s) (hNe : u ≠ v) (hAdmits : (s.fact a u).Admits w x)
    (hMeasurable : x = .null → (a.inherent u).Measurable w) : Carried w v x a s u a s u where
  built := hBuilt
  grows := .refl a
  distinct := hNe.symm
  same := fun _ => rfl
  admits := hAdmits
  measurable := hMeasurable
  room := fun _ => Iff.rfl
  links := rfl
  stays := fun _ _ => rfl

variable (h : Carried w v x a s u b t m) (hv : a.isVariable v = true)
include h hv

theorem over_declared : (a.inherent v).Over w.types := by
  rw [← h.grows.inherent (Arena.lt_of_isVariable hv)]
  exact h.built.reached.coherent.1.declared v

/-- What the variable is known by stays when anything escapes. -/
theorem stays_dropLocality (hNone : ∀ l q, ¬ a.LengthOf l q v)
    (hLocal : (s.fact a v).isLocal = false) :
    (t.dropLocality b m).1.fact (t.dropLocality b m).2.2 v = s.fact a v := by
  have hFact := h.stays hNone hLocal
  rw [fact_dropLocality_of_not_local h.built.reached.coherent.1.backward
    (fun l q hLength => hNone l q (h.grows.lengthOf.mp hLength)) (hFact ▸ hLocal)
    (Nat.lt_of_lt_of_le (Arena.lt_of_isVariable hv) h.grows.size), hFact]

/-- A variable escapes. -/
theorem drop_variable {j : Variable} (hm : b.get m = .var j) :
    Carried w v x a s u b (t.dropLocality b m).1 m := by
  have hArena := h.built.reached.coherent.1
  have hVariable := Arena.isVariable_iff.mpr ⟨j, hm⟩
  have hSame : (t.dropLocality b m).2.2 = b := by rw [dropLocality, hm]
  have hBuilt := h.built.dropLocality m
  have hStays := h.stays_dropLocality hv
  rw [hSame] at hBuilt hStays
  refine ⟨hBuilt, h.grows, h.distinct, h.same, ?_, h.measurable, ?_,
    links_dropLocality.trans h.links, hStays⟩
  · rw [fact_dropLocality_self hArena hm]
    unfold dropVariableLocality
    dsimp only
    split
    · rename_i hLocal
      exact admits_setDropped (ρ := fun _ => x) h.built hVariable hLocal h.admits h.measurable
    · exact h.admits
  · intro hNull
    subst hNull
    rw [fact_dropLocality_self hArena hm, ← h.room rfl]
    exact admits_null_meet_dropped h.built hVariable (h.over_declared hv) h.admits
      (h.measurable rfl)

/-- A value that is no variable escapes: another one takes its place. -/
theorem drop_value {y : Value} (hm : b.isVariable m = false) (hy : ∀ z, y ≠ .var z)
    (hInherent : y.inherent = (b.inherent m).dropLocality)
    (hBuilt : Built w.types (b.intern y).2 t) :
    Carried w v x a s u (b.intern y).2 t (b.intern y).1 := by
  have hGrows : b.Grows (b.intern y).2 := Arena.grows_intern hy
  have hNew := Arena.isVariable_intern_value (a := b) hy
  have hFact : t.fact (b.intern y).2 (b.intern y).1 = (t.fact b m).dropLocality := by
    rw [fact_of_not_variable hNew, fact_of_not_variable hm, Arena.inherent_intern_value hy,
      hInherent]
  have hInside : v < b.size := Nat.lt_of_lt_of_le (Arena.lt_of_isVariable hv) h.grows.size
  refine ⟨hBuilt, h.grows.trans hGrows, ?_, ?_, ?_, ?_, ?_, h.links, ?_⟩
  · rintro rfl
    rw [hGrows.isVariable, h.grows.isVariable, hv] at hNew
    cases hNew
  · intro hVariable
    rw [hNew] at hVariable
    cases hVariable
  · rw [hFact]
    exact Fact.admits_dropLocality h.admits
  · intro hNull
    rw [Arena.inherent_intern_value hy, hInherent]
    exact Fact.measurable_dropLocality.mpr (h.measurable hNull)
  · intro hNull
    rw [hFact, ← h.room hNull]
    exact Fact.admits_null_meet_congr Fact.dropLocality_dropLocality
  · intro hNone hLocal
    rw [fact_part h.built.reached.coherent.1 hGrows.part hInside, h.stays hNone hLocal]

/-- **A value on its way escapes.** -/
theorem drop : Carried w v x a s u (t.dropLocality b m).2.2 (t.dropLocality b m).1
    (t.dropLocality b m).2.1 := by
  have hBuilt := h.built.dropLocality m
  cases hm : b.get m with
  | var j =>
    have hDropped := h.drop_variable hv hm
    unfold dropLocality at hDropped ⊢
    rw [hm] at hDropped ⊢
    exact hDropped
  | unknown =>
    unfold dropLocality
    rw [hm]
    exact h
  | _ =>
    have hNone : b.isVariable m = false :=
      Arena.isVariable_of_get_ne hm (by simp)
    have hInherent := congrArg Value.inherent hm
    unfold dropLocality at hBuilt ⊢
    rw [hm] at hBuilt ⊢
    dsimp only at hBuilt ⊢
    split at hBuilt
    · rename_i hLocal
      rw [if_pos hLocal]
      exact h.drop_value hv hNone nofun (congrArg Fact.dropLocality hInherent.symm) hBuilt
    · rename_i hLocal
      rw [if_neg hLocal]
      exact h

end Carried

-- ---------------------------------------------------------------------------
-- What is known after an assignment
-- ---------------------------------------------------------------------------

/-- **What is known of the destination allows the value** that was assigned, except where its
object denies that the length is that, or null is lost in the declaration and the fact on the
source. -/
theorem admits_assign_self_iff (hBuilt : Built w.types a s) (hv : a.get v = .var i) (hNe : v ≠ u)
    (hDeclared : (a.inherent v).Admits w x) (hSource : (s.fact a u).Admits w x)
    (hMeasurable : x = .null → (a.inherent v).Measurable w)
    (hOrders : ∀ o, x = .object o → w.Orders o) :
    ((s.assign a v u).fact a v).Admits w x ↔
      (∀ l q, a.LengthOf l q v → (((s.assign a v u).fact a q).lengthFact l).Admits w x) ∧
        (x = .null → ((a.inherent v).meet (s.fact a u)).Admits w .null) := by
  obtain ⟨hArena, hState⟩ := hBuilt.reached.coherent
  have hVariable := Arena.isVariable_iff.mpr ⟨i, hv⟩
  obtain ⟨-, hAssigned⟩ := (hBuilt.assign v u hVariable).reached.coherent
  have hOver := hArena.declared v
  have hOverSource : (s.fact a u).Over w.types := over_fact hArena hState
  have hStored := stored_assign_believed (s := s) (m := v) hNe hVariable
  rw [if_pos rfl] at hStored
  have hRoom := admits_meet_declared hArena hState hDeclared hSource
  rw [fact_var hArena hv]
  constructor
  · intro h
    obtain ⟨hDerived, hKept⟩ := Fact.admits_of_meet (over_derived hArena hv)
      (over_stored hAssigned) h
    constructor
    · intro l q hLength
      rw [derived_of_length hv hLength] at hDerived
      exact (Fact.admits_of_meet hOver (Fact.over_of_info Fact.integral_lengthFact.info) hDerived).2
    · rintro rfl
      have hNone : ∀ l q, ¬ a.LengthOf l q v := by
        intro l q hLength
        rw [derived_of_length hv hLength] at hDerived
        obtain ⟨n, hn, hInt⟩ := (Fact.integral_meet (Or.inr Fact.integral_lengthFact)).exists_int
          hDerived
        cases hInt
      rw [derived_of_not_length hv hNone] at h
      -- without room the fact on the source was stored, which the declaration contradicts
      by_contra hLost
      cases hBottom : ((a.inherent v).meet (s.fact a u)).isBottom with
      | true =>
        rw [Fact.believed, if_pos hBottom] at hStored
        rw [hStored] at h
        split at h
        · rename_i hSaid
          rw [hSaid] at hLost
          exact hLost (Fact.admits_meet_self hOver (hBuilt.declared_and_stored.1 v) hMeasurable
            hDeclared)
        · exact hLost h
      | false =>
        rw [Fact.believed_of_room hBottom] at hStored
        rw [hStored] at hKept
        split at hKept
        · rename_i hSaid
          rw [hSaid] at hLost
          exact hLost hDeclared
        · exact hLost hKept
  · rintro ⟨hLengths, hNull⟩
    have hMeet := hRoom hNull hOrders
    rw [Fact.believed_of_room (Fact.isBottom_of_admits hMeet)] at hStored
    rw [hStored]
    by_cases hLength : ∃ l q, a.LengthOf l q v
    · obtain ⟨l, q, hLength⟩ := hLength
      have hAllowed := hLengths l q hLength
      obtain ⟨n, hn, rfl⟩ := Fact.integral_lengthFact.exists_int hAllowed
      have hBoth : ∀ {f g : Fact}, (f.meet g).Admits w (.int n hn) ↔
          f.Admits w (.int n hn) ∧ g.Admits w (.int n hn) :=
        Fact.admits_meet_value (by simp) (by simp)
      rw [derived_of_length hv hLength, hBoth, hBoth]
      refine ⟨⟨hDeclared, hAllowed⟩, ?_⟩
      split
      · exact Fact.admits_top
      · exact hMeet
    · have hNone : ∀ l q, ¬ a.LengthOf l q v := fun l q h => hLength ⟨l, q, h⟩
      rw [derived_of_not_length hv hNone]
      exact Fact.admits_meet_stored hOver hOverSource hMeasurable hMeet

end State

-- ---------------------------------------------------------------------------
-- The step
-- ---------------------------------------------------------------------------

namespace Step

open State

variable {w : World} {H : Hierarchy} {σ : Session} {a b : Arena} {s t : State} {u v m : ValueId}
  {x : Concrete} {i : Variable} {ρ : ValueId → Concrete} {ctx : Context} {index : Nat}
  {anchor : Option Anchor} {isInitializer : Bool} {assigned array : Option ValueId}

/-- The fact on a variable that is declared to be possibly null tells as much, and the fact on a
length tells that it is not null. So an initial value needs no second look. -/
theorem storeInto_eq (hBack : a.Backward) (hv : a.get v = .var i) :
    storeInto a s v i u isInitializer = if i.descriptor.isVolatile then s else s.assign a v u := by
  unfold storeInto
  dsimp only
  generalize (if i.descriptor.isVolatile = true then s else s.assign a v u) = t
  refine if_neg fun hUntold => ?_
  rw [Bool.and_eq_true, Bool.and_eq_true, beq_iff_eq, beq_iff_eq] at hUntold
  obtain ⟨⟨-, hNullable⟩, hUnknown⟩ := hUntold
  by_cases hLength : ∃ l q, a.LengthOf l q v
  · obtain ⟨l, q, hLength⟩ := hLength
    rcases hBack.integral_fact (s := t) hLength with hEq | ⟨r, hEq⟩ <;> rw [hEq] at hUnknown <;>
      cases hUnknown
  · rw [hBack.fact_var hv, derived_of_not_length hv fun l q h => hLength ⟨l, q, h⟩] at hUnknown
    refine Fact.nullness_meet_nullable ?_ hUnknown
    rw [Arena.inherent, hv]
    exact hNullable

/-- **The destination is bound anew**: what is known of it allows the value, unless it is a length
that its object denies or null is lost; and the only relation of it is the new one. -/
structure Rebinds (w : World) (a : Arena) (s : State) (u : ValueId) (x : Concrete) (b : Arena)
    (t : State) (v : ValueId) : Prop where
  value : (t.fact b v).Admits w x ↔
    (∀ l q, a.LengthOf l q v → ((t.fact b q).lengthFact l).Admits w x) ∧
      (x = .null → ((a.inherent v).meet (s.fact a u)).Admits w .null)
  links : ∀ l ∈ t.links, l.mentions v = true →
    a.isVariable u = true ∧ l = if v < u then ⟨v, .eq, u⟩ else ⟨u, .eq, v⟩

/-- **The destination is passed over**: all that was known of it is known still. -/
structure PassesOver (a : Arena) (s : State) (b : Arena) (t : State) (v : ValueId) : Prop where
  fact : (s.fact a v).isLocal = false → t.fact b v = s.fact a v
  links : t.links = s.links

/-- The stacks have no part in this. -/
theorem Rebinds.same {s' t' : State} (h : Rebinds w a s u x b t v) (hs : s'.facts = s.facts)
    (ht : t'.facts = t.facts) (hLinks : t'.links = t.links) : Rebinds w a s' u x b t' v := by
  refine ⟨?_, hLinks ▸ h.links⟩
  simp only [fact_congr hs, fact_congr ht]
  exact h.value

theorem PassesOver.same {s' t' : State} (h : PassesOver a s b t v) (hs : s'.facts = s.facts)
    (ht : t'.facts = t.facts) (hs' : s'.links = s.links) (ht' : t'.links = t.links) :
    PassesOver a s' b t' v := by
  refine ⟨?_, ht'.trans (h.links.trans hs'.symm)⟩
  simp only [fact_congr hs, fact_congr ht]
  exact h.fact

/-- A write to a variable is no write to an element that is not known. -/
theorem flushElements_of_variable (hv : a.isVariable v = true) :
    flushElements a array v s = s := by
  unfold flushElements
  split
  · rfl
  · rw [hv, Bool.true_or, if_pos rfl]

section

variable (h : Carried w v x a s u b t m) (hv : a.get v = .var i)
include h hv

/-- **An assignment binds its destination anew**, whether or not the source escaped on the way. -/
theorem rebinds_assign (hDeclared : (a.inherent v).Admits w x)
    (hMeasurable : x = .null → (a.inherent v).Measurable w)
    (hOrders : ∀ o, x = .object o → w.Orders o) :
    Rebinds w a s u x b (t.assign b v m) v := by
  have hSize := Arena.lt_of_isVariable (Arena.isVariable_iff.mpr ⟨i, hv⟩)
  have hInherent := h.grows.inherent hSize
  constructor
  · rw [admits_assign_self_iff h.built ((h.grows.get hSize).trans hv) h.distinct
      (hInherent ▸ hDeclared) h.admits (fun hNull => hInherent ▸ hMeasurable hNull) hOrders,
      hInherent]
    refine and_congr ?_ (forall_congr' h.room)
    simp only [h.grows.lengthOf]
  · intro l hl hMentions
    rcases (mem_links_assign h.distinct).mp hl with ⟨hVariable, hNew⟩ | ⟨-, hFar⟩
    · have hSame := h.same hVariable
      rw [hSame] at hVariable hNew
      exact ⟨h.grows.isVariable.symm.trans hVariable, hNew⟩
    · rw [hFar v List.mem_cons_self] at hMentions
      cases hMentions

theorem rebinds_storeInto (hDeclared : (a.inherent v).Admits w x)
    (hMeasurable : x = .null → (a.inherent v).Measurable w)
    (hOrders : ∀ o, x = .object o → w.Orders o) (hKept : i.descriptor.isVolatile = false) :
    Rebinds w a s u x b (storeInto b t v i m isInitializer) v := by
  have hSize := Arena.lt_of_isVariable (Arena.isVariable_iff.mpr ⟨i, hv⟩)
  rw [storeInto_eq h.built.reached.coherent.1.backward ((h.grows.get hSize).trans hv), hKept]
  exact rebinds_assign h hv hDeclared hMeasurable hOrders

theorem passesOver_storeInto (hVolatile : i.descriptor.isVolatile = true) :
    PassesOver a s b (storeInto b t v i m isInitializer) v := by
  have hVariable := Arena.isVariable_iff.mpr ⟨i, hv⟩
  have hNone : ∀ l q, ¬ a.LengthOf l q v := by
    rintro l q ⟨j, hj, hLength, -⟩
    cases hv.symm.trans hj
    rw [hLength] at hVolatile
    cases hVolatile
  rw [storeInto_eq h.built.reached.coherent.1.backward
    ((h.grows.get (Arena.lt_of_isVariable hVariable)).trans hv), hVolatile]
  exact ⟨h.stays hNone, h.links⟩

end

/-- A value is stored after it has escaped, if at all. -/
theorem yields_store_carried (hBuilt : Built w.types σ.arena s) (hv : σ.arena.get v = .var i)
    (hNe : u ≠ v) (hAdmits : (s.fact σ.arena u).Admits w x)
    (hMeasurable : x = .null → (σ.arena.inherent u).Measurable w) :
    Yields (store v u isInitializer s) σ fun r τ => ∃ t m,
      Carried w v x σ.arena s u τ.arena t m ∧ r = storeInto τ.arena t v i m isInitializer := by
  have hVariable := Arena.isVariable_iff.mpr ⟨i, hv⟩
  refine (yields_store_of (P := Carried w v x σ.arena s u)
    (.start hBuilt hNe hAdmits hMeasurable) fun h => h.drop hVariable).mono ?_
  rintro r τ ⟨t, m, hCarried, rfl⟩
  refine ⟨t, m, hCarried, ?_⟩
  rw [Arena.varAt?, hv]
  rfl

/-- **An assignment binds its destination anew**, whatever was known of it, unless it is volatile:
then all that was known is known still. -/
theorem perform_assign_rebinds {source popped dest : ValueId} {rest : List ValueId}
    (hBuilt : Built w.types σ.arena s) (hρ : s.Satisfies w σ.arena ρ)
    (hStack : s.stack = source :: popped :: rest)
    (hDest : (if σ.arena.isVariable popped then popped else assigned.getD popped) = dest)
    (hv : σ.arena.get dest = .var i) (hNe : source ≠ dest)
    (hSource : Denotes w σ.arena ρ source x) (hDeclared : (σ.arena.inherent dest).Admits w x)
    (hMeasurable : x = .null →
      (σ.arena.inherent source).Measurable w ∧ (σ.arena.inherent dest).Measurable w)
    (hOrders : ∀ o, x = .object o → w.Orders o) :
    Yields (perform ctx index s (.assign assigned isInitializer array anchor)) σ fun items τ =>
      ∃ t, items = [next index t] ∧
        (i.descriptor.isVolatile = false → Rebinds w σ.arena s source x τ.arena t dest) ∧
        (i.descriptor.isVolatile = true → PassesOver σ.arena s τ.arena t dest) := by
  show Yields (assign index assigned isInitializer array anchor s) σ _
  unfold assign
  rw [pop_of_stack hStack, yields_bind, yields_pure]
  dsimp only
  rw [pop_of_stack rfl, yields_bind, yields_pure, yields_bind, yields_arena, yields_bind,
    yields_emit]
  dsimp only
  rw [hDest, if_neg hNe]
  -- the state without its operands tells the same
  have hAdmits : (State.fact σ.arena { s with stack := rest } source).Admits w x := by
    rw [fact_congr (t := { s with stack := rest }) (s := s) rfl]
    exact hSource.admits hρ
  have hPopped : Built w.types σ.arena { s with stack := rest } := hBuilt.same rfl rfl
  refine Yields.bind (yields_store_carried hPopped hv hNe hAdmits fun h => (hMeasurable h).1) ?_
  rintro r τ ⟨t, m, hCarried, rfl⟩
  have hVariable := hCarried.grows.isVariable.trans (Arena.isVariable_iff.mpr ⟨i, hv⟩)
  refine yields_pushed.bind ?_
  rintro _ υ ⟨rfl, hArena, -⟩
  rw [yields_bind, yields_arena, yields_pure, hArena, flushElements_of_variable hVariable]
  refine ⟨_, rfl, fun hKept => ?_, fun hVolatile => ?_⟩
  · exact (rebinds_storeInto hCarried hv hDeclared (fun h => (hMeasurable h).2) hOrders hKept).same
      rfl rfl rfl
  · exact (passesOver_storeInto hCarried hv hVolatile).same rfl rfl rfl rfl

-- ---------------------------------------------------------------------------
-- Two fields
-- ---------------------------------------------------------------------------

/-- Two static fields, the second of them volatile, and a constant. -/
def statics : Arena :=
  let first := (Arena.new.var (.field "f" true false false) none (.int .full)).2
  let second := (first.var (.field "g" true true false) none (.int .full)).2
  (second.int 7).2

/-- Both fields are known to be 5, and to be equal; the constant is to be assigned to one. -/
def fives (v : ValueId) : State :=
  let known := (State.initial.setFact statics 1 (.ofInt 5)).apply statics (.of statics 1 .eq 2)
  { known.state with stack := [3, v] }

/-- What is known of a field, and of what it is related to, after the constant was assigned. -/
def afterSeven (v : ValueId) : Option (List (Fact × List Link)) :=
  match perform usualContext 0 (fives v) (.assign none false none none) (.start statics) with
  | .ok items τ =>
    some (items.map fun it => (it.state.fact τ.arena v, it.state.links.toList))
  | .error _ _ => none

theorem evaluated_fives :
    statics.allVars = [1, 2] ∧
      statics.get 1 = .var ⟨.field "f" true false false, none, .int .full⟩ ∧
      statics.get 2 = .var ⟨.field "g" true true false, none, .int .full⟩ ∧
      statics.get 3 = .typed (.ofInt 7) ∧
      (fives 1).fact statics 1 = .ofInt 5 ∧ (fives 1).fact statics 2 = .ofInt 5 ∧
      (fives 1).links.toList = [⟨1, .eq, 2⟩] := by
  decide +kernel

theorem built_fives (v : ValueId) : Built plainWorld.types statics (fives v) := by
  refine .same (.apply _ (.store 1 (.ofInt 5) ?_ (Fact.over_of_info rfl) (Fact.formed_of_info rfl)))
    rfl rfl
  refine .intern _ (.intern _ (.intern _ .start ?_ (Fact.formed_of_info rfl)) ?_
    (Fact.formed_of_info rfl)) ⟨Fact.over_of_info rfl, nofun⟩ (Fact.formed_of_info rfl) <;>
    exact ⟨Fact.over_of_info rfl, by rintro y q ⟨⟩ ⟨⟩⟩

theorem satisfies_fives (v : ValueId) :
    (fives v).Satisfies plainWorld statics fun _ => .int 5 (by decide) := by
  obtain ⟨hVars, -, -, -, hFirst, hSecond, hLinks⟩ := evaluated_fives
  have hFive : (Fact.ofInt 5).Admits plainWorld (.int 5 (by decide)) :=
    Fact.admits_int_iff.mpr (Or.inr ⟨_, rfl, by decide⟩)
  refine ⟨fun {m} hm _ => ?_, fun _ _ _ hNone => (nomatch hNone), ?_⟩
  · rw [fact_congr (t := fives v) (s := fives 1) rfl]
    rw [← Arena.mem_allVars, hVars] at hm
    rcases List.mem_cons.mp hm with rfl | hm
    · rw [hFirst]
      exact hFive
    · rw [List.mem_singleton.mp hm, hSecond]
      exact hFive
  · intro l hl
    have hMem : l ∈ (fives 1).links.toList := hl
    rw [hLinks] at hMem
    rw [List.mem_singleton.mp hMem]
    exact Concrete.holds_eq_iff.mpr ⟨rfl, nofun⟩

/-- The first field is assigned to: it may be 7, and nothing relates it to the other one. -/
theorem perform_assign_rebinds_first :
    Yields (perform usualContext 0 (fives 1) (.assign none false none none)) (.start statics)
      fun items τ => ∃ t, items = [next 0 t] ∧
        (t.fact τ.arena 1).Admits plainWorld (.int 7 (by decide)) ∧
        ∀ l ∈ t.links, l.mentions 1 = false := by
  obtain ⟨hVars, hFirst, -, hSeven, -⟩ := evaluated_fives
  have hConstant : statics.isVariable 3 = false := by
    unfold Arena.isVariable Arena.varAt?
    rw [hSeven]
    rfl
  have hField : statics.isVariable 1 = true := Arena.mem_allVars.mp (hVars ▸ by decide)
  have hDenotes : Denotes plainWorld statics (fun _ => .int 5 (by decide)) 3
      (.int 7 (by decide)) := by
    refine .of_value hConstant ?_
    rw [Arena.inherent, hSeven]
    exact Fact.admits_int_iff.mpr (Or.inr ⟨_, rfl, by decide⟩)
  have hDeclared : (statics.inherent 1).Admits plainWorld (.int 7 (by decide)) := by
    rw [Arena.inherent, hFirst]
    exact Fact.admits_int_iff.mpr (Or.inr ⟨_, rfl, by decide⟩)
  have hRebinds : Yields (perform usualContext 0 (fives 1) (.assign none false none none))
      (.start statics) _ :=
    perform_assign_rebinds (built_fives 1) (satisfies_fives 1) rfl (if_pos hField) hFirst
      (by decide) hDenotes hDeclared (by simp) (by simp)
  refine hRebinds.mono ?_
  rintro items τ ⟨t, hItems, hBound, -⟩
  obtain ⟨hValue, hLinks⟩ := hBound rfl
  refine ⟨t, hItems, hValue.mpr ⟨?_, by simp⟩, fun l hl => ?_⟩
  · rintro l q ⟨j, hj, hLength, -⟩
    cases hFirst.symm.trans hj
    cases hLength
  · refine Bool.eq_false_iff.mpr fun hMentions => ?_
    have hVariable := (hLinks l hl hMentions).1
    exact Bool.false_ne_true (hConstant.symm.trans hVariable)

/-- **What was known of a volatile field is not forgotten**: after 7 was assigned it is known to be
5, and to be equal to the other field. -/
theorem volatile_is_not_forgotten :
    (fives 2).Satisfies plainWorld statics (fun _ => .int 5 (by decide)) ∧
      (statics.inherent 2).Admits plainWorld (.int 7 (by decide)) ∧
      afterSeven 2 = some [(.ofInt 5, [⟨1, .eq, 2⟩])] ∧
      ¬ (Fact.ofInt 5).Admits plainWorld (.int 7 (by decide)) := by
  refine ⟨satisfies_fives 2, ?_, by decide +kernel, ?_⟩
  · obtain ⟨-, -, hSecond, -⟩ := evaluated_fives
    rw [Arena.inherent, hSecond]
    exact Fact.admits_int_iff.mpr (Or.inr ⟨_, rfl, by decide⟩)
  · rintro ⟨n, hn, hEq, hMem⟩
    cases hEq
    revert hMem
    decide

/-- A variable for strings, and a value that is a class object or null. -/
def strings : Arena :=
  ((Arena.new.var (.localVar "x" false) none (.ofExactType .string .nullable)).2.typed
    (.ofExactType .classObject .nullable)).2

/-- **Null is lost**: a string is assigned a class object that may be null, and nothing is left. -/
theorem null_is_lost :
    (strings.inherent 1).Admits plainWorld .null ∧ (strings.inherent 2).Admits plainWorld .null ∧
      (State.initial.assign strings 1 2).fact strings 1 = .bottom := by
  have hEvaluated : strings.inherent 1 = .ofExactType .string .nullable ∧
      strings.inherent 2 = .ofExactType .classObject .nullable ∧
      (State.initial.assign strings 1 2).fact strings 1 = .bottom := by
    decide +kernel
  obtain ⟨hVariable, hSource, hLost⟩ := hEvaluated
  rw [hVariable, hSource]
  exact ⟨Fact.admits_null.mpr ⟨nofun, rfl⟩, Fact.admits_null.mpr ⟨nofun, rfl⟩, hLost⟩

end Step

end Pathwise
