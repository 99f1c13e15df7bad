import Pathwise.Proofs.Hierarchy
import Pathwise.Type.Bound

/-!
# What type bounds say

A bound allows a class that is the known one, if that is given, is below every type of
`within` and below none of `excluded`. The meet of two bounds allows exactly the classes
that both allow. It fails only where no class is left, or where a class is left that is
below incomparable array types (`Hierarchy.OrdersArrays`).

The meet drops the types of `within` that have another one below them. This loses
nothing because a finite set of types has a minimal one below each member
(`exists_minimal`).

## Results

* `exists_meet?`      — bounds that allow a class have a meet, if arrays are in a row.
* `allows_meet`       — a class that both bounds allow is allowed by their meet.
* `allows_of_meet`    — the meet allows nothing else.
* `allows_of_covers`  — a bound that covers another one allows what that allows.
-/

namespace Pathwise

namespace TypeBound

/-- The bound allows a class. -/
structure Allows (b : TypeBound) (c : TypeDesc) : Prop where
  known    : ∀ t, b.known? = some t → c = t
  within   : ∀ t ∈ b.within, c.isSubtypeOf t = true
  excluded : ∀ t ∈ b.excluded, c.isSubtypeOf t = false

/-- The bound names only types of a hierarchy. -/
structure Over (H : Hierarchy) (b : TypeBound) : Prop where
  known    : ∀ t, b.known? = some t → H.Declares t
  within   : ∀ t ∈ b.within, H.Declares t
  excluded : ∀ t ∈ b.excluded, H.Declares t

/-- The bound names only types of a set. -/
structure NamesIn (D : TypeDesc → Prop) (b : TypeBound) : Prop where
  known    : ∀ t, b.known? = some t → D t
  within   : ∀ t ∈ b.within, D t
  excluded : ∀ t ∈ b.excluded, D t

variable {H : Hierarchy} {D : TypeDesc → Prop} {b d m : TypeBound} {c t : TypeDesc}

theorem Over.namesIn (h : b.Over H) : b.NamesIn H.Declares := ⟨h.known, h.within, h.excluded⟩

theorem NamesIn.over (h : b.NamesIn H.Declares) : b.Over H := ⟨h.known, h.within, h.excluded⟩

theorem allows_top : top.Allows c :=
  ⟨nofun, fun _ h => absurd h OrdSet.not_mem_empty,
    fun _ h => absurd h OrdSet.not_mem_empty⟩

theorem namesIn_top : top.NamesIn D :=
  ⟨nofun, fun _ h => absurd h OrdSet.not_mem_empty,
    fun _ h => absurd h OrdSet.not_mem_empty⟩

theorem over_top : top.Over H := namesIn_top.over

theorem allows_exactly : (exactly t).Allows c ↔ c = t := by
  constructor
  · intro h
    exact h.known t rfl
  · rintro rfl
    refine ⟨fun t h => Option.some.inj h, ?_, ?_⟩
    · exact fun _ h => absurd h OrdSet.not_mem_empty
    · exact fun _ h => absurd h OrdSet.not_mem_empty

theorem namesIn_exactly (ht : D t) : (exactly t).NamesIn D := by
  refine ⟨?_, fun _ h => absurd h OrdSet.not_mem_empty, fun _ h => absurd h OrdSet.not_mem_empty⟩
  intro u hu
  cases hu
  exact ht

theorem over_exactly (ht : H.Declares t) : (exactly t).Over H := (namesIn_exactly ht).over

theorem namesIn_subtypeOf (ht : D t) : (subtypeOf t).NamesIn D := by
  unfold subtypeOf
  split
  · exact namesIn_top
  · split
    · exact namesIn_exactly ht
    · refine ⟨namesIn_top.known, ?_, namesIn_top.excluded⟩
      intro u hu
      rcases OrdSet.mem_insert.mp hu with rfl | hu
      · exact ht
      · exact absurd hu OrdSet.not_mem_empty

theorem over_subtypeOf (ht : H.Declares t) : (subtypeOf t).Over H := (namesIn_subtypeOf ht).over

theorem namesIn_notSubtypeOf (ht : D t) : (notSubtypeOf t).NamesIn D := by
  refine ⟨nofun, fun _ h => absurd h OrdSet.not_mem_empty, ?_⟩
  intro u hu
  rcases OrdSet.mem_insert.mp hu with rfl | hu
  · exact ht
  · exact absurd hu OrdSet.not_mem_empty

theorem over_notSubtypeOf (ht : H.Declares t) : (notSubtypeOf t).Over H :=
  (namesIn_notSubtypeOf ht).over

theorem Over.mostSpecific (h : b.Over H) (ht : b.mostSpecific? = some t) : H.Declares t := by
  unfold mostSpecific? at ht
  cases hKnown : b.known? with
  | some u =>
    rw [hKnown] at ht
    exact h.known t (hKnown.trans ht)
  | none =>
    rw [hKnown] at ht
    exact h.within t (List.mem_of_mem_head? ht)

-- ---------------------------------------------------------------------------
-- Minimal types
-- ---------------------------------------------------------------------------

theorem mem_minimal {s : OrdSet TypeDesc} :
    t ∈ minimal s ↔ t ∈ s ∧ ∀ u ∈ s, u.isSubtypeOf t = true → u = t := by
  rw [minimal, OrdSet.mem_filter]
  refine and_congr_right fun _ => ?_
  rw [Bool.not_eq_true', OrdSet.any, List.any_eq_false]
  refine forall_congr' fun u => ?_
  refine imp_congr_right fun _ => ?_
  rw [Bool.and_eq_true, decide_eq_true_eq, not_and]
  tauto

/-- **Below each type of a list there is a minimal one.** A type that is added is minimal
itself, or has a minimal one of the list below it. -/
theorem exists_minimal_of_mem (hD : TypeDesc.Orderly D) (l : List TypeDesc) (hl : ∀ u ∈ l, D u) :
    ∀ t ∈ l, ∃ m ∈ l, m.isSubtypeOf t = true ∧ ∀ u ∈ l, u.isSubtypeOf m = true → u = m := by
  induction l with
  | nil => simp
  | cons x xs ih =>
    have hx := hl x List.mem_cons_self
    have hxs : ∀ u ∈ xs, D u := fun u hu => hl u (List.mem_cons_of_mem _ hu)
    -- a minimal type of the tail is minimal, or `x` is below it and minimal
    have hLift : ∀ m ∈ xs, (∀ u ∈ xs, u.isSubtypeOf m = true → u = m) →
        ∃ m' ∈ x :: xs, m'.isSubtypeOf m = true ∧
          ∀ u ∈ x :: xs, u.isSubtypeOf m' = true → u = m' := by
      intro m hm hMin
      by_cases hxm : x.isSubtypeOf m = true
      · refine ⟨x, List.mem_cons_self, hxm, ?_⟩
        intro u hu hux
        rcases List.mem_cons.mp hu with rfl | hu
        · rfl
        · have hum := hD.trans (hxs u hu) hx (hxs m hm) hux hxm
          rw [hMin u hu hum] at hux ⊢
          exact hD.antisymm (hxs m hm) hx hux hxm
      · refine ⟨m, List.mem_cons_of_mem _ hm, TypeDesc.isSubtypeOf_refl m, ?_⟩
        intro u hu hum
        rcases List.mem_cons.mp hu with rfl | hu
        · exact absurd hum hxm
        · exact hMin u hu hum
    intro t ht
    rcases List.mem_cons.mp ht with rfl | ht
    · by_cases hBelow : ∃ u ∈ xs, u.isSubtypeOf t = true
      · obtain ⟨u, hu, hut⟩ := hBelow
        obtain ⟨m, hm, hmu, hMin⟩ := ih hxs u hu
        obtain ⟨m', hm', hmm, hMin'⟩ := hLift m hm hMin
        refine ⟨m', hm', ?_, hMin'⟩
        have hmt := hD.trans (hxs m hm) (hxs u hu) hx hmu hut
        exact hD.trans (hl m' hm') (hxs m hm) hx hmm hmt
      · refine ⟨t, List.mem_cons_self, TypeDesc.isSubtypeOf_refl t, ?_⟩
        intro u hu hut
        rcases List.mem_cons.mp hu with rfl | hu
        · rfl
        · exact absurd ⟨u, hu, hut⟩ hBelow
    · obtain ⟨m, hm, hmt, hMin⟩ := ih hxs t ht
      obtain ⟨m', hm', hmm, hMin'⟩ := hLift m hm hMin
      exact ⟨m', hm', hD.trans (hl m' hm') (hxs m hm) (hxs t ht) hmm hmt, hMin'⟩

theorem exists_minimal {s : OrdSet TypeDesc} (hD : TypeDesc.Orderly D) (hs : ∀ u ∈ s, D u)
    (ht : t ∈ s) : ∃ m ∈ minimal s, m.isSubtypeOf t = true := by
  obtain ⟨m, hm, hmt, hMin⟩ := exists_minimal_of_mem hD s.toList hs t ht
  exact ⟨m, mem_minimal.mpr ⟨hm, hMin⟩, hmt⟩

-- ---------------------------------------------------------------------------
-- Meets
-- ---------------------------------------------------------------------------

/-- The meet with a known class fails if the class is not allowed by the rest. -/
theorem pinned_eq_some {within excluded : OrdSet TypeDesc} :
    (if within.all t.isSubtypeOf && !excluded.any t.isSubtypeOf then some (exactly t) else none) =
      some m ↔
    m = exactly t ∧ (∀ u ∈ within, t.isSubtypeOf u = true) ∧
      ∀ u ∈ excluded, t.isSubtypeOf u = false := by
  have hTest : (within.all t.isSubtypeOf && !excluded.any t.isSubtypeOf) = true ↔
      (∀ u ∈ within, t.isSubtypeOf u = true) ∧ ∀ u ∈ excluded, t.isSubtypeOf u = false := by
    rw [Bool.and_eq_true, OrdSet.all, List.all_eq_true, Bool.not_eq_true', OrdSet.any,
      List.any_eq_false]
    simp only [Bool.not_eq_true]
    rfl
  constructor
  · intro h
    split at h
    · rename_i hPass
      exact ⟨(Option.some.inj h).symm, hTest.mp hPass⟩
    · cases h
  · rintro ⟨rfl, hPass⟩
    rw [if_pos (hTest.mpr hPass)]

/-- The meet of bounds of which one knows the class, or both know the same one. -/
theorem meet?_of_known (ht : b.known? = some t ∨ d.known? = some t)
    (hOne : ∀ u, b.known? = some u ∨ d.known? = some u → u = t) :
    b.meet? d = some m ↔
      m = exactly t ∧ (∀ u ∈ b.within.union d.within, t.isSubtypeOf u = true) ∧
        ∀ u ∈ b.excluded.union d.excluded, t.isSubtypeOf u = false := by
  rw [← pinned_eq_some]
  unfold meet?
  cases hb : b.known? with
  | some s =>
    obtain rfl := hOne s (Or.inl hb)
    cases hd : d.known? with
    | some u =>
      obtain rfl := hOne u (Or.inr hd)
      dsimp only
      rw [if_pos rfl]
    | none => rfl
  | none =>
    cases hd : d.known? with
    | some u =>
      obtain rfl := hOne u (Or.inr hd)
      rfl
    | none =>
      rw [hb, hd] at ht
      rcases ht with ht | ht <;> cases ht

/-- Bounds that have a meet do not know different classes. -/
theorem eq_of_meet? {s : TypeDesc} (hMeet : b.meet? d = some m)
    (hb : b.known? = some s) (hd : d.known? = some t) : s = t := by
  by_contra hNe
  rw [meet?, hb, hd] at hMeet
  dsimp only at hMeet
  rw [if_neg hNe] at hMeet
  cases hMeet

/-- The meet of bounds that know no class. -/
theorem meet?_of_unknown (hb : b.known? = none) (hd : d.known? = none) :
    b.meet? d = some m ↔
      m = ⟨none, minimal (b.within.union d.within), b.excluded.union d.excluded⟩ ∧
        ∀ u ∈ b.within.union d.within,
          (∀ v ∈ b.excluded.union d.excluded, u.isSubtypeOf v = false) ∧
          ∀ v ∈ b.within.union d.within, u.mayIntersect v = true := by
  have hTest : ((b.within.union d.within).any fun s =>
      (b.excluded.union d.excluded).any s.isSubtypeOf ||
        (b.within.union d.within).any (!s.mayIntersect ·)) = false ↔
      ∀ u ∈ b.within.union d.within,
        (∀ v ∈ b.excluded.union d.excluded, u.isSubtypeOf v = false) ∧
        ∀ v ∈ b.within.union d.within, u.mayIntersect v = true := by
    rw [OrdSet.any, List.any_eq_false]
    refine forall_congr' fun u => imp_congr_right fun _ => ?_
    rw [Bool.not_eq_true, Bool.or_eq_false_iff, OrdSet.any, OrdSet.any, List.any_eq_false,
      List.any_eq_false]
    simp only [Bool.not_eq_true, Bool.not_eq_false']
    rfl
  rw [meet?, hb, hd]
  dsimp only
  constructor
  · intro h
    split at h
    · cases h
    · rename_i hPass
      exact ⟨(Option.some.inj h).symm, hTest.mp (eq_false_of_ne_true hPass)⟩
  · rintro ⟨rfl, hPass⟩
    rw [hTest.mpr hPass]
    rfl

/-- **What the meet of two bounds is**: exactly the known class if there is one, and else
the minimal types of both and all that are excluded. -/
theorem meet_cases (hMeet : b.meet? d = some m) :
    (∃ t, (b.known? = some t ∨ d.known? = some t) ∧
      (∀ u, b.known? = some u ∨ d.known? = some u → u = t) ∧ m = exactly t ∧
      (∀ u ∈ b.within.union d.within, t.isSubtypeOf u = true) ∧
      ∀ u ∈ b.excluded.union d.excluded, t.isSubtypeOf u = false) ∨
    (b.known? = none ∧ d.known? = none ∧
      m = ⟨none, minimal (b.within.union d.within), b.excluded.union d.excluded⟩) := by
  by_cases hSome : ∃ t, b.known? = some t ∨ d.known? = some t
  · obtain ⟨t, ht⟩ := hSome
    have hOne : ∀ u, b.known? = some u ∨ d.known? = some u → u = t := by
      rintro u (hu | hu) <;> rcases ht with ht | ht
      · exact Option.some.inj (hu.symm.trans ht)
      · exact eq_of_meet? hMeet hu ht
      · exact (eq_of_meet? hMeet ht hu).symm
      · exact Option.some.inj (hu.symm.trans ht)
    exact Or.inl ⟨t, ht, hOne, (meet?_of_known ht hOne).mp hMeet⟩
  · have hb : b.known? = none := Option.eq_none_iff_forall_ne_some.mpr fun t ht =>
      hSome ⟨t, Or.inl ht⟩
    have hd : d.known? = none := Option.eq_none_iff_forall_ne_some.mpr fun t ht =>
      hSome ⟨t, Or.inr ht⟩
    exact Or.inr ⟨hb, hd, ((meet?_of_unknown hb hd).mp hMeet).1⟩

/-- A class that both bounds allow is allowed by their meet, if they have one. -/
theorem allows_meet? (hMeet : b.meet? d = some m) (hb : b.Allows c) (hd : d.Allows c) :
    m.Allows c := by
  rcases meet_cases hMeet with ⟨t, ht, -, rfl, -⟩ | ⟨-, -, rfl⟩
  · exact allows_exactly.mpr (ht.elim (hb.known t) (hd.known t))
  · refine ⟨nofun, ?_, ?_⟩
    · intro u hu
      exact (OrdSet.mem_union.mp (mem_minimal.mp hu).1).elim (hb.within u) (hd.within u)
    · intro u hu
      exact (OrdSet.mem_union.mp hu).elim (hb.excluded u) (hd.excluded u)

/-- **Bounds that allow a class have a meet**, unless they name array types that are not in a
row and no class. -/
theorem exists_meet? (hc : H.Declares c) (hb : b.Over H) (hd : d.Over H) (hbc : b.Allows c)
    (hdc : d.Allows c) (hArrays : b.known? = none → d.known? = none →
      ∀ s ∈ b.within.union d.within, ∀ t ∈ b.within.union d.within, s.isArray = true →
        t.isArray = true → s.isSubtypeOf t = true ∨ t.isSubtypeOf s = true) :
    ∃ m, b.meet? d = some m := by
  have hWithin : ∀ u ∈ b.within.union d.within, c.isSubtypeOf u = true ∧ H.Declares u := by
    intro u hu
    rcases OrdSet.mem_union.mp hu with hu | hu
    · exact ⟨hbc.within u hu, hb.within u hu⟩
    · exact ⟨hdc.within u hu, hd.within u hu⟩
  have hExcluded : ∀ u ∈ b.excluded.union d.excluded,
      c.isSubtypeOf u = false ∧ H.Declares u := by
    intro u hu
    rcases OrdSet.mem_union.mp hu with hu | hu
    · exact ⟨hbc.excluded u hu, hb.excluded u hu⟩
    · exact ⟨hdc.excluded u hu, hd.excluded u hu⟩
  have hKnown : ∀ u, b.known? = some u ∨ d.known? = some u → u = c := by
    rintro u (hu | hu)
    · exact (hbc.known u hu).symm
    · exact (hdc.known u hu).symm
  by_cases hSome : b.known? = some c ∨ d.known? = some c
  · refine ⟨exactly c, (meet?_of_known hSome hKnown).mpr ⟨rfl, ?_, ?_⟩⟩
    · exact fun u hu => (hWithin u hu).1
    · exact fun u hu => (hExcluded u hu).1
  · have hNone : b.known? = none ∧ d.known? = none := by
      constructor
      · cases hEq : b.known? with
        | none => rfl
        | some u => exact absurd (Or.inl (hKnown u (Or.inl hEq) ▸ hEq)) hSome
      · cases hEq : d.known? with
        | none => rfl
        | some u => exact absurd (Or.inr (hKnown u (Or.inr hEq) ▸ hEq)) hSome
    refine ⟨_, (meet?_of_unknown hNone.1 hNone.2).mpr ⟨rfl, ?_⟩⟩
    intro u hu
    obtain ⟨hcu, hDeclares⟩ := hWithin u hu
    constructor
    · intro v hv
      obtain ⟨hcv, hDeclares'⟩ := hExcluded v hv
      rw [← Bool.not_eq_true]
      intro huv
      rw [H.isSubtypeOf_trans hc hDeclares hDeclares' hcu huv] at hcv
      cases hcv
    · -- `c` is below both, so they are not taken to be disjoint
      intro v hv
      obtain ⟨hcv, hDeclares'⟩ := hWithin v hv
      exact H.mayIntersect_of_common hc hDeclares hDeclares'
        (hArrays hNone.1 hNone.2 u hu v hv) hcu hcv

/-- **A class that both bounds allow is allowed by their meet.** -/
theorem allows_meet (hc : H.Declares c) (hOrders : H.OrdersArrays c) (hb : b.Over H) (hd : d.Over H)
    (hbc : b.Allows c) (hdc : d.Allows c) : ∃ m, b.meet? d = some m ∧ m.Allows c := by
  have hWithin : ∀ u ∈ b.within.union d.within, H.Declares u ∧ c.isSubtypeOf u = true := by
    intro u hu
    rcases OrdSet.mem_union.mp hu with hu | hu
    · exact ⟨hb.within u hu, hbc.within u hu⟩
    · exact ⟨hd.within u hu, hdc.within u hu⟩
  obtain ⟨m, hMeet⟩ := exists_meet? hc hb hd hbc hdc fun _ _ s hs t ht hsArray htArray =>
    hOrders s t (hWithin s hs).1 (hWithin t ht).1 hsArray htArray (hWithin s hs).2 (hWithin t ht).2
  exact ⟨m, hMeet, allows_meet? hMeet hbc hdc⟩

/-- **A class that the meet allows is allowed by both bounds.** -/
theorem allows_of_meet (hc : H.Declares c) (hb : b.Over H) (hd : d.Over H)
    (hMeet : b.meet? d = some m) (hm : m.Allows c) : b.Allows c ∧ d.Allows c := by
  have hUnion : (∀ u, b.known? = some u ∨ d.known? = some u → c = u) ∧
      (∀ u ∈ b.within.union d.within, c.isSubtypeOf u = true) ∧
      ∀ u ∈ b.excluded.union d.excluded, c.isSubtypeOf u = false := by
    rcases meet_cases hMeet with ⟨t, -, hOne, rfl, hWithin, hExcluded⟩ | ⟨hb', hd', rfl⟩
    · obtain rfl : c = t := allows_exactly.mp hm
      exact ⟨fun u hu => (hOne u hu).symm, hWithin, hExcluded⟩
    · refine ⟨?_, ?_, hm.excluded⟩
      · rintro u (hu | hu)
        · rw [hb'] at hu
          cases hu
        · rw [hd'] at hu
          cases hu
      · intro u hu
        have hDeclares : ∀ v ∈ b.within.union d.within, H.Declares v := by
          intro v hv
          rcases OrdSet.mem_union.mp hv with hv | hv
          · exact hb.within v hv
          · exact hd.within v hv
        -- the meet keeps only the minimal types, one of which is below `u`
        obtain ⟨v, hv, hvu⟩ := exists_minimal H.orderly hDeclares hu
        have hDeclaresV := hDeclares v (mem_minimal.mp hv).1
        exact H.isSubtypeOf_trans hc hDeclaresV (hDeclares u hu) (hm.within v hv) hvu
  obtain ⟨hKnown, hWithin, hExcluded⟩ := hUnion
  constructor
  · exact ⟨fun t ht => hKnown t (Or.inl ht),
      fun t ht => hWithin t (OrdSet.mem_union.mpr (Or.inl ht)),
      fun t ht => hExcluded t (OrdSet.mem_union.mpr (Or.inl ht))⟩
  · exact ⟨fun t ht => hKnown t (Or.inr ht),
      fun t ht => hWithin t (OrdSet.mem_union.mpr (Or.inr ht)),
      fun t ht => hExcluded t (OrdSet.mem_union.mpr (Or.inr ht))⟩

/-- The meet names only types that the bounds name. -/
theorem namesIn_meet? (hb : b.NamesIn D) (hd : d.NamesIn D) (hMeet : b.meet? d = some m) :
    m.NamesIn D := by
  rcases meet_cases hMeet with ⟨t, ht, -, rfl, -⟩ | ⟨-, -, rfl⟩
  · exact namesIn_exactly (ht.elim (hb.known t) (hd.known t))
  · refine ⟨nofun, ?_, ?_⟩
    · intro t ht
      rcases OrdSet.mem_union.mp (mem_minimal.mp ht).1 with ht | ht
      · exact hb.within t ht
      · exact hd.within t ht
    · intro t ht
      rcases OrdSet.mem_union.mp ht with ht | ht
      · exact hb.excluded t ht
      · exact hd.excluded t ht

theorem over_meet (hb : b.Over H) (hd : d.Over H) (hMeet : b.meet? d = some m) : m.Over H :=
  (namesIn_meet? hb.namesIn hd.namesIn hMeet).over

-- ---------------------------------------------------------------------------
-- Inclusion
-- ---------------------------------------------------------------------------

/-- **When a bound covers another one**: what it says is said of a class that is known, or follows
from something that the other one says. -/
theorem covers_iff : b.covers d = true ↔
    (b.known? = none ∨ b.known? = d.known?) ∧
    (∀ t ∈ b.within, (∃ e, d.known? = some e ∧ e.isSubtypeOf t = true) ∨
      d.known? = none ∧ ∃ u ∈ d.within, u.isSubtypeOf t = true) ∧
    ∀ t ∈ b.excluded, (∃ u ∈ d.excluded, t.isSubtypeOf u = true) ∨
      ∃ e, d.known? = some e ∧ e.isSubtypeOf t = false := by
  unfold covers
  simp only [Bool.and_eq_true, Bool.or_eq_true, Option.isNone_iff_eq_none, decide_eq_true_eq,
    OrdSet.all, OrdSet.any, List.all_eq_true, List.any_eq_true, and_assoc]
  cases d.known? with
  | none => simp [OrdSet.mem_def]
  | some e => simp [OrdSet.mem_def]

/-- **A bound that covers another one** allows every class that the other one does. -/
theorem allows_of_covers (hD : TypeDesc.Orderly D) (hc : D c) (hb : b.NamesIn D) (hd : d.NamesIn D)
    (hCovers : b.covers d = true) (h : d.Allows c) : b.Allows c := by
  obtain ⟨hKnown, hWithin, hExcluded⟩ := covers_iff.mp hCovers
  constructor
  · intro t ht
    rcases hKnown with hNone | hSame
    · rw [hNone] at ht
      cases ht
    · exact h.known t (hSame ▸ ht)
  · intro t ht
    rcases hWithin t ht with ⟨e, he, hBelow⟩ | ⟨-, u, hu, hut⟩
    · rw [h.known e he]
      exact hBelow
    · exact hD.trans hc (hd.within u hu) (hb.within t ht) (h.within u hu) hut
  · intro t ht
    rcases hExcluded t ht with ⟨u, hu, htu⟩ | ⟨e, he, hOut⟩
    · -- a class below `t` would be below an excluded one
      rw [← Bool.not_eq_true]
      intro hct
      have hcu := hD.trans hc (hb.excluded t ht) (hd.excluded u hu) hct htu
      rw [h.excluded u hu] at hcu
      cases hcu
    · rw [h.known e he]
      exact hOut

/-- **Of a class that is known** nothing is missed: a bound covers it if it allows it. -/
theorem covers_exactly_iff : b.covers (exactly t) = true ↔ b.Allows t := by
  have hKnown : (exactly t).known? = some t := rfl
  have hNone : ∀ u, u ∉ (exactly t).excluded := fun _ => OrdSet.not_mem_empty
  rw [covers_iff, hKnown]
  constructor
  · rintro ⟨hSame, hWithin, hExcluded⟩
    refine ⟨fun u hu => ?_, fun u hu => ?_, fun u hu => ?_⟩
    · rcases hSame with hSame | hSame
      · rw [hSame] at hu
        cases hu
      · rw [hSame] at hu
        exact Option.some.inj hu
    · rcases hWithin u hu with ⟨e, he, hBelow⟩ | ⟨hFalse, -⟩
      · cases he
        exact hBelow
      · cases hFalse
    · rcases hExcluded u hu with ⟨v, hv, -⟩ | ⟨e, he, hOut⟩
      · exact absurd hv (hNone v)
      · cases he
        exact hOut
  · intro h
    refine ⟨?_, fun u hu => Or.inl ⟨t, rfl, h.within u hu⟩,
      fun u hu => Or.inr ⟨t, rfl, h.excluded u hu⟩⟩
    cases hEq : b.known? with
    | none => exact Or.inl rfl
    | some u => exact Or.inr (congrArg some (h.known u hEq).symm)

/-- A bound that says nothing but what two others say covers their meet. -/
theorem covers_meet?_of_subset {p : TypeBound} (hD : TypeDesc.Orderly D) (hb : b.NamesIn D)
    (hd : d.NamesIn D) (hMeet : b.meet? d = some m)
    (hKnown : ∀ u, p.known? = some u → b.known? = some u ∨ d.known? = some u)
    (hWithin : ∀ u ∈ p.within, u ∈ b.within.union d.within)
    (hExcluded : ∀ u ∈ p.excluded, u ∈ b.excluded.union d.excluded) : p.covers m = true := by
  rcases meet_cases hMeet with ⟨t, -, hOne, rfl, hBelow, hOut⟩ | ⟨hb', hd', rfl⟩
  · exact covers_exactly_iff.mpr ⟨fun u hu => (hOne u (hKnown u hu)).symm,
      fun u hu => hBelow u (hWithin u hu), fun u hu => hOut u (hExcluded u hu)⟩
  · have hDeclared : ∀ u ∈ b.within.union d.within, D u := fun u hu =>
      (OrdSet.mem_union.mp hu).elim (hb.within u) (hd.within u)
    refine covers_iff.mpr ⟨Or.inl ?_, fun u hu => Or.inr ⟨rfl, ?_⟩, fun u hu => Or.inl ⟨u, ?_⟩⟩
    · refine Option.eq_none_iff_forall_ne_some.mpr fun u hu => ?_
      rcases hKnown u hu with hu | hu
      · rw [hb'] at hu
        cases hu
      · rw [hd'] at hu
        cases hu
    · exact exists_minimal hD hDeclared (hWithin u hu)
    · exact ⟨hExcluded u hu, TypeDesc.isSubtypeOf_refl u⟩

/-- **Bounds cover their meet.** -/
theorem covers_meet? (hD : TypeDesc.Orderly D) (hb : b.NamesIn D) (hd : d.NamesIn D)
    (hMeet : b.meet? d = some m) : b.covers m = true ∧ d.covers m = true := by
  constructor
  · refine covers_meet?_of_subset hD hb hd hMeet (fun _ => Or.inl) ?_ ?_
    · exact fun u hu => OrdSet.mem_union.mpr (Or.inl hu)
    · exact fun u hu => OrdSet.mem_union.mpr (Or.inl hu)
  · refine covers_meet?_of_subset hD hb hd hMeet (fun _ => Or.inr) ?_ ?_
    · exact fun u hu => OrdSet.mem_union.mpr (Or.inr hu)
    · exact fun u hu => OrdSet.mem_union.mpr (Or.inr hu)

end TypeBound

end Pathwise
