import Pathwise.Proofs.Meets

/-!
# Meeting a fact again

A fact that is stored for a variable is met with the declaration of the variable when it is
read, also if it is itself a meet with the declaration, narrowed once more. That takes nothing
away: a bound met with what two meets left of it leaves that (`TypeBound.meet?_again`), as a type
that is no longer named has one below it that is. Facts do the same as long as the lengths that
they state are possible (`Fact.meet_again`).

An object that two facts admit is admitted by their meet if their bounds have one, whatever
its class is (`admits_meet_object_of`); that two bounds which allow a class have a meet depends on
the array types above the class. A bound that was made from types is the meet of itself with
a bound that says nothing (`TypeBound.Made.meet?_top`), so narrowing by facts without a bound
keeps all objects.

## Results

* `TypeBound.Tight.meet?_of_refines` — a bound met with one that refines it.
* `TypeBound.meet?_again`, `TypeBound.Made.meet?_top` — bounds met again.
* `Fact.meet_again`    — a fact met with what two meets left of it.
* `Fact.admits_absorb` — a value of a meet is in the meet with the meet.
-/

namespace Pathwise

-- ---------------------------------------------------------------------------
-- Bounds
-- ---------------------------------------------------------------------------

theorem TypeDesc.mayIntersect_comm (s t : TypeDesc) : s.mayIntersect t = t.mayIntersect s := by
  simp only [mayIntersect, Bool.or_comm, Bool.or_left_comm]

/-- A type above another one may intersect what that may, unless that is below it. -/
theorem Hierarchy.mayIntersect_above {H : Hierarchy} {s t u : TypeDesc} (hs : H.Declares s)
    (ht : H.Declares t) (hu : H.Declares u) (hst : s.isSubtypeOf t = true)
    (hMay : s.mayIntersect u = true) (hSame : s.isSubtypeOf u = true → s = u) :
    t.mayIntersect u = true := by
  simp only [TypeDesc.mayIntersect, Bool.or_eq_true, Bool.not_eq_true', Bool.or_eq_false_iff]
    at hMay ⊢
  rcases hMay with (hsu | hus) | ⟨⟨⟨hFinal, hFinal'⟩, hArray⟩, hArray'⟩
  · rw [← hSame hsu]
    exact Or.inl (Or.inr hst)
  · exact Or.inl (Or.inr (H.isSubtypeOf_trans hu hs ht hus hst))
  · -- what is above a type that is neither final nor an array is neither
    have hArrayT : t.isArray = false := by
      rw [← Bool.not_eq_true]
      intro h
      rw [H.isArray_of_isSubtypeOf hs ht h hst] at hArray
      cases hArray
    have hFinalT : t.isFinal = false := by
      rw [← Bool.not_eq_true]
      intro h
      rw [H.eq_of_final hs ht hArrayT h hst, h] at hFinal
      cases hFinal
    exact Or.inr ⟨⟨⟨hFinalT, hFinal'⟩, hArrayT⟩, hArray'⟩

namespace TypeBound

variable {H : Hierarchy} {b d e m k : TypeBound} {t : TypeDesc}

/-- Types with one of a set of minimal types below each of them add nothing to that. -/
theorem minimal_union_of_below {s u : OrdSet TypeDesc} (hs : ∀ t ∈ s, H.Declares t)
    (hu : ∀ t ∈ u, H.Declares t) (hMinimal : minimal u = u)
    (hBelow : ∀ t ∈ s, ∃ v ∈ u, v.isSubtypeOf t = true) : minimal (s.union u) = u := by
  have hMin : ∀ {t}, t ∈ u → ∀ v ∈ u, v.isSubtypeOf t = true → v = t := by
    intro t ht
    rw [← hMinimal] at ht
    exact (mem_minimal.mp ht).2
  refine OrdSet.ext_mem fun t => ⟨?_, ?_⟩
  · intro ht
    obtain ⟨hMem, hLeast⟩ := mem_minimal.mp ht
    rcases OrdSet.mem_union.mp hMem with hMem | hMem
    · obtain ⟨v, hv, hvt⟩ := hBelow t hMem
      rw [← hLeast v (OrdSet.mem_union.mpr (Or.inr hv)) hvt]
      exact hv
    · exact hMem
  · intro ht
    refine mem_minimal.mpr ⟨OrdSet.mem_union.mpr (Or.inr ht), fun x hx hxt => ?_⟩
    rcases OrdSet.mem_union.mp hx with hx | hx
    · -- a type of the set is between `x` and `t`, which is `t`
      obtain ⟨v, hv, hvx⟩ := hBelow x hx
      have hvt := H.isSubtypeOf_trans (hu v hv) (hs x hx) (hu t ht) hvx hxt
      rw [hMin ht v hv hvt] at hvx
      exact H.orderly.antisymm (hs x hx) (hu t ht) hxt hvx
    · exact hMin ht x hx hxt

theorem union_empty {s : OrdSet TypeDesc} : s.union ∅ = s := by
  refine OrdSet.ext_mem fun t => ?_
  rw [OrdSet.mem_union]
  exact or_iff_left OrdSet.not_mem_empty

/-- A bound that allows a class has a meet with the bound that names it. -/
theorem meet?_exactly (h : b.Allows t) : b.meet? (exactly t) = some (exactly t) := by
  refine (meet?_of_known (Or.inr rfl) ?_).mpr ⟨rfl, ?_, ?_⟩
  · rintro u (hu | hu)
    · exact (h.known u hu).symm
    · exact (Option.some.inj hu).symm
  · intro u hu
    exact h.within u ((OrdSet.mem_union.mp hu).resolve_right OrdSet.not_mem_empty)
  · intro u hu
    exact h.excluded u ((OrdSet.mem_union.mp hu).resolve_right OrdSet.not_mem_empty)

theorem exactly_meet?_top : (exactly t).meet? top = some (exactly t) := by
  refine (meet?_of_known (Or.inl rfl) ?_).mpr ⟨rfl, ?_, ?_⟩
  · rintro u (hu | hu)
    · exact (Option.some.inj hu).symm
    · cases hu
  · exact fun u hu => absurd ((OrdSet.mem_union.mp hu).elim id id) OrdSet.not_mem_empty
  · exact fun u hu => absurd ((OrdSet.mem_union.mp hu).elim id id) OrdSet.not_mem_empty

/-- A bound that knows no class, names minimal types only and does not contradict itself. -/
structure Tight (b : TypeBound) : Prop where
  known    : b.known? = none
  least    : minimal b.within = b.within
  separate : ∀ u ∈ b.within, ∀ v ∈ b.excluded, u.isSubtypeOf v = false
  together : ∀ u ∈ b.within, ∀ v ∈ b.within, u.mayIntersect v = true

/-- Below each type that `b` names there is one that `d` names, which excludes all that `b`
does. -/
structure Refines (d b : TypeBound) : Prop where
  below    : ∀ u ∈ b.within, ∃ v ∈ d.within, v.isSubtypeOf u = true
  excluded : ∀ v ∈ b.excluded, v ∈ d.excluded

theorem Refines.trans (hb : b.Over H) (hd : d.Over H) (he : e.Over H) (h : e.Refines d)
    (h' : d.Refines b) : e.Refines b := by
  refine ⟨fun u hu => ?_, fun v hv => h.excluded v (h'.excluded v hv)⟩
  obtain ⟨v, hv, hvu⟩ := h'.below u hu
  obtain ⟨x, hx, hxv⟩ := h.below v hv
  exact ⟨x, hx, H.isSubtypeOf_trans (he.within x hx) (hd.within v hv) (hb.within u hu) hxv hvu⟩

/-- **What a meet is** if neither side knows a class. -/
theorem tight_of_meet (hb : b.known? = none) (hd : d.known? = none) (hMeet : b.meet? d = some m) :
    m.Tight := by
  obtain ⟨hEq, hTest⟩ := (meet?_of_unknown hb hd).mp hMeet
  subst hEq
  refine ⟨rfl, OrdSet.ext_mem fun u => ?_, ?_, ?_⟩
  · rw [mem_minimal]
    exact and_iff_left_of_imp fun hu v hv => (mem_minimal.mp hu).2 v (mem_minimal.mp hv).1
  · exact fun u hu v hv => (hTest u (mem_minimal.mp hu).1).1 v hv
  · exact fun u hu v hv => (hTest u (mem_minimal.mp hu).1).2 v (mem_minimal.mp hv).1

theorem refines_of_meet (hOver : b.Over H) (hOver' : d.Over H) (hb : b.known? = none)
    (hd : d.known? = none) (hMeet : b.meet? d = some m) : m.Refines b := by
  obtain ⟨hEq, -⟩ := (meet?_of_unknown hb hd).mp hMeet
  subst hEq
  refine ⟨fun u hu => ?_, fun v hv => OrdSet.mem_union.mpr (Or.inl hv)⟩
  exact exists_minimal H.orderly (fun t ht => (OrdSet.mem_union.mp ht).elim (hOver.within t)
    (hOver'.within t)) (OrdSet.mem_union.mpr (Or.inl hu))

/-- **A bound met with one that refines it** leaves that. -/
theorem Tight.meet?_of_refines (hk : k.Tight) (hb : b.Over H) (hOver : k.Over H)
    (hKnown : b.known? = none) (hTogether : ∀ u ∈ b.within, ∀ v ∈ b.within,
      u.mayIntersect v = true) (h : k.Refines b) : b.meet? k = some k := by
  have hExcluded : b.excluded.union k.excluded = k.excluded := by
    refine OrdSet.ext_mem fun t => ?_
    rw [OrdSet.mem_union]
    exact or_iff_right_of_imp (h.excluded t)
  have hMin : ∀ {v}, v ∈ k.within → ∀ u ∈ k.within, u.isSubtypeOf v = true → u = v := by
    intro v hv
    rw [← hk.least] at hv
    exact (mem_minimal.mp hv).2
  -- a type of `b` may have what the type of `k` below it may have
  have hAcross : ∀ u ∈ b.within, ∀ v ∈ k.within, u.mayIntersect v = true := by
    intro u hu v hv
    obtain ⟨x, hx, hxu⟩ := h.below u hu
    exact H.mayIntersect_above (hOver.within x hx) (hb.within u hu) (hOver.within v hv) hxu
      (hk.together x hx v hv) (hMin hv x hx)
  refine (meet?_of_unknown hKnown hk.known).mpr ⟨?_, ?_⟩
  · rw [hExcluded, minimal_union_of_below hb.within hOver.within hk.least h.below, ← hk.known]
  · intro u hu
    rw [hExcluded]
    rcases OrdSet.mem_union.mp hu with hu | hu
    · constructor
      · intro v hv
        obtain ⟨x, hx, hxu⟩ := h.below u hu
        rw [← Bool.not_eq_true]
        intro huv
        have hxv := H.isSubtypeOf_trans (hOver.within x hx) (hb.within u hu)
          (hOver.excluded v hv) hxu huv
        rw [hk.separate x hx v hv] at hxv
        cases hxv
      · intro v hv
        exact (OrdSet.mem_union.mp hv).elim (hTogether u hu v) (hAcross u hu v)
    · refine ⟨hk.separate u hu, fun v hv => ?_⟩
      rcases OrdSet.mem_union.mp hv with hv | hv
      · rw [TypeDesc.mayIntersect_comm]
        exact hAcross v hv u hu
      · exact hk.together u hu v hv

/-- **A bound met again** with what two meets left of it leaves that. -/
theorem meet?_again (hb : b.Over H) (hd : d.Over H) (he : e.Over H) (hMeet : b.meet? d = some m)
    (hMeet' : m.meet? e = some k) : b.meet? k = some k := by
  have hm := over_meet hb hd hMeet
  have hk := over_meet hm he hMeet'
  rcases meet_cases hMeet' with ⟨t, -, -, rfl, -⟩ | ⟨hmKnown, heKnown, -⟩
  · -- the class that is known is allowed all the way
    have ht := hk.known t rfl
    obtain ⟨hmt, -⟩ := allows_of_meet ht hm he hMeet' (allows_exactly.mpr rfl)
    exact meet?_exactly (allows_of_meet ht hb hd hMeet hmt).1
  · rcases meet_cases hMeet with ⟨t, -, -, rfl, -⟩ | ⟨hbKnown, hdKnown, -⟩
    · cases hmKnown
    · have hTogether : ∀ u ∈ b.within, ∀ v ∈ b.within, u.mayIntersect v = true := by
        intro u hu v hv
        obtain ⟨-, hTest⟩ := (meet?_of_unknown hbKnown hdKnown).mp hMeet
        exact (hTest u (OrdSet.mem_union.mpr (Or.inl hu))).2 v (OrdSet.mem_union.mpr (Or.inl hv))
      have hRefines := (refines_of_meet hm he hmKnown heKnown hMeet').trans hb hm hk
        (refines_of_meet hb hd hbKnown hdKnown hMeet)
      exact (tight_of_meet hmKnown heKnown hMeet').meet?_of_refines hb hk hbKnown hTogether hRefines

/-- A bound is not changed by one that says nothing. -/
theorem Tight.meet?_top (h : b.Tight) : b.meet? top = some b := by
  refine (meet?_of_unknown h.known rfl).mpr ⟨?_, ?_⟩
  · show b = ⟨none, minimal (b.within.union ∅), b.excluded.union ∅⟩
    rw [union_empty, union_empty, h.least, ← h.known]
  · show ∀ u ∈ b.within.union ∅, (∀ v ∈ b.excluded.union ∅, u.isSubtypeOf v = false) ∧
      ∀ v ∈ b.within.union ∅, u.mayIntersect v = true
    rw [union_empty, union_empty]
    exact fun u hu => ⟨h.separate u hu, h.together u hu⟩

/-- A bound that names no types for its classes to be below is tight. -/
theorem tight_of_no_within (hKnown : b.known? = none) (hWithin : b.within = .empty) :
    b.Tight := by
  refine ⟨hKnown, by rw [hWithin]; rfl, ?_, ?_⟩ <;> rw [hWithin] <;> intro u hu
  · exact absurd hu OrdSet.not_mem_empty
  · exact absurd hu OrdSet.not_mem_empty

theorem meet?_top_of_meet (hMeet : b.meet? d = some m) : m.meet? top = some m := by
  rcases meet_cases hMeet with ⟨t, -, -, rfl, -⟩ | ⟨hb, hd, -⟩
  · exact exactly_meet?_top
  · exact (tight_of_meet hb hd hMeet).meet?_top

/-- **A bound met again** with what it left of another bound leaves that. -/
theorem meet?_absorb (hb : b.Over H) (hd : d.Over H) (hMeet : b.meet? d = some m) :
    b.meet? m = some m :=
  meet?_again hb hd over_top hMeet (meet?_top_of_meet hMeet)

/-- The bounds that there are: those made from types, and their meets. -/
inductive Made : TypeBound → Prop where
  | top : Made .top
  | exactly (u : TypeDesc) : Made (.exactly u)
  | subtypeOf (u : TypeDesc) : Made (.subtypeOf u)
  | notSubtypeOf (u : TypeDesc) : Made (.notSubtypeOf u)
  | meet {b₁ b₂ b₃ : TypeBound} : Made b₁ → Made b₂ → b₁.meet? b₂ = some b₃ → Made b₃

/-- **A bound that was made** is not changed by one that says nothing. -/
theorem Made.meet?_top (h : b.Made) : b.meet? .top = some b := by
  cases h with
  | top => exact (tight_of_no_within rfl rfl).meet?_top
  | exactly t => exact exactly_meet?_top
  | subtypeOf t =>
    unfold TypeBound.subtypeOf
    split
    · exact (tight_of_no_within rfl rfl).meet?_top
    · split
      · exact exactly_meet?_top
      · -- the only type is minimal, and meets itself
        have hOnly : ∀ u ∈ (OrdSet.empty.insert t : OrdSet TypeDesc), u = t := fun u hu =>
          (OrdSet.mem_insert.mp hu).resolve_right OrdSet.not_mem_empty
        refine Tight.meet?_top ⟨rfl, OrdSet.ext_mem fun u => ?_,
          fun _ _ _ hv => absurd hv OrdSet.not_mem_empty, ?_⟩
        · rw [mem_minimal]
          exact and_iff_left_of_imp fun hu v hv _ => (hOnly v hv).trans (hOnly u hu).symm
        · intro u hu v hv
          rw [hOnly u hu, hOnly v hv, TypeDesc.mayIntersect, TypeDesc.isSubtypeOf_refl]
          rfl
  | notSubtypeOf t => exact (tight_of_no_within rfl rfl).meet?_top
  | meet _ _ hMeet => exact meet?_top_of_meet hMeet

/-- A bound that was made is not changed by itself. -/
theorem Made.meet?_self (h : b.Made) (hb : b.Over H) : b.meet? b = some b :=
  meet?_absorb hb over_top h.meet?_top

end TypeBound

-- ---------------------------------------------------------------------------
-- References
-- ---------------------------------------------------------------------------

theorem Nullness.meet?_again {m n k p j : Nullness} (h : m.meet? n = some k)
    (h' : k.meet? p = some j) : m.meet? j = some j := by
  cases m <;> cases n <;> cases h <;> cases p <;> cases h' <;> rfl

theorem Mutability.meet?_again {m n k p j : Mutability} (h : m.meet? n = some k)
    (h' : k.meet? p = some j) : m.meet? j = some j := by
  cases m <;> cases n <;> cases h <;> cases p <;> cases h' <;> rfl

theorem meetKnown?_again {α : Type} [DecidableEq α] {a b c d e : Option α}
    (h : meetKnown? a b = some c) (h' : meetKnown? c d = some e) : meetKnown? a e = some e := by
  cases a with
  | none => rfl
  | some x =>
    have hc : c = some x := (eq_some_of_meetKnown? h x).mpr (Or.inl rfl)
    have he : e = some x := (eq_some_of_meetKnown? h' x).mpr (Or.inl hc)
    rw [he, meetKnown?, if_pos rfl]

namespace RefInfo

variable {H : Hierarchy} {r s t e k : RefInfo}

/-- **A statement on a reference met again** with what two meets left of it. -/
theorem meet?_again (hr : r.bound.Over H) (hs : s.bound.Over H) (he : e.bound.Over H)
    (hMeet : r.meet? s = some t) (hMeet' : t.meet? e = some k) (hk : k.nullness ≠ .null) :
    r.meet? k = some k := by
  obtain ⟨n', l', hNullness', hLiteral', ⟨-, -, rfl⟩ | ⟨hn', b', m', hBound', hMutability', rfl⟩⟩ :=
    meet?_eq_some.mp hMeet'
  · exact absurd rfl hk
  · obtain ⟨n, l, hNullness, hLiteral, ⟨rfl, -, rfl⟩ | ⟨hn, b, m, hBound, hMutability, rfl⟩⟩ :=
      meet?_eq_some.mp hMeet
    · -- a null reference stays one
      exact absurd rfl (Nullness.meet?_eq_some hNullness' hn').1
    · refine meet?_eq_some.mpr ⟨n', l', Nullness.meet?_again hNullness hNullness',
        meetKnown?_again hLiteral hLiteral', Or.inr ⟨hn', b', m',
          TypeBound.meet?_again hr hs he hBound hBound',
          Mutability.meet?_again hMutability hMutability', ?_⟩⟩
      have hLocal : (r.isLocal || (r.isLocal || s.isLocal || e.isLocal)) =
          (r.isLocal || s.isLocal || e.isLocal) := by
        cases r.isLocal <;> rfl
      show _ = (⟨n', b', r.isLocal || (r.isLocal || s.isLocal || e.isLocal), m', l'⟩ : RefInfo)
      rw [hLocal]

/-- What a meet leaves is not changed by a statement that says nothing. -/
theorem meet?_unknown_of_meet (hMeet : r.meet? s = some t) (ht : t.nullness ≠ .null) :
    t.meet? (.ofNullness .unknown) = some t := by
  obtain ⟨n, l, -, -, ⟨-, -, rfl⟩ | ⟨hn, b, m, hBound, -, rfl⟩⟩ := meet?_eq_some.mp hMeet
  · exact absurd rfl ht
  · refine meet?_eq_some.mpr ⟨n, l, by cases n <;> rfl, by cases l <;> rfl,
      Or.inr ⟨hn, b, m, TypeBound.meet?_top_of_meet hBound, by cases m <;> rfl, ?_⟩⟩
    show _ = (⟨n, b, (r.isLocal || s.isLocal) || false, m, l⟩ : RefInfo)
    rw [Bool.or_false]

/-- A statement whose bound was made is not changed by meeting it with itself. -/
theorem meet?_self (hOver : r.bound.Over H) (hMade : r.bound.Made) (hNull : r.nullness ≠ .null) :
    r.meet? r = some r := by
  have hNullness : r.nullness.meet? r.nullness = some r.nullness := by cases r.nullness <;> rfl
  have hLiteral : meetKnown? r.literal r.literal = some r.literal := by
    cases r.literal with
    | none => rfl
    | some l => exact if_pos rfl
  have hMutability : r.mutability.meet? r.mutability = some r.mutability := by
    cases r.mutability <;> rfl
  exact meet?_eq_some.mpr ⟨_, _, hNullness, hLiteral, Or.inr ⟨hNull, _, _,
    hMade.meet?_self hOver, hMutability, by rw [Bool.or_self]⟩⟩

end RefInfo

-- ---------------------------------------------------------------------------
-- Facts
-- ---------------------------------------------------------------------------

namespace Fact

variable {w : World} {d f g : Fact} {r s t e : RefInfo} {al al' bl el el' sl sl' : Option Fact}
  {o : Nat} {x : Concrete}

/-- The lengths that a fact states are possible, also if there is no object. -/
def Measurable (w : World) : Fact → Prop
  | ref _ al sl => (∃ n, AdmitsLength w al n) ∧ ∃ n, AdmitsLength w sl n
  | _ => True

theorem isBottom_eq_false_of_meet (h : (f.meet g).isBottom = false) : f.isBottom = false := by
  cases f with
  | bottom => rw [bottom_meet] at h; cases h
  | _ => rfl

theorem ne_bottom_of_isBottom (h : f.isBottom = false) : f ≠ bottom := by
  rintro rfl
  cases h

/-- What is left of a Boolean is the one that is known, if one is. -/
theorem exists_bool_of_meet {b : Option Bool} (h : ((bool b).meet g).isBottom = false) :
    ∃ c, (bool b).meet g = bool c ∧ (b = none ∨ c = b) := by
  cases g with
  | top => exact ⟨b, meet_top, Or.inr rfl⟩
  | bool c =>
    rw [meet_bool] at h ⊢
    split at h
    · rename_i e he
      refine ⟨e, rfl, ?_⟩
      cases b with
      | none => exact Or.inl rfl
      | some x => exact Or.inr ((eq_some_of_meetKnown? he x).mpr (Or.inl rfl))
    · cases h
  | _ => cases h

/-- What is left of a double is the one that is known, if one is. -/
theorem exists_double_of_meet {c : DoubleFact} (h : ((double c).meet g).isBottom = false) :
    ∃ e, (double c).meet g = double e ∧ (c = .any ∨ e = c) := by
  cases g with
  | top => exact ⟨c, meet_top, Or.inr rfl⟩
  | double e =>
    cases hMeet : c.meet? e with
    | none =>
      rw [meet, hMeet] at h
      cases h
    | some k =>
      refine ⟨k, by rw [meet, hMeet], ?_⟩
      cases c <;> cases e <;> simp_all [DoubleFact.meet?]
  | _ => cases h

/-- What is left of a nonempty range is one, with members of it. -/
theorem exists_int_of_meet {r : Range} (hr : r.isEmpty = false)
    (h : ((int r).meet g).isBottom = false) :
    ∃ t, (int r).meet g = int t ∧ t.isEmpty = false ∧ ∀ n ∈ t, n ∈ r := by
  cases g with
  | top => exact ⟨r, meet_top, hr, fun _ hn => hn⟩
  | int s =>
    rw [meet_int, ofRange] at h ⊢
    split at h
    · cases h
    · rename_i hSome
      refine ⟨r.meet s, if_neg hSome, eq_false_of_ne_true hSome, fun n hn => ?_⟩
      exact (Range.mem_meet.mp hn).1
  | _ => cases h

/-- What is left of the empty range was met with nothing. -/
theorem eq_top_of_meet_empty {r : Range} (hr : r.isEmpty = true)
    (h : ((int r).meet g).isBottom = false) : g = top := by
  cases g with
  | top => rfl
  | int s =>
    have hNone : (r.meet s).isEmpty = true := by
      by_contra hSome
      have hMem := (Range.mem_meet.mp (Range.lo_mem (eq_false_of_ne_true hSome))).1
      rw [Range.isEmpty_eq_false hMem] at hr
      cases hr
    rw [meet_int, ofRange, if_pos hNone] at h
    cases h
  | _ => cases h

theorem meet_again_bool {b : Option Bool} (h : (((bool b).meet f).meet g).isBottom = false) :
    (bool b).meet (((bool b).meet f).meet g) = ((bool b).meet f).meet g := by
  obtain ⟨c, hc, hbc⟩ := exists_bool_of_meet (isBottom_eq_false_of_meet h)
  rw [hc] at h ⊢
  obtain ⟨e, he, hce⟩ := exists_bool_of_meet h
  rw [he]
  rcases hbc with rfl | rfl
  · rfl
  · rcases hce with rfl | rfl
    · rfl
    · cases e <;> simp [meet_bool, meetKnown?]

theorem meet_again_double {c : DoubleFact} (h : (((double c).meet f).meet g).isBottom = false) :
    (double c).meet (((double c).meet f).meet g) = ((double c).meet f).meet g := by
  obtain ⟨e, he, hce⟩ := exists_double_of_meet (isBottom_eq_false_of_meet h)
  rw [he] at h ⊢
  obtain ⟨k, hk, hek⟩ := exists_double_of_meet h
  rw [hk]
  rcases hce with rfl | rfl
  · rfl
  · rcases hek with rfl | rfl
    · rfl
    · cases k <;> simp [meet, DoubleFact.meet?]

theorem meet_again_int {r : Range} (hr : r.isEmpty = false)
    (h : (((int r).meet f).meet g).isBottom = false) :
    (int r).meet (((int r).meet f).meet g) = ((int r).meet f).meet g := by
  obtain ⟨s, hs, hsEmpty, hsr⟩ := exists_int_of_meet hr (isBottom_eq_false_of_meet h)
  rw [hs] at h ⊢
  obtain ⟨t, ht, htEmpty, hts⟩ := exists_int_of_meet hsEmpty h
  have hMeet : r.meet t = t := Range.ext_mem fun n => by
    rw [Range.mem_meet]
    exact and_iff_right_of_imp fun hn => hsr n (hts n hn)
  rw [ht, meet_int, hMeet, ofRange, htEmpty]
  rfl

/-- What is met with a fact that admits an integer. -/
theorem meet_again_of_admits {n : Int} {hn : n ∈ Range.full} (hd : d.Admits w (.int n hn))
    (h : ((d.meet f).meet g).isBottom = false) :
    d.meet ((d.meet f).meet g) = (d.meet f).meet g := by
  rcases admits_int_iff.mp hd with rfl | ⟨r, rfl, hMem⟩
  · exact top_meet
  · exact meet_again_int (Range.isEmpty_eq_false hMem) h

/-- A length that is not stated is as one of which nothing is known. -/
theorem meetLength_some : meetLength (some f) al = some (f.meet (al.getD top)) := by
  cases al with
  | none => rw [Option.getD_none, meet_top]; rfl
  | some g => rfl

theorem meetLength_none : meetLength al none = al := by cases al <;> rfl

/-- What is left of a possible length is no contradiction, also if no other is stated. -/
theorem isBottom_of_lengthFails (hf : f.isBottom = false)
    (h : lengthFails al (meetLength (some f) al) = false) :
    (f.meet (al.getD top)).isBottom = false := by
  cases al with
  | none => rw [Option.getD_none, meet_top]; exact hf
  | some g => exact h

/-- **A possible length met again** with what two meets left of it. -/
theorem meetLength_again {n : Option Int} (h : AdmitsLength w al n)
    (hFails : lengthFails bl (meetLength al bl) = false)
    (hFails' : lengthFails sl (meetLength (meetLength al bl) sl) = false) :
    meetLength al (meetLength (meetLength al bl) sl) = meetLength (meetLength al bl) sl ∧
      lengthFails (meetLength (meetLength al bl) sl)
        (meetLength (meetLength al bl) sl) = false := by
  cases al with
  | none =>
    refine ⟨rfl, ?_⟩
    cases sl with
    | none => cases bl <;> exact hFails
    | some g => cases bl <;> exact hFails'
  | some d =>
    obtain ⟨m, hm, -, hd⟩ := h
    have hFirst := isBottom_of_lengthFails (isBottom_of_admits hd) hFails
    rw [meetLength_some] at hFails' ⊢
    have hSecond := isBottom_of_lengthFails hFirst hFails'
    rw [meetLength_some, meetLength_some, Option.getD_some, meet_again_of_admits hd hSecond]
    exact ⟨rfl, hSecond⟩

/-- A fact that admits an integer is not changed by meeting it with itself. -/
theorem meet_self_of_admits {n : Int} {hn : n ∈ Range.full} (hd : d.Admits w (.int n hn)) :
    d.meet d = d := by
  -- met with nothing twice, the fact is met with itself
  have hTop : (d.meet top).meet top = d := by rw [meet_top, meet_top]
  have hSelf := meet_again_of_admits (f := top) (g := top) hd
    (by rw [hTop]; exact isBottom_of_admits hd)
  rwa [hTop] at hSelf

/-- Nor is a statement on a length that there can be. -/
theorem meetLength_self {n : Option Int} (h : AdmitsLength w al n) : meetLength al al = al := by
  cases al with
  | none => rfl
  | some d =>
    obtain ⟨m, hm, -, hd⟩ := h
    exact congrArg some (meet_self_of_admits hd)

theorem lengthFails_self {n : Option Int} (h : AdmitsLength w al n) :
    lengthFails al (meetLength al al) = false := by
  rw [meetLength_self h]
  cases al with
  | none => rfl
  | some d =>
    obtain ⟨m, hm, -, hd⟩ := h
    exact isBottom_of_admits hd

/-- What can be met with a reference is one, or is not known at all. -/
theorem eq_top_or_ref (h : ((ref r al sl).meet g).isBottom = false) :
    g = top ∨ ∃ s al' sl', g = ref s al' sl' := by
  cases g with
  | top => exact Or.inl rfl
  | ref s al' sl' => exact Or.inr ⟨s, al', sl', rfl⟩
  | _ => cases h

/-- A meet of references that is null leaves null to both. -/
theorem admits_null_of_meet_eq (h : (ref r al sl).meet (ref s al' sl') = null) :
    (ref r al sl).Admits w .null := by
  have hMeet : (ref r al sl).meet (ref s al' sl') ≠ bottom := by
    rw [h]
    exact nofun
  obtain ⟨t, hrs, ⟨hNull, -⟩ | ⟨hNull, hEq⟩⟩ := meet_ref_cases hMeet
  · exact admits_null.mpr (RefInfo.admitsNull_of_meet?_null hrs hNull).1
  · rw [hEq] at h
    injection h with hInfo
    exact absurd (congrArg RefInfo.nullness hInfo) hNull

/-- What a reference leaves of null is null. -/
theorem null_meet_of_isBottom (h : (null.meet (ref s al' sl')).isBottom = false) :
    null.meet (ref s al' sl') = null := by
  obtain ⟨k, htk, ⟨-, hEq⟩ | ⟨hk, -⟩⟩ := meet_ref_cases (ne_bottom_of_isBottom h)
  · exact hEq
  · obtain ⟨n, l, hNullness, -, ⟨-, -, rfl⟩ | ⟨hn, b, m, -, -, rfl⟩⟩ :=
      RefInfo.meet?_eq_some.mp htk
    · exact absurd rfl hk
    · exact absurd rfl (Nullness.meet?_eq_some hNullness hn).1

/-- A reference to nothing but an object of unknown nullness says nothing. -/
theorem meet_unknownRef (h : ((ref r al sl).meet (ref s al' sl')).isBottom = false) :
    ((ref r al sl).meet (ref s al' sl')).meet unknownRef = (ref r al sl).meet (ref s al' sl') := by
  obtain ⟨t, hrs, ⟨-, hEq⟩ | ⟨ht, hEq⟩⟩ := meet_ref_cases (ne_bottom_of_isBottom h)
  · rw [hEq]
    exact null_meet_of_isBottom rfl
  · rw [hEq, unknownRef, ofNullness, meet_ref, RefInfo.meet?_unknown_of_meet hrs ht]
    dsimp only
    rw [if_neg ht, meetLength_none, meetLength_none]
    rfl

/-- What is left of a reference is one. -/
theorem exists_ref_of_meet (h : ((ref r al sl).meet g).isBottom = false) :
    ∃ t tl tl', (ref r al sl).meet g = ref t tl tl' := by
  rcases eq_top_or_ref h with rfl | ⟨s, al', sl', rfl⟩
  · exact ⟨r, al, sl, meet_top⟩
  · obtain ⟨t, -, ⟨-, hEq⟩ | ⟨-, hEq⟩⟩ := meet_ref_cases (ne_bottom_of_isBottom h)
    · exact ⟨_, none, none, hEq⟩
    · exact ⟨t, _, _, hEq⟩

section

variable {H : Hierarchy}

/-- **A reference met again** with what two meets left of it. -/
theorem meet_again_ref (hr : r.bound.Over H) (hs : s.bound.Over H) (he : e.bound.Over H)
    (hMeasurable : (ref r al sl).Measurable w)
    (h : (((ref r al sl).meet (ref s al' sl')).meet (ref e el el')).isBottom = false) :
    (ref r al sl).meet (((ref r al sl).meet (ref s al' sl')).meet (ref e el el')) =
      ((ref r al sl).meet (ref s al' sl')).meet (ref e el el') := by
  obtain ⟨⟨n, hal⟩, m, hsl⟩ := hMeasurable
  have hFirst := ne_bottom_of_isBottom (isBottom_eq_false_of_meet h)
  obtain ⟨t, hrs, ⟨-, hEq⟩ | ⟨ht, hEq⟩⟩ := meet_ref_cases hFirst
  · -- null is left by the first meet, and so it is by the second
    have hAdmits : (ref r al sl).Admits w .null := admits_null_of_meet_eq hEq
    rw [hEq] at h ⊢
    rw [null_meet_of_isBottom h, meet_null hAdmits]
  · obtain ⟨hArray, hString⟩ := lengthFails_of_meet_ref hFirst hrs ht
    rw [hEq] at h ⊢
    have hSecond := ne_bottom_of_isBottom h
    obtain ⟨k, htk, ⟨-, hEq'⟩ | ⟨hk, hEq'⟩⟩ := meet_ref_cases hSecond
    · have ht' := admits_null.mp (admits_null_of_meet_eq (w := w) hEq')
      have hAdmits : (ref r al sl).Admits w .null :=
        admits_null.mpr ((RefInfo.admitsNull_meet?_iff hrs ht).mp ht').1
      rw [hEq', meet_null hAdmits]
    · obtain ⟨hArray', hString'⟩ := lengthFails_of_meet_ref hSecond htk hk
      obtain ⟨hSame, hFails⟩ := meetLength_again hal hArray hArray'
      obtain ⟨hSame', hFails'⟩ := meetLength_again hsl hString hString'
      rw [hEq', meet_ref, RefInfo.meet?_again hr hs he hrs htk hk]
      dsimp only
      rw [if_neg hk, hSame, hSame', hFails, hFails']
      rfl

/-- A reference met again with what one meet left of it. -/
theorem meet_absorb_ref (hr : r.bound.Over H) (hs : s.bound.Over H)
    (hMeasurable : (ref r al sl).Measurable w)
    (h : ((ref r al sl).meet (ref s al' sl')).isBottom = false) :
    (ref r al sl).meet ((ref r al sl).meet (ref s al' sl')) =
      (ref r al sl).meet (ref s al' sl') := by
  have hAgain := meet_again_ref hr hs TypeBound.over_top hMeasurable
    (by rw [← ofNullness, ← unknownRef, meet_unknownRef h]; exact h)
  rw [← ofNullness, ← unknownRef, meet_unknownRef h] at hAgain
  exact hAgain

/-- **A fact met again** with what two meets left of it, if that is not the fact itself: as
long as the lengths that it states are possible, all of it is left. -/
theorem meet_again (hd : d.Over H) (hf : f.Over H) (hg : g.Over H) (hMeasurable : d.Measurable w)
    (h : ((d.meet f).meet g).isBottom = false) :
    (d.meet f).meet g = d ∨ d.meet ((d.meet f).meet g) = (d.meet f).meet g := by
  have hFirst := isBottom_eq_false_of_meet h
  cases d with
  | top => exact Or.inr top_meet
  | bottom =>
    rw [bottom_meet] at hFirst
    cases hFirst
  | bool b => exact Or.inr (meet_again_bool h)
  | double c => exact Or.inr (meet_again_double h)
  | int r =>
    cases hr : r.isEmpty with
    | false => exact Or.inr (meet_again_int hr h)
    | true =>
      have hf := eq_top_of_meet_empty hr hFirst
      subst hf
      rw [meet_top] at h ⊢
      have hg := eq_top_of_meet_empty hr h
      subst hg
      exact Or.inl meet_top
  | ref r al sl =>
    rcases eq_top_or_ref hFirst with rfl | ⟨s, al', sl', rfl⟩
    · rw [meet_top] at h ⊢
      rcases eq_top_or_ref h with rfl | ⟨e, el, el', rfl⟩
      · exact Or.inl meet_top
      · exact Or.inr (meet_absorb_ref hd hg hMeasurable h)
    · refine Or.inr ?_
      obtain ⟨t, tl, tl', hEq⟩ := exists_ref_of_meet hFirst
      rcases eq_top_or_ref (hEq ▸ h) with rfl | ⟨e, el, el', rfl⟩
      · rw [meet_top] at h ⊢
        exact meet_absorb_ref hd hf hMeasurable h
      · exact meet_again_ref hd hf hg hMeasurable h

end

/-- **A value of a meet** is in the meet of one side with it. Null asks for lengths that are
possible; a fact that says nothing would leave a bound of any form. -/
theorem admits_absorb (hf : f.Over w.types) (hg : g.Over w.types) (hTop : g ≠ top)
    (hMeasurable : x = .null → f.Measurable w) (h : (f.meet g).Admits w x) :
    (f.meet (f.meet g)).Admits w x := by
  obtain ⟨hfx, -⟩ := admits_of_meet hf hg h
  cases f with
  | ref r al sl =>
    have hSome := isBottom_of_admits h
    obtain ⟨s, al', sl', rfl⟩ := (eq_top_or_ref hSome).resolve_left hTop
    -- the lengths that the fact states are possible, as there is an object or by assumption
    have hMeasured : (ref r al sl).Measurable w := by
      rcases isRef_of_admits_meet h with rfl | ⟨o, rfl⟩
      · exact hMeasurable rfl
      · obtain ⟨-, hal, hsl⟩ := admits_object.mp hfx
        exact ⟨⟨_, hal⟩, _, hsl⟩
    rw [meet_absorb_ref hf hg hMeasured hSome]
    exact h
  | _ => exact (admits_meet_of_not_refs (Or.inl rfl)).mpr ⟨hfx, h⟩

end Fact

end Pathwise
