import Pathwise.Proofs.Feasibility
import Pathwise.Proofs.Forms

/-!
# Meets of facts in normal form

The facts that an analysis makes have a normal form: a range has members, a null reference says
nothing else, only a reference that is not null is a constant, the lengths stated of an object are
ranges, and a bound was made from types. On these, `meet` is the intersection that it is meant to
be. It does not matter which fact is met with which, and a fact that was met before is not met to
any effect again.

Both fail without the form: of two stated lengths only the right one is looked at for a
contradiction, and `meet` puts a bound into normal form that was in none.

That meeting a fact again changes nothing is not a matter of sets of types alone. The meet drops a
type that has another one below it, and the fact that is met again brings it back; it is dropped
once more, since what made it superfluous is there still (`TypeBound.meet?_absorb`).

## Results

* `Fact.Normal`        — the normal form.
* `Fact.normal_meet`   — meets are in normal form.
* `Fact.meet_comm_of_normal`, `Fact.meet_idem` — a meet is that of its sides in any order; a fact
  met with itself is unchanged.
* `Fact.meet_intersects` — meets of facts in normal form are intersections.
-/

namespace Pathwise

-- ---------------------------------------------------------------------------
-- The order of the sides
-- ---------------------------------------------------------------------------

theorem Range.meet_comm (r s : Range) : r.meet s = s.meet r :=
  ext_mem fun n => by rw [mem_meet, mem_meet, and_comm]

theorem Range.meet_self (r : Range) : r.meet r = r :=
  ext_mem fun n => by rw [mem_meet, and_self]

theorem Nullness.meet?_comm (m n : Nullness) : m.meet? n = n.meet? m := by
  cases m <;> cases n <;> rfl

theorem Mutability.meet?_comm (m n : Mutability) : m.meet? n = n.meet? m := by
  cases m <;> cases n <;> rfl

theorem meetKnown?_comm {α : Type} [DecidableEq α] (a b : Option α) :
    meetKnown? a b = meetKnown? b a := by
  cases a with
  | none => cases b <;> rfl
  | some x =>
    cases b with
    | none => rfl
    | some y =>
      simp only [meetKnown?]
      by_cases hSame : x = y
      · rw [hSame]
      · rw [if_neg hSame, if_neg (Ne.symm hSame)]

theorem DoubleFact.meet?_comm (c d : DoubleFact) : c.meet? d = d.meet? c := by
  cases c with
  | const x =>
    cases d with
    | const y =>
      by_cases hSame : x = y
      · rw [hSame]
      · simp [meet?, hSame, Ne.symm hSame]
    | _ => rfl
  | _ => cases d <;> rfl

namespace TypeBound

variable {H : Hierarchy} {b d : TypeBound}

theorem union_comm (s t : OrdSet TypeDesc) : s.union t = t.union s :=
  OrdSet.ext_mem fun u => by rw [OrdSet.mem_union, OrdSet.mem_union, or_comm]

/-- **The order of two bounds** does not matter for their meet. -/
theorem meet?_comm (b d : TypeBound) : b.meet? d = d.meet? b := by
  unfold meet?
  rw [union_comm d.within, union_comm d.excluded]
  cases hb : b.known? with
  | none => cases d.known? <;> rfl
  | some s =>
    cases hd : d.known? with
    | none => rfl
    | some t =>
      dsimp only
      by_cases hSame : s = t
      · rw [hSame]
      · rw [if_neg hSame, if_neg (Ne.symm hSame)]

/-- **A bound that was made** names minimal types only, and none beside a class that is known. -/
theorem Made.least (h : b.Made) :
    (∀ s ∈ b.within, ∀ t ∈ b.within, s.isSubtypeOf t = true → s = t) ∧
      (b.known?.isSome → b.within = ∅) := by
  rcases meet_cases h.meet?_top with ⟨t, -, -, hEq, -⟩ | ⟨hUnknown, -, hEq⟩
  · rw [hEq]
    exact ⟨fun s hs => absurd hs OrdSet.not_mem_empty, fun _ => rfl⟩
  · have hLeast : b.within = minimal (b.within.union ∅) := congrArg within hEq
    refine ⟨fun s hs t ht hst => ?_, fun hKnown => ?_⟩
    · rw [hLeast, union_empty] at ht
      exact (mem_minimal.mp ht).2 s hs hst
    · rw [hUnknown] at hKnown
      cases hKnown

end TypeBound

theorem RefInfo.meet?_comm (r s : RefInfo) : r.meet? s = s.meet? r := by
  unfold meet?
  rw [Nullness.meet?_comm, meetKnown?_comm, TypeBound.meet?_comm, Mutability.meet?_comm, Bool.or_comm]

-- ---------------------------------------------------------------------------
-- Normal forms
-- ---------------------------------------------------------------------------

namespace Fact

variable {w : World} {H : Hierarchy} {f g : Fact} {r s t : RefInfo} {al al' sl sl' : Option Fact}
  {rel : Relation}

/-- A length is stated, if at all, by a range with members. -/
inductive NormalLength : Option Fact → Prop where
  | none : NormalLength none
  | some {r : Range} : r.isEmpty = false → NormalLength (some (int r))

/-- **The normal form of facts**, over a hierarchy. -/
inductive Normal (H : Hierarchy) : Fact → Prop where
  | bottom : Normal H Fact.bottom
  | top : Normal H Fact.top
  | bool {b : Option Bool} : Normal H (Fact.bool b)
  /-- A range has members. -/
  | int {r : Range} : r.isEmpty = false → Normal H (Fact.int r)
  | double {d : DoubleFact} : Normal H (Fact.double d)
  /-- A null reference says nothing else. -/
  | null : Normal H Fact.null
  /-- A constant is not null, and the bound was made from types. -/
  | ref {r : RefInfo} {al sl : Option Fact} : r.nullness ≠ .null →
      (r.literal.isSome → r.nullness = .notNull) → r.bound.Made → r.bound.Over H →
      NormalLength al → NormalLength sl → Normal H (Fact.ref r al sl)

theorem Normal.formed (h : f.Normal H) : f.Formed := by
  cases h with
  | ref _ _ hMade _ _ _ => exact hMade
  | null => exact formed_ofNullness
  | _ => exact formed_of_info rfl

theorem Normal.over (h : f.Normal H) : f.Over H := by
  cases h with
  | ref _ _ _ hOver _ _ => exact hOver
  | null => exact over_ofNullness
  | _ => exact over_of_info rfl

theorem Normal.lengths (h : (Fact.ref r al sl).Normal H) : NormalLength al ∧ NormalLength sl := by
  cases h with
  | ref _ _ _ _ hArray hString => exact ⟨hArray, hString⟩
  | null => exact ⟨.none, .none⟩

theorem Normal.constant (h : (Fact.ref r al sl).Normal H) (hLiteral : r.literal.isSome) :
    r.nullness = .notNull := by
  cases h with
  | ref _ hConstant _ _ _ _ => exact hConstant hLiteral
  | null => cases hLiteral

theorem normal_ofRange {r : Range} : (ofRange r).Normal H := by
  rw [ofRange]
  split
  · exact .bottom
  · rename_i hSome
    exact .int (eq_false_of_ne_true hSome)

/-- **Declared types** are in normal form. -/
theorem normal_ofType {t : TypeDesc} {n : Nullness} (ht : H.Declares t) (hn : n ≠ .null) :
    (ofType t n).Normal H := by
  unfold ofType
  split
  · unfold ofPrimitive
    split
    · exact .bool
    · exact .int rfl
    · exact .int rfl
    · exact .int rfl
    · exact .int rfl
    · exact .int rfl
    · exact .double
    · exact .double
    · exact .top
  · exact .ref hn nofun (.subtypeOf t) (TypeBound.over_subtypeOf ht) .none .none

/-- **A meet of stated lengths** does not depend on their order, also where it fails. -/
theorem NormalLength.meet_comm (h : NormalLength al) (h' : NormalLength al') :
    meetLength al al' = meetLength al' al ∧
      lengthFails al' (meetLength al al') = lengthFails al (meetLength al' al) := by
  cases h with
  | none => cases h' <;> exact ⟨rfl, rfl⟩
  | some hr =>
    cases h' with
    | none => exact ⟨rfl, rfl⟩
    | some hs =>
      simp only [meetLength, meet_int, Range.meet_comm, lengthFails, Option.isSome_some, and_self]

theorem NormalLength.meet (h : NormalLength al) (h' : NormalLength al')
    (hFails : lengthFails al' (meetLength al al') = false) : NormalLength (meetLength al al') := by
  cases h with
  | none => rwa [meetLength]
  | some hr =>
    cases h' with
    | none => exact .some hr
    | some hs =>
      simp only [meetLength, meet_int, ofRange] at hFails ⊢
      split
      · rename_i hNone
        rw [if_pos hNone] at hFails
        cases hFails
      · rename_i hSome
        exact .some (eq_false_of_ne_true hSome)

theorem NormalLength.meet_self (h : NormalLength al) :
    meetLength al al = al ∧ lengthFails al al = false := by
  cases h with
  | none => exact ⟨rfl, rfl⟩
  | @some r hr =>
    refine ⟨?_, rfl⟩
    rw [meetLength, meet_int, r.meet_self, ofRange, hr]
    rfl

/-- A stated length is possible, whatever the length of the object is. -/
theorem NormalLength.admits (h : NormalLength al) : ∃ n, AdmitsLength w al n := by
  cases h with
  | none => exact ⟨Option.none, trivial⟩
  | @some r hr =>
    have hMem := Range.lo_mem hr
    exact ⟨_, r.lo, Range.mem_full hMem, rfl, admits_int.mpr hMem⟩

theorem Normal.measurable (h : f.Normal H) : f.Measurable w := by
  cases f with
  | ref r al sl => exact ⟨h.lengths.1.admits, h.lengths.2.admits⟩
  | _ => trivial

-- ---------------------------------------------------------------------------
-- Meets
-- ---------------------------------------------------------------------------

/-- **The order of two facts** does not matter for their meet. -/
theorem meet_comm_of_normal (hf : f.Normal H) (hg : g.Normal H) : f.meet g = g.meet f := by
  cases f with
  | bottom | top => cases g <;> rfl
  | bool a =>
    cases g with
    | bool b => rw [meet_bool, meet_bool, meetKnown?_comm]
    | _ => rfl
  | int r =>
    cases g with
    | int s => rw [meet_int, meet_int, Range.meet_comm]
    | _ => rfl
  | double c =>
    cases g with
    | double d => rw [meet_double, meet_double, DoubleFact.meet?_comm]
    | _ => rfl
  | ref r al sl =>
    cases g with
    | ref s al' sl' =>
      obtain ⟨hArray, hArrayFails⟩ := hf.lengths.1.meet_comm hg.lengths.1
      obtain ⟨hString, hStringFails⟩ := hf.lengths.2.meet_comm hg.lengths.2
      rw [meet_ref, meet_ref, RefInfo.meet?_comm, hArrayFails, hStringFails, hArray, hString]
    | _ => rfl

/-- A constant that is left is not null. -/
theorem constant_of_meet? (hr : r.literal.isSome → r.nullness = .notNull)
    (hs : s.literal.isSome → s.nullness = .notNull) (hMeet : r.meet? s = some t)
    (hNull : t.nullness ≠ .null) (hLiteral : t.literal.isSome) : t.nullness = .notNull := by
  obtain ⟨n, l, hNullness, hLiterals, ⟨-, -, rfl⟩ | ⟨hn, b, m, -, -, rfl⟩⟩ :=
    RefInfo.meet?_eq_some.mp hMeet
  · exact absurd rfl hNull
  · obtain ⟨x, rfl⟩ := Option.isSome_iff_exists.mp hLiteral
    refine (Nullness.meet?_eq_some hNullness hn).2.2.mpr ?_
    rcases (eq_some_of_meetKnown? hLiterals x).mp rfl with h | h
    · exact Or.inl (hr (Option.isSome_iff_exists.mpr ⟨x, h⟩))
    · exact Or.inr (hs (Option.isSome_iff_exists.mpr ⟨x, h⟩))

/-- **A meet is in normal form.** -/
theorem normal_meet (hf : f.Normal H) (hg : g.Normal H) : (f.meet g).Normal H := by
  have hMade := formed_meet hf.formed hg.formed
  have hOver := over_meet hf.over hg.over
  cases f with
  | bottom => rw [bottom_meet]; exact .bottom
  | top => rw [top_meet]; exact hg
  | bool a =>
    cases g with
    | top => exact .bool
    | bool b =>
      rw [meet_bool]
      cases meetKnown? a b
      · exact .bottom
      · exact .bool
    | _ => exact .bottom
  | int r =>
    cases g with
    | top => exact hf
    | int s => exact normal_ofRange
    | _ => exact .bottom
  | double c =>
    cases g with
    | top => exact .double
    | double d =>
      rw [meet_double]
      cases c.meet? d
      · exact .bottom
      · exact .double
    | _ => exact .bottom
  | ref r al sl =>
    cases g with
    | top => exact hf
    | ref s al' sl' =>
      by_cases hMeet : (ref r al sl).meet (ref s al' sl') = bottom
      · rw [hMeet]
        exact .bottom
      · obtain ⟨t, hrs, ⟨-, hEq⟩ | ⟨hNull, hEq⟩⟩ := meet_ref_cases hMeet
        · rw [hEq]
          exact .null
        · obtain ⟨hArray, hString⟩ := lengthFails_of_meet_ref hMeet hrs hNull
          rw [hEq] at hMade hOver ⊢
          refine .ref hNull ?_ hMade hOver (hf.lengths.1.meet hg.lengths.1 hArray)
            (hf.lengths.2.meet hg.lengths.2 hString)
          exact constant_of_meet? hf.constant hg.constant hrs hNull
    | _ => exact .bottom

/-- **A fact met with itself** is unchanged. -/
theorem meet_idem (hf : f.Normal H) : f.meet f = f := by
  cases hf with
  | bottom | top | null => rfl
  | @bool b => cases b <;> simp [meet_bool, meetKnown?]
  | @int r hr =>
    rw [meet_int, r.meet_self, ofRange, hr]
    rfl
  | @double d => cases d <;> simp [meet_double, DoubleFact.meet?]
  | @ref r al sl hNull hConstant hMade hOver hArray hString =>
    obtain ⟨hSame, hFails⟩ := hArray.meet_self
    obtain ⟨hSame', hFails'⟩ := hString.meet_self
    rw [meet_ref, RefInfo.meet?_self hOver hMade hNull]
    dsimp only
    rw [if_neg hNull, hSame, hSame', hFails, hFails']
    rfl

/-- **A fact met again** with one that it was met with is unchanged. -/
theorem meet_absorb_of_normal (hf : f.Normal w.types) (hg : g.Normal w.types) :
    (f.meet g).meet g = f.meet g := by
  have hMeet := normal_meet hg hf
  rw [meet_comm_of_normal hf hg, meet_comm_of_normal hMeet hg]
  by_cases hBottom : (g.meet f).isBottom = true
  · cases hEq : g.meet f with
    | bottom => cases g <;> rfl
    | _ => rw [hEq] at hBottom; cases hBottom
  · have hAgain := meet_again (g := top) (w := w) hg.over hf.over (over_of_info rfl) hg.measurable
      (by rw [meet_top]; exact eq_false_of_ne_true hBottom)
    rw [meet_top] at hAgain
    rcases hAgain with hSame | hSame
    · rw [hSame, meet_idem hg]
    · exact hSame

/-- **Meets of facts in normal form are intersections.** The sides may be exchanged. The meet is in
normal form, so no type that it names is above another one, and it names none beside a class that is
known. It is not changed by meeting a side again. What it admits is admitted by both sides, and what
narrowing leaves of a fact is admitted by that. -/
theorem meet_intersects (hf : f.Normal w.types) (hg : g.Normal w.types) :
    f.meet g = g.meet f ∧
      ((f.meet g).Normal w.types ∧
        (∀ s ∈ (f.meet g).bound.within, ∀ t ∈ (f.meet g).bound.within,
          s.isSubtypeOf t = true → s = t) ∧
        ((f.meet g).bound.known?.isSome → (f.meet g).bound.within = ∅)) ∧
      (f.meet g).meet g = f.meet g ∧
      (∀ x, (f.meet g).Admits w x → f.Admits w x ∧ g.Admits w x) ∧
      ∀ rel x, (narrow rel f g).Admits w x → f.Admits w x := by
  have hMeet := normal_meet hf hg
  refine ⟨meet_comm_of_normal hf hg, ⟨hMeet, hMeet.formed.least⟩, meet_absorb_of_normal hf hg, ?_, ?_⟩
  · exact fun x hx => admits_of_meet hf.over hg.over hx
  · exact fun rel x hx => admits_of_narrow hf.over hg.over hx

open State in
/-- An interface above the class that is named adds nothing, from either side and again. -/
theorem meet_intersects_interface :
    (ofType belowBoth .notNull).meet (ofType (.ofClass "I" [] false) .nullable) =
        ofType belowBoth .notNull ∧
      (ofType (.ofClass "I" [] false) .nullable).meet (ofType belowBoth .notNull) =
        ofType belowBoth .notNull ∧
      ((ofType belowBoth .notNull).meet (ofType (.ofClass "I" [] false) .nullable)).meet
        (ofType (.ofClass "I" [] false) .nullable) = ofType belowBoth .notNull := by
  have hClass : (ofType belowBoth .notNull).Normal arrayWorld.types :=
    normal_ofType (by simp [arrayWorld]) (by decide)
  have hInterface : (ofType (.ofClass "I" [] false) .nullable).Normal arrayWorld.types :=
    normal_ofType (by simp [arrayWorld]) (by decide)
  have hMeet : (ofType belowBoth .notNull).meet (ofType (.ofClass "I" [] false) .nullable) =
      ofType belowBoth .notNull := by decide +kernel
  obtain ⟨hComm, -, hAgain, -⟩ := meet_intersects hClass hInterface
  exact ⟨hMeet, hComm.symm.trans hMeet, hAgain.trans hMeet⟩

end Fact

end Pathwise
