import Pathwise.Proofs.Feasibility

/-!
# What meets lose

A meet is meant to describe the values that both facts describe. Each part of two statements on
a reference is met with its counterpart, and the whole meet is `bottom` as soon as one part has
none. For the parts that are about an object this is too much where null is possible as well:
a nullable string and a nullable class object have null in common. The other loss is that of
the bounds, which take array types that are not in a row to have nothing in common.

`Fact.Describes` counts null to what a reference may be unless it is said not to be, also where
the reference is said to be a constant; apart from that it is `Fact.Admits`. `Fact.Loses` lists
what gets lost, and `describes_meet_iff` says that this is all.

## Results

* `TypeBound.meet?_eq_none_iff` — the bounds that allow a class and have no meet.
* `Fact.Loses`                  — the common values that a meet does not describe.
* `describes_meet_iff`          — a meet describes all other common values, and only those.
* `meets_lose_common_values`    — null, and an array, are lost.
-/

namespace Pathwise

namespace TypeBound

variable {H : Hierarchy} {b d : TypeBound} {c : TypeDesc}

/-- The bounds name no class, and two array types of which neither is below the other. -/
def SplitsArrays (b d : TypeBound) : Prop :=
  b.known? = none ∧ d.known? = none ∧
    ∃ s ∈ b.within.union d.within, ∃ t ∈ b.within.union d.within,
      s.isArray = true ∧ t.isArray = true ∧ s.isSubtypeOf t = false ∧ t.isSubtypeOf s = false

/-- **Bounds that allow a class have no meet** if and only if they split arrays. -/
theorem meet?_eq_none_iff (hc : H.Declares c) (hb : b.Over H) (hd : d.Over H) (hbc : b.Allows c)
    (hdc : d.Allows c) : b.meet? d = none ↔ b.SplitsArrays d := by
  constructor
  · intro hNone
    by_contra hSplits
    obtain ⟨m, hMeet⟩ := exists_meet? hc hb hd hbc hdc fun hb' hd' s hs t ht hsArray htArray => by
      by_contra hRow
      simp only [not_or, Bool.not_eq_true] at hRow
      exact hSplits ⟨hb', hd', s, hs, t, ht, hsArray, htArray, hRow.1, hRow.2⟩
    rw [hNone] at hMeet
    cases hMeet
  · rintro ⟨hb', hd', s, hs, t, ht, hsArray, htArray, hst, hts⟩
    by_contra hSome
    obtain ⟨m, hMeet⟩ := Option.ne_none_iff_exists'.mp hSome
    have hMay := (((meet?_of_unknown hb' hd').mp hMeet).2 s hs).2 t ht
    simp [TypeDesc.mayIntersect, hst, hts, hsArray] at hMay

end TypeBound

/-- Two pieces of knowledge contradict each other if they are of different things. -/
theorem meetKnown?_eq_none {α : Type} [DecidableEq α] {a b : Option α} :
    meetKnown? a b = none ↔ ∃ x y, a = some x ∧ b = some y ∧ x ≠ y := by
  cases a <;> cases b <;> simp [meetKnown?]

namespace Fact

variable {w : World} {f g : Fact} {r s : RefInfo} {al al' sl sl' : Option Fact} {o : Nat}
  {x : Concrete}

-- ---------------------------------------------------------------------------
-- The values that a fact describes
-- ---------------------------------------------------------------------------

/-- **The fact describes a value**: it admits it, or the value is null and not ruled out. -/
def Describes (w : World) (f : Fact) (x : Concrete) : Prop :=
  f.Admits w x ∨ x = .null ∧ f.nullness ≠ .notNull

theorem describes_null : f.Describes w .null ↔ f.nullness ≠ .notNull := by
  constructor
  · rintro (hAdmits | ⟨-, h⟩)
    · rcases admits_null_iff.mp hAdmits with rfl | ⟨r, al, sl, rfl, hr⟩
      · exact nofun
      · exact hr.nullable
    · exact h
  · exact fun h => Or.inr ⟨rfl, h⟩

theorem describes_of_ne_null (hx : x ≠ .null) : f.Describes w x ↔ f.Admits w x :=
  or_iff_left fun h => hx h.1

/-- What is admitted is described; only a constant that may be null tells the two apart. -/
theorem Admits.describes (h : f.Admits w x) : f.Describes w x := Or.inl h

/-- **The common values that a meet loses.** Null goes with any part that contradicts its
counterpart, and with a constant on either side if it is known to be null; an object goes with
array types above its class that are not in a row. -/
inductive Loses : Fact → Fact → Concrete → Prop where
  /-- The references are different constants. -/
  | constants {r s : RefInfo} {al al' sl sl' : Option Fact} {k l : RefLiteral} :
      r.literal = some k → s.literal = some l → k ≠ l →
      Loses (ref r al sl) (ref s al' sl') .null
  /-- One is known to be null, and one to be a constant. -/
  | constant {r s : RefInfo} {al al' sl sl' : Option Fact} :
      r.nullness = .null ∨ s.nullness = .null →
      r.literal.isSome = true ∨ s.literal.isSome = true →
      Loses (ref r al sl) (ref s al' sl') .null
  /-- No class is within both bounds. -/
  | bounds {r s : RefInfo} {al al' sl sl' : Option Fact} :
      r.nullness ≠ .null → s.nullness ≠ .null →
      r.bound.meet? s.bound = none → Loses (ref r al sl) (ref s al' sl') .null
  /-- One object is modifiable and the other is not. -/
  | mutability {r s : RefInfo} {al al' sl sl' : Option Fact} :
      r.nullness ≠ .null → s.nullness ≠ .null →
      r.mutability.meet? s.mutability = none → Loses (ref r al sl) (ref s al' sl') .null
  /-- The lengths that the right side states contradict those of the left side. -/
  | arrayLength {r s : RefInfo} {al sl sl' : Option Fact} {g : Fact} :
      r.nullness ≠ .null → s.nullness ≠ .null →
      (al.getD top).meet g = bottom → Loses (ref r al sl) (ref s (some g) sl') .null
  | stringLength {r s : RefInfo} {al al' sl : Option Fact} {g : Fact} :
      r.nullness ≠ .null → s.nullness ≠ .null →
      (sl.getD top).meet g = bottom → Loses (ref r al sl) (ref s al' (some g)) .null
  /-- The class of the object is below array types that are not in a row. -/
  | arrays {r s : RefInfo} {al al' sl sl' : Option Fact} {o : Nat} :
      r.bound.SplitsArrays s.bound →
      Loses (ref r al sl) (ref s al' sl') (.object o)

-- ---------------------------------------------------------------------------
-- Null
-- ---------------------------------------------------------------------------

/-- A stated length fails if there is no length that both sides leave. -/
theorem lengthFails_iff : lengthFails al' (meetLength al al') = true ↔
    ∃ g, al' = some g ∧ (al.getD top).meet g = bottom := by
  have hBottom : ∀ {h : Fact}, h.isBottom = true ↔ h = bottom := by
    intro h
    cases h <;> simp [isBottom]
  cases al <;> cases al' <;> simp [lengthFails, meetLength, hBottom]

/-- **Null is lost** if the meet of two references that may be null is `bottom`. -/
theorem loses_of_meet_eq_bottom (hr : r.nullness ≠ .notNull) (hs : s.nullness ≠ .notNull)
    (hBottom : (ref r al sl).meet (ref s al' sl') = bottom) :
    Loses (ref r al sl) (ref s al' sl') .null := by
  rw [meet_ref] at hBottom
  cases hLiteral : meetKnown? r.literal s.literal with
  | none =>
    obtain ⟨k, l, hk, hl, hNe⟩ := meetKnown?_eq_none.mp hLiteral
    exact .constants hk hl hNe
  | some l =>
    by_cases hNull : r.nullness = .null ∨ s.nullness = .null
    · -- what is known to be null is lost to a constant only
      have hNullness := Nullness.meet?_null hr hs hNull
      refine .constant hNull ?_
      have hSome := eq_some_of_meetKnown? hLiteral
      cases l with
      | none =>
        rw [RefInfo.meet?_eq_some.mpr ⟨.null, none, hNullness, hLiteral, Or.inl ⟨rfl, rfl, rfl⟩⟩]
          at hBottom
        cases hBottom
      | some k =>
        rcases (hSome k).mp rfl with hk | hk
        · exact Or.inl (by rw [hk]; rfl)
        · exact Or.inr (by rw [hk]; rfl)
    · obtain ⟨hrn, hsn⟩ := not_or.mp hNull
      obtain ⟨n, hNullness, hn⟩ := Nullness.exists_meet? hrn hsn
      cases hBound : r.bound.meet? s.bound with
      | none => exact .bounds hrn hsn hBound
      | some b =>
        cases hMutability : r.mutability.meet? s.mutability with
        | none => exact .mutability hrn hsn hMutability
        | some m =>
          -- nothing is left that could fail but the lengths
          rw [RefInfo.meet?_eq_some.mpr ⟨n, l, hNullness, hLiteral,
            Or.inr ⟨hn, b, m, hBound, hMutability, rfl⟩⟩] at hBottom
          dsimp only at hBottom
          rw [if_neg hn] at hBottom
          cases hArray : lengthFails al' (meetLength al al') with
          | true =>
            obtain ⟨g, rfl, hg⟩ := lengthFails_iff.mp hArray
            exact .arrayLength hrn hsn hg
          | false =>
            cases hString : lengthFails sl' (meetLength sl sl') with
            | true =>
              obtain ⟨g, rfl, hg⟩ := lengthFails_iff.mp hString
              exact .stringLength hrn hsn hg
            | false =>
              rw [hArray, hString] at hBottom
              cases hBottom

/-- What there is of a meet of references that are not known to be null. -/
theorem parts_of_meet (hrn : r.nullness ≠ .null) (hsn : s.nullness ≠ .null)
    (hMeet : (ref r al sl).meet (ref s al' sl') ≠ bottom) :
    r.bound.meet? s.bound ≠ none ∧ r.mutability.meet? s.mutability ≠ none ∧
      lengthFails al' (meetLength al al') = false ∧
      lengthFails sl' (meetLength sl sl') = false := by
  obtain ⟨t, hrs, -⟩ := meet_ref_cases hMeet
  obtain ⟨n, l, hNullness, -, ⟨rfl, -, -⟩ | ⟨hn, b, m, hBound, hMutability, rfl⟩⟩ :=
    RefInfo.meet?_eq_some.mp hrs
  · exact ((Nullness.meet?_eq_some_null hNullness).2.2.elim hrn hsn).elim
  · exact ⟨by simp [hBound], by simp [hMutability], lengthFails_of_meet_ref hMeet hrs hn⟩

/-- A meet that loses null is `bottom`. -/
theorem meet_eq_bottom_of_loses (h : Loses f g .null) : f.meet g = bottom := by
  by_contra hMeet
  cases h with
  | constants hk hl hNe =>
    obtain ⟨t, hrs, -⟩ := meet_ref_cases hMeet
    obtain ⟨n, l, -, hLiteral, -⟩ := RefInfo.meet?_eq_some.mp hrs
    rw [meetKnown?_eq_none.mpr ⟨_, _, hk, hl, hNe⟩] at hLiteral
    cases hLiteral
  | constant hNull hSome =>
    obtain ⟨t, hrs, -⟩ := meet_ref_cases hMeet
    obtain ⟨n, l, hNullness, hLiteral, ⟨rfl, rfl, -⟩ | ⟨hn, -⟩⟩ := RefInfo.meet?_eq_some.mp hrs
    · -- a constant on either side would be left
      have hNone := eq_some_of_meetKnown? hLiteral
      rcases hSome with hSome | hSome
      · obtain ⟨k, hk⟩ := Option.isSome_iff_exists.mp hSome
        cases (hNone k).mpr (Or.inl hk)
      · obtain ⟨k, hk⟩ := Option.isSome_iff_exists.mp hSome
        cases (hNone k).mpr (Or.inr hk)
    · obtain ⟨hrn, hsn, -⟩ := Nullness.meet?_eq_some hNullness hn
      exact hNull.elim hrn hsn
  | bounds hrn hsn hBound => exact (parts_of_meet hrn hsn hMeet).1 hBound
  | mutability hrn hsn hMutability => exact (parts_of_meet hrn hsn hMeet).2.1 hMutability
  | arrayLength hrn hsn hg =>
    have hFails := (parts_of_meet hrn hsn hMeet).2.2.1
    rw [lengthFails_iff.mpr ⟨_, rfl, hg⟩] at hFails
    cases hFails
  | stringLength hrn hsn hg =>
    have hFails := (parts_of_meet hrn hsn hMeet).2.2.2
    rw [lengthFails_iff.mpr ⟨_, rfl, hg⟩] at hFails
    cases hFails

/-- A meet of references rules null out if one of them does, or if nothing is left. -/
theorem nullness_meet_ref (hMeet : (ref r al sl).meet (ref s al' sl') ≠ bottom) :
    ((ref r al sl).meet (ref s al' sl')).nullness = .notNull ↔
      r.nullness = .notNull ∨ s.nullness = .notNull := by
  obtain ⟨t, hrs, ⟨hNull, hEq⟩ | ⟨hNull, hEq⟩⟩ := meet_ref_cases hMeet
  · obtain ⟨n, l, hNullness, -, ⟨rfl, -, -⟩ | ⟨hn, b, m, -, -, rfl⟩⟩ := RefInfo.meet?_eq_some.mp hrs
    · obtain ⟨hr, hs, -⟩ := Nullness.meet?_eq_some_null hNullness
      rw [hEq]
      exact iff_of_false nofun (not_or.mpr ⟨hr, hs⟩)
    · exact absurd hNull hn
  · obtain ⟨n, l, hNullness, -, ⟨-, -, rfl⟩ | ⟨hn, b, m, -, -, rfl⟩⟩ := RefInfo.meet?_eq_some.mp hrs
    · exact absurd rfl hNull
    · rw [hEq]
      exact (Nullness.meet?_eq_some hNullness hn).2.2

/-- **Null and meets**: it is described by the meet of two facts that describe it, unless it is
one of the common values that are lost. -/
theorem describes_null_meet_iff : (f.meet g).Describes w .null ↔
    f.Describes w .null ∧ g.Describes w .null ∧ ¬ Loses f g .null := by
  by_cases hRefs : ∃ r al sl s al' sl', f = ref r al sl ∧ g = ref s al' sl'
  · obtain ⟨r, al, sl, s, al', sl', rfl, rfl⟩ := hRefs
    simp only [describes_null]
    by_cases hMeet : (ref r al sl).meet (ref s al' sl') = bottom
    · refine iff_of_false (fun h => h (by rw [hMeet]; rfl)) ?_
      rintro ⟨hr, hs, hKept⟩
      exact hKept (loses_of_meet_eq_bottom hr hs hMeet)
    · have hKept : ¬ Loses (ref r al sl) (ref s al' sl') .null :=
        fun h => hMeet (meet_eq_bottom_of_loses h)
      rw [ne_eq, nullness_meet_ref hMeet, not_or, and_iff_left hKept]
      exact Iff.rfl
  · -- only references lose anything
    have hKept : ¬ Loses f g .null := by
      intro h
      cases h <;> exact hRefs ⟨_, _, _, _, _, _, rfl, rfl⟩
    have hRange : ∀ {r : Range}, (ofRange r).nullness = .notNull := by
      intro r
      unfold ofRange
      split <;> rfl
    rw [and_iff_left hKept]
    simp only [describes_null]
    cases f with
    | ref r al sl =>
      cases g with
      | ref s al' sl' => exact absurd ⟨_, _, _, _, _, _, rfl, rfl⟩ hRefs
      | top => simp [nullness]
      | _ => simp [meet, nullness]
    | top => simp [nullness]
    | int r =>
      cases g with
      | int s =>
        rw [meet_int, hRange]
        simp [nullness]
      | _ => simp [meet, nullness]
    | bool a =>
      cases g with
      | bool b =>
        rw [meet_bool]
        cases meetKnown? a b <;> simp [nullness]
      | _ => simp [meet, nullness]
    | double c =>
      cases g with
      | double d =>
        rw [meet_double]
        cases c.meet? d <;> simp [nullness]
      | _ => simp [meet, nullness]
    | bottom => simp [nullness]

-- ---------------------------------------------------------------------------
-- Objects
-- ---------------------------------------------------------------------------

/-- **Objects and meets**: an object is admitted by the meet of two facts that admit it, unless
their bounds split the array types above its class. -/
theorem admits_object_meet_iff (hf : f.Over w.types) (hg : g.Over w.types) :
    (f.meet g).Admits w (.object o) ↔
      f.Admits w (.object o) ∧ g.Admits w (.object o) ∧ ¬ Loses f g (.object o) := by
  constructor
  · intro h
    obtain ⟨hfo, hgo⟩ := admits_of_meet hf hg h
    refine ⟨hfo, hgo, fun hLoses => ?_⟩
    cases hLoses with
    | @arrays r s al al' sl sl' o hSplits =>
      have hMeet : (ref r al sl).meet (ref s al' sl') ≠ bottom := fun h' => by simp [h'] at h
      have hNone := (TypeBound.meet?_eq_none_iff (w.declared o) hf hg (allows_of_admits hfo)
        (allows_of_admits hgo)).mpr hSplits
      obtain ⟨hr, -⟩ := admits_object.mp hfo
      obtain ⟨hs, -⟩ := admits_object.mp hgo
      exact (parts_of_meet hr.notNull hs.notNull hMeet).1 hNone
  · rintro ⟨hfo, hgo, hKept⟩
    rcases admits_object_iff.mp hfo with rfl | ⟨r, al, sl, rfl, -⟩
    · rw [top_meet]
      exact hgo
    · rcases admits_object_iff.mp hgo with rfl | ⟨s, al', sl', rfl, -⟩
      · rw [meet_top]
        exact hfo
      · refine admits_meet_object_of (Option.isSome_iff_ne_none.mpr fun hNone => hKept ?_) hfo hgo
        exact .arrays ((TypeBound.meet?_eq_none_iff (w.declared o) hf hg (allows_of_admits hfo)
          (allows_of_admits hgo)).mp hNone)

-- ---------------------------------------------------------------------------
-- All values
-- ---------------------------------------------------------------------------

/-- Only null and objects are lost. -/
theorem not_loses_value (hNull : x ≠ .null) (hObject : ∀ o, x ≠ .object o) : ¬ Loses f g x := by
  intro h
  cases h with
  | arrays => exact hObject _ rfl
  | _ => exact hNull rfl

/-- **What a meet describes**: the values that both facts describe, but for those it loses. So
a meet that is `bottom` loses every value that both facts describe. -/
theorem describes_meet_iff (hf : f.Over w.types) (hg : g.Over w.types) :
    (f.meet g).Describes w x ↔ f.Describes w x ∧ g.Describes w x ∧ ¬ Loses f g x := by
  by_cases hNull : x = .null
  · subst hNull
    exact describes_null_meet_iff
  · simp only [describes_of_ne_null hNull]
    by_cases hObject : ∃ o, x = .object o
    · obtain ⟨o, rfl⟩ := hObject
      exact admits_object_meet_iff hf hg
    · have hOther : ∀ o, x ≠ .object o := fun o ho => hObject ⟨o, ho⟩
      rw [admits_meet_value hNull hOther, and_iff_left (not_loses_value hNull hOther)]

/-- The arrays of an interface. -/
def arrayOf (name : String) : Fact := ofType (.array (.ofClass name [] false)) .notNull

theorem over_arrayOf {name : String} (h : name = "I" ∨ name = "J") :
    (arrayOf name).Over State.arrayWorld.types := by
  rcases h with rfl | rfl <;> exact over_ofType (by simp [State.arrayWorld])

/-- An array of a class below two interfaces is an array of each. -/
theorem admits_arrayOf {name : String} (h : name = "I" ∨ name = "J") :
    (arrayOf name).Admits State.arrayWorld (.object 0) := by
  have hBelow : (TypeDesc.array State.belowBoth).isSubtypeOf
      (.array (.ofClass name [] false)) = true := by
    rcases h with rfl | rfl <;> decide +kernel
  have hForm : arrayOf name = ofBound .notNull
      { TypeBound.top with within := OrdSet.empty.insert (.array (.ofClass name [] false)) } := by
    rcases h with rfl | rfl <;> decide +kernel
  rw [hForm]
  refine admits_object.mpr ⟨⟨nofun, ⟨nofun, ?_, nofun⟩, nofun, trivial, nofun⟩, trivial, trivial⟩
  intro u hu
  rcases OrdSet.mem_insert.mp hu with rfl | hu
  · exact hBelow
  · exact absurd hu OrdSet.not_mem_empty

theorem splitsArrays_arrayOf : (arrayOf "I").bound.SplitsArrays (arrayOf "J").bound :=
  ⟨by decide +kernel, by decide +kernel, .array (.ofClass "I" [] false), by decide +kernel,
    .array (.ofClass "J" [] false), by decide +kernel, by decide +kernel⟩

theorem describes_null_nullable {t : TypeDesc} :
    (ofExactType t .nullable).Describes w .null :=
  describes_null.mpr (show Nullness.nullable ≠ .notNull by decide)

/-- No class is a string and a class object. -/
theorem loses_null_nullables :
    Loses (ofExactType .string .nullable) (ofExactType .classObject .nullable) .null :=
  .bounds (by decide +kernel) (by decide +kernel) (by decide +kernel)

/-- **Meets that lose a value**: a nullable string and a nullable class object may both be null,
and an array may be one of each of two interfaces. -/
theorem meets_lose_common_values :
    (let string := ofExactType .string .nullable
     let classObject := ofExactType .classObject .nullable
     string.Describes State.plainWorld .null ∧ classObject.Describes State.plainWorld .null ∧
      ¬ (string.meet classObject).Describes State.plainWorld .null) ∧
    (arrayOf "I").Describes State.arrayWorld (.object 0) ∧
    (arrayOf "J").Describes State.arrayWorld (.object 0) ∧
    ¬ ((arrayOf "I").meet (arrayOf "J")).Describes State.arrayWorld (.object 0) := by
  refine ⟨⟨describes_null_nullable, describes_null_nullable, ?_⟩,
    (admits_arrayOf (Or.inl rfl)).describes, (admits_arrayOf (Or.inr rfl)).describes, ?_⟩
  · rw [describes_meet_iff (over_ofExactType (by simp [State.plainWorld]))
      (over_ofExactType (by simp [State.plainWorld]))]
    exact fun h => h.2.2 loses_null_nullables
  · rw [describes_meet_iff (over_arrayOf (Or.inl rfl)) (over_arrayOf (Or.inr rfl))]
    exact fun h => h.2.2 (.arrays splitsArrays_arrayOf)

end Fact

end Pathwise
