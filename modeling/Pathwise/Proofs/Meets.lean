import Pathwise.Fact.Meet
import Pathwise.Proofs.Worlds

/-!
# Meets lose no value

A value other than null that two facts admit is admitted by their meet, and the meet
admits nothing that one of them does not.

Null is the exception in one direction. Two facts may both leave room for null and
contradict each other in everything else, and then their meet is `bottom`. It is safe if
some object is described by both, or if one of them says that the value is null and
nothing else. `Fact.Keeps` is admission with such an object for company; it is what
meets preserve for all values (`keeps_meet`).

## Results

* `admits_meet_value`, `admits_meet_object` — meets and values other than null.
* `admits_of_meet` — a meet admits nothing new.
* `keeps_meet`     — a meet keeps what both facts keep.
* `keeps_absorb`   — a fact met again with what was met into it.
-/

namespace Pathwise

/-- The fact names only types of a hierarchy. -/
def Fact.Over (H : Hierarchy) (f : Fact) : Prop := f.bound.Over H

/-- The array types above the class of an object are in a row. -/
def World.Orders (w : World) (o : Nat) : Prop := w.types.OrdersArrays (w.classOf o)

-- ---------------------------------------------------------------------------
-- Components
-- ---------------------------------------------------------------------------

theorem Nullness.meet?_eq_some_null {m n : Nullness} (h : m.meet? n = some .null) :
    m ≠ .notNull ∧ n ≠ .notNull ∧ (m = .null ∨ n = .null) := by
  cases m <;> cases n <;> cases h <;> decide

theorem Nullness.meet?_eq_some {m n k : Nullness} (h : m.meet? n = some k) (hk : k ≠ .null) :
    m ≠ .null ∧ n ≠ .null ∧ (k = .notNull ↔ m = .notNull ∨ n = .notNull) := by
  cases m <;> cases n <;> cases h <;> first | exact absurd rfl hk | decide

theorem Nullness.exists_meet? {m n : Nullness} (hm : m ≠ .null) (hn : n ≠ .null) :
    ∃ k, m.meet? n = some k ∧ k ≠ .null := by
  cases m <;> cases n <;>
    first | exact absurd rfl hm | exact absurd rfl hn | exact ⟨_, rfl, nofun⟩

/-- Nothing but a reference that is not null contradicts a null one. -/
theorem Nullness.meet?_null {m n : Nullness} (hm : m ≠ .notNull) (hn : n ≠ .notNull)
    (hNull : m = .null ∨ n = .null) : m.meet? n = some .null := by
  rcases hNull with rfl | rfl
  · cases n <;> first | rfl | exact absurd rfl hn
  · cases m <;> first | rfl | exact absurd rfl hm

theorem Mutability.admits_meet? {m n : Mutability} {p : Prop} :
    (m.Admits p ∧ n.Admits p) ↔ ∃ k, m.meet? n = some k ∧ k.Admits p := by
  cases m <;> cases n <;> simp [Mutability.meet?, Mutability.Admits]

/-- What is left of optional knowledge is what either side knows. -/
theorem eq_some_of_meetKnown? {α : Type} [DecidableEq α] {a b c : Option α}
    (h : meetKnown? a b = some c) (x : α) : c = some x ↔ a = some x ∨ b = some x := by
  cases a with
  | none =>
    cases h
    simp
  | some y =>
    cases b with
    | none =>
      cases h
      simp
    | some z =>
      rw [meetKnown?] at h
      split at h
      · rename_i hSame
        cases h
        rw [hSame, or_self]
      · cases h

-- ---------------------------------------------------------------------------
-- References
-- ---------------------------------------------------------------------------

namespace RefInfo

variable {w : World} {H : Hierarchy} {r s t : RefInfo} {o : Nat}

/-- The meet of two statements on a reference, taken apart. -/
theorem meet?_eq_some :
    r.meet? s = some t ↔ ∃ n l, r.nullness.meet? s.nullness = some n ∧
      meetKnown? r.literal s.literal = some l ∧
      ((n = .null ∧ l = none ∧ t = ofNullness .null) ∨
        (n ≠ .null ∧ ∃ b m, r.bound.meet? s.bound = some b ∧
          r.mutability.meet? s.mutability = some m ∧
          t = ⟨n, b, r.isLocal || s.isLocal, m, l⟩)) := by
  simp only [meet?, Option.bind_eq_bind, Option.bind_eq_some_iff]
  refine exists_congr fun n => ?_
  constructor
  · rintro ⟨hNullness, l, hLiteral, h⟩
    refine ⟨l, hNullness, hLiteral, ?_⟩
    split at h
    · rename_i hNull
      split at h
      · cases h
      · rename_i hNone
        exact Or.inl ⟨hNull, by simpa using hNone, (Option.some.inj h).symm⟩
    · rename_i hNull
      simp only [Option.bind_eq_some_iff] at h
      obtain ⟨b, hBound, m, hMutability, h⟩ := h
      exact Or.inr ⟨hNull, b, m, hBound, hMutability, (Option.some.inj h).symm⟩
  · rintro ⟨l, hNullness, hLiteral, ⟨rfl, rfl, rfl⟩ | ⟨hNull, b, m, hBound, hMutability, rfl⟩⟩
    · exact ⟨hNullness, none, hLiteral, by simp⟩
    · refine ⟨hNullness, l, hLiteral, ?_⟩
      rw [if_neg hNull]
      simp only [Option.bind_eq_some_iff]
      exact ⟨b, hBound, m, hMutability, rfl⟩

/-- **An object that both statements describe** is described by their meet, if there is one of
the bounds. -/
theorem exists_meet?_admitsObject {b : TypeBound} (hBound : r.bound.meet? s.bound = some b)
    (hro : r.AdmitsObject w o) (hso : s.AdmitsObject w o) :
    ∃ t, r.meet? s = some t ∧ t.AdmitsObject w o := by
  -- each part of the two statements describes the object
  obtain ⟨n, hNullness, hn⟩ := Nullness.exists_meet? hro.notNull hso.notNull
  have hb := TypeBound.allows_meet? hBound hro.bound hso.bound
  obtain ⟨m, hMutability, hm⟩ := Mutability.admits_meet?.mp ⟨hro.mutability, hso.mutability⟩
  -- two constants that one object is are the same
  have hLiteral : ∃ l, meetKnown? r.literal s.literal = some l ∧
      ∀ x, l = some x → w.literal? o = some x := by
    cases hrl : r.literal with
    | none => exact ⟨s.literal, by simp [meetKnown?], fun x hx => hso.literal x hx⟩
    | some x =>
      have hx := hro.literal x hrl
      cases hsl : s.literal with
      | none => exact ⟨some x, by simp [meetKnown?], fun y hy => Option.some.inj hy ▸ hx⟩
      | some y =>
        have hxy : x = y := Option.some.inj (hx.symm.trans (hso.literal y hsl))
        exact ⟨some x, by simp [meetKnown?, hxy], fun z hz => Option.some.inj hz ▸ hx⟩
  obtain ⟨l, hKnown, hl⟩ := hLiteral
  refine ⟨_, meet?_eq_some.mpr ⟨n, l, hNullness, hKnown,
    Or.inr ⟨hn, b, m, hBound, hMutability, rfl⟩⟩, ⟨hn, hb, ?_, hm, hl⟩⟩
  intro hLocal
  exact ((Bool.or_eq_true _ _).mp hLocal).elim hro.isLocal hso.isLocal

/-- An object that the meet describes is described by both statements. -/
theorem admitsObject_of_meet? (hr : r.bound.Over w.types) (hs : s.bound.Over w.types)
    (hMeet : r.meet? s = some t) (ht : t.AdmitsObject w o) :
    r.AdmitsObject w o ∧ s.AdmitsObject w o := by
  obtain ⟨n, l, hNullness, hKnown, ⟨-, -, rfl⟩ | ⟨hn, b, m, hBound, hMutability, rfl⟩⟩ :=
    meet?_eq_some.mp hMeet
  · exact absurd rfl ht.notNull
  · obtain ⟨hrn, hsn, -⟩ := Nullness.meet?_eq_some hNullness hn
    obtain ⟨hrb, hsb⟩ := TypeBound.allows_of_meet (w.declared o) hr hs hBound ht.bound
    obtain ⟨hrm, hsm⟩ := Mutability.admits_meet?.mpr ⟨m, hMutability, ht.mutability⟩
    have hl := eq_some_of_meetKnown? hKnown
    have hLocal : (r.isLocal || s.isLocal) = true → w.IsLocal o := ht.isLocal
    constructor
    · exact ⟨hrn, hrb, fun h => hLocal (by rw [h, Bool.true_or]), hrm,
        fun x hx => ht.literal x ((hl x).mpr (Or.inl hx))⟩
    · exact ⟨hsn, hsb, fun h => hLocal (by rw [h, Bool.or_true]), hsm,
        fun x hx => ht.literal x ((hl x).mpr (Or.inr hx))⟩

/-- A statement that the reference is null takes every other one that leaves room for it. -/
theorem meet?_null (hr : r.AdmitsNull) (hs : s.AdmitsNull)
    (hNull : r.nullness = .null ∨ s.nullness = .null) : r.meet? s = some (ofNullness .null) := by
  have hNullness := Nullness.meet?_null hr.nullable hs.nullable hNull
  exact meet?_eq_some.mpr ⟨.null, none, hNullness, by rw [hr.literal, hs.literal]; rfl,
    Or.inl ⟨rfl, rfl, rfl⟩⟩

theorem admitsNull_null : (ofNullness .null).AdmitsNull := ⟨nofun, rfl⟩

/-- Null is described by a meet that is no null reference if it is by both statements. -/
theorem admitsNull_meet?_iff (hMeet : r.meet? s = some t) (ht : t.nullness ≠ .null) :
    t.AdmitsNull ↔ r.AdmitsNull ∧ s.AdmitsNull := by
  obtain ⟨n, l, hNullness, hKnown, ⟨-, -, rfl⟩ | ⟨hn, b, m, -, -, rfl⟩⟩ := meet?_eq_some.mp hMeet
  · exact absurd rfl ht
  · have hNotNull := (Nullness.meet?_eq_some hNullness hn).2.2
    have hLiteral := eq_some_of_meetKnown? hKnown
    constructor
    · rintro ⟨hNullable, hNone⟩
      have hNone : l = none := hNone
      subst hNone
      constructor
      · refine ⟨fun h => hNullable (hNotNull.mpr (Or.inl h)), ?_⟩
        exact Option.eq_none_iff_forall_ne_some.mpr fun x h => nomatch (hLiteral x).mpr (Or.inl h)
      · refine ⟨fun h => hNullable (hNotNull.mpr (Or.inr h)), ?_⟩
        exact Option.eq_none_iff_forall_ne_some.mpr fun x h => nomatch (hLiteral x).mpr (Or.inr h)
    · rintro ⟨hr, hs⟩
      refine ⟨fun h => (hNotNull.mp h).elim hr.nullable hs.nullable, ?_⟩
      refine Option.eq_none_iff_forall_ne_some.mpr fun x h => ?_
      rcases (hLiteral x).mp h with h | h
      · rw [hr.literal] at h
        cases h
      · rw [hs.literal] at h
        cases h

/-- Null is described by both statements if their meet is a null reference. -/
theorem admitsNull_of_meet?_null (hMeet : r.meet? s = some t) (ht : t.nullness = .null) :
    r.AdmitsNull ∧ s.AdmitsNull := by
  obtain ⟨n, l, hNullness, hKnown, ⟨rfl, rfl, -⟩ | ⟨hn, b, m, -, -, rfl⟩⟩ :=
    meet?_eq_some.mp hMeet
  · obtain ⟨hr, hs, -⟩ := Nullness.meet?_eq_some_null hNullness
    have hLiteral := eq_some_of_meetKnown? hKnown
    constructor
    · exact ⟨hr, Option.eq_none_iff_forall_ne_some.mpr fun x h =>
        nomatch (hLiteral x).mpr (Or.inl h)⟩
    · exact ⟨hs, Option.eq_none_iff_forall_ne_some.mpr fun x h =>
        nomatch (hLiteral x).mpr (Or.inr h)⟩
  · exact absurd ht hn

end RefInfo

-- ---------------------------------------------------------------------------
-- Facts
-- ---------------------------------------------------------------------------

namespace Fact

variable {w : World} {H : Hierarchy} {f g : Fact} {r s t : RefInfo} {al al' sl sl' : Option Fact}
  {o : Nat} {x : Concrete}

/-- The meet of two facts on references, by what the meet of their statements is. -/
theorem meet_ref :
    (ref r al sl).meet (ref s al' sl') =
      match r.meet? s with
      | none => bottom
      | some t =>
        if t.nullness = .null then null
        else if lengthFails al' (meetLength al al') || lengthFails sl' (meetLength sl sl') then
          bottom
        else ref t (meetLength al al') (meetLength sl sl') :=
  rfl

/-- A fact that a meet of references is, if it is not `bottom`. -/
theorem meet_ref_cases (hMeet : (ref r al sl).meet (ref s al' sl') ≠ bottom) :
    ∃ t, r.meet? s = some t ∧
      ((t.nullness = .null ∧ (ref r al sl).meet (ref s al' sl') = null) ∨
        (t.nullness ≠ .null ∧ (ref r al sl).meet (ref s al' sl') =
          ref t (meetLength al al') (meetLength sl sl'))) := by
  rw [meet_ref] at hMeet ⊢
  cases hr : r.meet? s with
  | none =>
    rw [hr] at hMeet
    exact absurd rfl hMeet
  | some t =>
    rw [hr] at hMeet
    refine ⟨t, rfl, ?_⟩
    dsimp only at hMeet ⊢
    split at hMeet
    · rename_i hNull
      exact Or.inl ⟨hNull, if_pos hNull⟩
    · rename_i hNull
      split at hMeet
      · exact absurd rfl hMeet
      · rename_i hFails
        exact Or.inr ⟨hNull, by rw [if_neg hNull, if_neg hFails]⟩

/-- No length fails in a meet of references that leaves objects. -/
theorem lengthFails_of_meet_ref (hMeet : (ref r al sl).meet (ref s al' sl') ≠ bottom)
    (hrs : r.meet? s = some t) (hNull : t.nullness ≠ .null) :
    lengthFails al' (meetLength al al') = false ∧ lengthFails sl' (meetLength sl sl') = false := by
  rw [← Bool.or_eq_false_iff]
  by_contra hFails
  rw [meet_ref, hrs] at hMeet
  dsimp only at hMeet
  rw [if_neg hNull, if_pos (eq_true_of_ne_false hFails)] at hMeet
  exact hMeet rfl

theorem over_of_info (h : f.info? = none) : f.Over H := by
  rw [Over, bound, h]
  exact TypeBound.over_top

theorem info_ofRange {r : Range} : (ofRange r).info? = none := by
  rw [ofRange]
  split <;> rfl

theorem over_ofNullness {n : Nullness} : (ofNullness n).Over H := TypeBound.over_top

theorem over_ofBound {n : Nullness} {b : TypeBound} (h : b.Over H) : (ofBound n b).Over H := h

@[simp] theorem top_meet : top.meet g = g := by cases g <;> rfl

@[simp] theorem meet_top : f.meet top = f := by cases f <;> rfl

@[simp] theorem bottom_meet : bottom.meet g = bottom := by cases g <;> rfl

theorem meet_bool {a b : Option Bool} :
    (bool a).meet (bool b) = match meetKnown? a b with | some c => bool c | none => bottom :=
  rfl

theorem meet_int {r s : Range} : (int r).meet (int s) = ofRange (r.meet s) := rfl

theorem meet_double {c d : DoubleFact} :
    (double c).meet (double d) = match c.meet? d with | some e => double e | none => bottom :=
  rfl

/-- The fact on the integers of a range, also if that is empty. -/
theorem admits_ofRange {r : Range} : (ofRange r).Admits w x ↔ (int r).Admits w x := by
  rw [ofRange]
  split
  · rename_i hEmpty
    rw [Range.isEmpty_iff.mp hEmpty]
    refine ⟨False.elim, ?_⟩
    rintro ⟨n, _, -, hMem⟩
    exact Range.not_mem_empty hMem
  · rfl

theorem admits_meet_int {r s : Range} :
    ((int r).meet (int s)).Admits w x ↔ (int r).Admits w x ∧ (int s).Admits w x := by
  rw [meet_int, admits_ofRange]
  cases x with
  | int n isLong => simp
  | _ => simp [Admits]

theorem admits_meet_bool {a b : Option Bool} :
    ((bool a).meet (bool b)).Admits w x ↔ (bool a).Admits w x ∧ (bool b).Admits w x := by
  rw [meet_bool]
  cases x with
  | bool c =>
    cases a with
    | none => simp [meetKnown?]
    | some a =>
      cases b with
      | none => simp [meetKnown?]
      | some b =>
        by_cases hSame : a = b
        · simp [meetKnown?, hSame]
        · simp only [meetKnown?, if_neg hSame, not_admits_bottom, admits_bool, Option.some.injEq,
            forall_eq', false_iff, not_and]
          rintro rfl rfl
          exact hSame rfl
  | _ => cases meetKnown? a b <;> simp [Admits]

theorem admits_meet_double {c d : DoubleFact} :
    ((double c).meet (double d)).Admits w x ↔ (double c).Admits w x ∧ (double d).Admits w x := by
  rw [meet_double]
  cases x with
  | double x =>
    cases c with
    | any => simp [DoubleFact.meet?, DoubleFact.Admits]
    | const c =>
      cases d with
      | any => simp [DoubleFact.meet?, DoubleFact.Admits]
      | nan => cases x <;> simp [DoubleFact.meet?, DoubleFact.Admits]
      | const d =>
        by_cases hSame : c = d
        · simp [DoubleFact.meet?, DoubleFact.Admits, hSame]
        · simp only [DoubleFact.meet?, DoubleFact.const.injEq, if_neg hSame, not_admits_bottom,
            admits_double, DoubleFact.Admits, false_iff, not_and]
          rintro rfl h
          exact hSame (Option.some.inj h)
    | nan => cases d <;> cases x <;> simp [DoubleFact.meet?, DoubleFact.Admits]
  | _ => cases c.meet? d <;> simp [Admits]

/-- **Meets lose nothing** and add nothing, unless both facts are on references. -/
theorem admits_meet_of_not_refs (h : f.info? = none ∨ g.info? = none) :
    (f.meet g).Admits w x ↔ f.Admits w x ∧ g.Admits w x := by
  cases f with
  | top => simp
  | bottom => simp
  | bool a =>
    cases g with
    | top => simp
    | bool b => exact admits_meet_bool
    | _ => cases x <;> simp [meet, Admits]
  | int r =>
    cases g with
    | top => simp
    | int s => exact admits_meet_int
    | _ => cases x <;> simp [meet, Admits]
  | double c =>
    cases g with
    | top => simp
    | double d => exact admits_meet_double
    | _ => cases x <;> simp [meet, Admits]
  | ref r al sl =>
    cases g with
    | top => simp
    | ref s al' sl' => rcases h with h | h <;> cases h
    | _ => cases x <;> simp [meet, Admits]

/-- The meet of two facts on references is one as well, or `bottom`. -/
theorem isRef_of_admits_meet (h : ((ref r al sl).meet (ref s al' sl')).Admits w x) :
    x = .null ∨ ∃ o, x = .object o := by
  have hMeet : (ref r al sl).meet (ref s al' sl') ≠ bottom := fun h' => by simp [h'] at h
  obtain ⟨t, -, ⟨-, hEq⟩ | ⟨-, hEq⟩⟩ := meet_ref_cases hMeet
  all_goals
    rw [hEq] at h
    simp only [null, ofNullness, Admits] at h
    exact h.imp And.left (Exists.imp fun _ => And.left)

/-- A value that is no reference is in a meet exactly if it is in both facts. -/
theorem admits_meet_value (hNull : x ≠ .null) (hObject : ∀ o, x ≠ .object o) :
    (f.meet g).Admits w x ↔ f.Admits w x ∧ g.Admits w x := by
  cases f with
  | ref r al sl =>
    cases g with
    | ref s al' sl' =>
      constructor
      · intro h
        rcases isRef_of_admits_meet h with rfl | ⟨o, rfl⟩
        · exact absurd rfl hNull
        · exact absurd rfl (hObject o)
      · rintro ⟨⟨rfl, -⟩ | ⟨o, rfl, -⟩, -⟩
        · exact absurd rfl hNull
        · exact absurd rfl (hObject o)
    | _ => exact admits_meet_of_not_refs (Or.inr rfl)
  | _ => exact admits_meet_of_not_refs (Or.inl rfl)

/-- Meets of facts on lengths. -/
theorem admitsLength_meetLength {n : Option Int} :
    AdmitsLength w (meetLength al al') n ↔ AdmitsLength w al n ∧ AdmitsLength w al' n := by
  cases al with
  | none => simp [meetLength, AdmitsLength]
  | some f =>
    cases al' with
    | none => simp [meetLength, AdmitsLength]
    | some g =>
      have hMeet : ∀ m h, (f.meet g).Admits w (.int m h) ↔
          f.Admits w (.int m h) ∧ g.Admits w (.int m h) :=
        fun m h => admits_meet_value nofun nofun
      simp only [meetLength, AdmitsLength, hMeet]
      constructor
      · rintro ⟨m, h, rfl, hf, hg⟩
        exact ⟨⟨m, h, rfl, hf⟩, m, h, rfl, hg⟩
      · rintro ⟨⟨m, h, rfl, hf⟩, m', h', hEq, hg⟩
        cases hEq
        exact ⟨m, h, rfl, hf, hg⟩

/-- A length that there is does not fail. -/
theorem lengthFails_eq_false {n : Option Int} (h : AdmitsLength w (meetLength al al') n) :
    lengthFails al' (meetLength al al') = false := by
  rw [lengthFails, Bool.and_eq_false_iff]
  refine Or.inr ?_
  cases hMet : meetLength al al' with
  | none => rfl
  | some f =>
    rw [hMet] at h
    obtain ⟨m, hLong, -, hf⟩ := h
    cases f with
    | bottom => exact absurd hf not_admits_bottom
    | _ => rfl

/-- An object that both facts admit is admitted by their meet, if there is one of the bounds. -/
theorem admits_meet_object_of (hBound : (f.bound.meet? g.bound).isSome = true)
    (hfo : f.Admits w (.object o)) (hgo : g.Admits w (.object o)) :
    (f.meet g).Admits w (.object o) := by
  rcases admits_object_iff.mp hfo with rfl | ⟨r, al, sl, rfl, hr, hal, hsl⟩
  · rw [top_meet]
    exact hgo
  · rcases admits_object_iff.mp hgo with rfl | ⟨s, al', sl', rfl, hs, hal', hsl'⟩
    · rw [meet_top]
      exact hfo
    · obtain ⟨b, hb⟩ := Option.isSome_iff_exists.mp hBound
      obtain ⟨t, hMeet, ht⟩ := RefInfo.exists_meet?_admitsObject hb hr hs
      have hArray := admitsLength_meetLength.mpr ⟨hal, hal'⟩
      have hString := admitsLength_meetLength.mpr ⟨hsl, hsl'⟩
      rw [meet_ref, hMeet]
      dsimp only
      rw [if_neg ht.notNull, lengthFails_eq_false hArray, lengthFails_eq_false hString]
      exact admits_object.mpr ⟨ht, hArray, hString⟩

/-- A fact that admits an object allows its class. -/
theorem allows_of_admits (h : f.Admits w (.object o)) : f.bound.Allows (w.classOf o) := by
  rcases admits_object_iff.mp h with rfl | ⟨r, al, sl, rfl, hr, -⟩
  · exact TypeBound.allows_top
  · exact hr.bound

/-- **An object that both facts admit is admitted by their meet.** -/
theorem admits_meet_object (hOrders : w.Orders o) (hf : f.Over w.types) (hg : g.Over w.types)
    (hfo : f.Admits w (.object o)) (hgo : g.Admits w (.object o)) :
    (f.meet g).Admits w (.object o) := by
  obtain ⟨b, hBound, -⟩ := TypeBound.allows_meet (w.declared o) hOrders hf hg
    (allows_of_admits hfo) (allows_of_admits hgo)
  exact admits_meet_object_of (Option.isSome_iff_exists.mpr ⟨b, hBound⟩) hfo hgo

/-- **A meet admits nothing that one of the facts does not.** -/
theorem admits_of_meet (hf : f.Over w.types) (hg : g.Over w.types)
    (h : (f.meet g).Admits w x) : f.Admits w x ∧ g.Admits w x := by
  cases f with
  | ref r al sl =>
    cases g with
    | ref s al' sl' =>
      have hMeet : (ref r al sl).meet (ref s al' sl') ≠ bottom := fun h' => by simp [h'] at h
      obtain ⟨t, hrs, ⟨hNull, hEq⟩ | ⟨hNull, hEq⟩⟩ := meet_ref_cases hMeet
      · -- the meet says null
        obtain ⟨hr, hs⟩ := RefInfo.admitsNull_of_meet?_null hrs hNull
        have hx : x = .null := by
          rw [hEq] at h
          rcases h with ⟨hx, -⟩ | ⟨o, -, ho, -⟩
          · exact hx
          · exact absurd rfl ho.notNull
        subst hx
        exact ⟨admits_null.mpr hr, admits_null.mpr hs⟩
      · -- the meet leaves objects
        rw [hEq] at h
        rcases h with ⟨rfl, ht⟩ | ⟨o, rfl, ht, hal, hsl⟩
        · rw [admits_null, admits_null]
          exact (RefInfo.admitsNull_meet?_iff hrs hNull).mp ht
        · obtain ⟨hr, hs⟩ := RefInfo.admitsObject_of_meet? hf hg hrs ht
          obtain ⟨hal, hal'⟩ := admitsLength_meetLength.mp hal
          obtain ⟨hsl, hsl'⟩ := admitsLength_meetLength.mp hsl
          exact ⟨admits_object.mpr ⟨hr, hal, hsl⟩, admits_object.mpr ⟨hs, hal', hsl'⟩⟩
    | _ => exact (admits_meet_of_not_refs (Or.inr rfl)).mp h
  | _ => exact (admits_meet_of_not_refs (Or.inl rfl)).mp h

/-- **Null is in a meet** of facts that admit it, if anything is. -/
theorem admits_null_of_meet (hf : f.Admits w .null) (hg : g.Admits w .null)
    (hMeet : f.meet g ≠ bottom) : (f.meet g).Admits w .null := by
  rcases admits_null_iff.mp hf with rfl | ⟨r, al, sl, rfl, hr⟩
  · rw [top_meet]
    exact hg
  · rcases admits_null_iff.mp hg with rfl | ⟨s, al', sl', rfl, hs⟩
    · rw [meet_top]
      exact admits_null.mpr hr
    · obtain ⟨t, hrs, ⟨-, hEq⟩ | ⟨hNull, hEq⟩⟩ := meet_ref_cases hMeet
      · rw [hEq]
        exact admits_null.mpr RefInfo.admitsNull_null
      · rw [hEq, admits_null]
        exact (RefInfo.admitsNull_meet?_iff hrs hNull).mpr ⟨hr, hs⟩

/-- **The bound of a meet** says nothing, is that of one of the facts, or the meet of both. -/
theorem bound_meet_cases : (f.meet g).bound = .top ∨ (f.meet g).bound = f.bound ∨
    (f.meet g).bound = g.bound ∨ f.bound.meet? g.bound = some (f.meet g).bound := by
  by_cases hRefs : ∃ r al sl s al' sl', f = ref r al sl ∧ g = ref s al' sl'
  · obtain ⟨r, al, sl, s, al', sl', rfl, rfl⟩ := hRefs
    by_cases hMeet : (ref r al sl).meet (ref s al' sl') = bottom
    · rw [hMeet]
      exact Or.inl rfl
    · obtain ⟨t, hrs, ⟨-, hEq⟩ | ⟨hNull, hEq⟩⟩ := meet_ref_cases hMeet
      · rw [hEq]
        exact Or.inl rfl
      · rw [hEq]
        obtain ⟨n, l, -, -, ⟨rfl, -, rfl⟩ | ⟨-, b, m, hBound, -, rfl⟩⟩ :=
          RefInfo.meet?_eq_some.mp hrs
        · exact absurd rfl hNull
        · exact Or.inr (Or.inr (Or.inr hBound))
  · cases f with
    | top =>
      rw [top_meet]
      exact Or.inr (Or.inr (Or.inl rfl))
    | ref r al sl =>
      cases g with
      | ref s al' sl' => exact absurd ⟨r, al, sl, s, al', sl', rfl, rfl⟩ hRefs
      | top => exact Or.inr (Or.inl rfl)
      | _ => exact Or.inl rfl
    | bottom => cases g <;> exact Or.inl rfl
    | bool a =>
      cases g with
      | bool b =>
        rw [meet_bool]
        cases meetKnown? a b <;> exact Or.inl rfl
      | _ => exact Or.inl rfl
    | int r =>
      cases g with
      | int s =>
        refine Or.inl ?_
        rw [meet_int, bound, info_ofRange]
        rfl
      | _ => exact Or.inl rfl
    | double c =>
      cases g with
      | double d =>
        rw [meet_double]
        cases c.meet? d <;> exact Or.inl rfl
      | _ => exact Or.inl rfl

/-- A meet names the types that the facts name. -/
theorem over_meet (hf : f.Over H) (hg : g.Over H) : (f.meet g).Over H := by
  unfold Over
  rcases bound_meet_cases (f := f) (g := g) with hEq | hEq | hEq | hMeet
  · rw [hEq]
    exact TypeBound.over_top
  · rw [hEq]
    exact hf
  · rw [hEq]
    exact hg
  · exact TypeBound.over_meet hf hg hMeet

-- ---------------------------------------------------------------------------
-- Null in company
-- ---------------------------------------------------------------------------

/-- The fact admits the value, and null only together with an object, which stands for
what is left of the reference when it is not null. -/
structure Keeps (w : World) (o : Nat) (f : Fact) (x : Concrete) : Prop where
  admits  : f.Admits w x
  company : x = .null → f.isNull = true ∨ f.Admits w (.object o)

/-- The objects that a value, or its company, stands for are in a row. -/
def Ordered (w : World) (o : Nat) (x : Concrete) : Prop :=
  ∀ p, x = .object p ∨ (x = .null ∧ p = o) → w.Orders p

/-- A value that is not null is kept if it is admitted. -/
theorem keeps_of_admits (hNull : x ≠ .null) (h : f.Admits w x) : f.Keeps w o x :=
  ⟨h, fun h' => absurd h' hNull⟩

/-- Only null has company. -/
theorem Keeps.congr {p : Nat} (h : f.Keeps w o x) (hSame : x = .null → p = o) : f.Keeps w p x :=
  ⟨h.admits, fun hNull => by rw [hSame hNull]; exact h.company hNull⟩

theorem isBottom_of_admits (h : f.Admits w x) : f.isBottom = false := by
  cases f with
  | bottom => exact absurd h not_admits_bottom
  | _ => rfl

theorem Keeps.isBottom (h : f.Keeps w o x) : f.isBottom = false := isBottom_of_admits h.admits

theorem isNull_iff : f.isNull = true ↔ ∃ r al sl, f = ref r al sl ∧ r.nullness = .null := by
  cases f <;> simp [isNull, nullness]


/-- A fact that says null and nothing else goes with every fact that leaves room for it. -/
theorem keeps_meet_null (hfx : f.Admits w .null) (hgx : g.Admits w .null)
    (hNull : f.isNull = true ∨ g.isNull = true) : (f.meet g).Keeps w o .null := by
  rcases admits_null_iff.mp hfx with rfl | ⟨r, al, sl, rfl, hr⟩
  · rw [top_meet]
    exact ⟨hgx, fun _ => Or.inl (hNull.resolve_left nofun)⟩
  · rcases admits_null_iff.mp hgx with rfl | ⟨s, al', sl', rfl, hs⟩
    · rw [meet_top]
      exact ⟨hfx, fun _ => Or.inl (hNull.resolve_right nofun)⟩
    · have hMeet := RefInfo.meet?_null hr hs
        (hNull.imp (fun h => beq_iff_eq.mp h) fun h => beq_iff_eq.mp h)
      rw [meet_ref, hMeet]
      exact ⟨admits_null.mpr RefInfo.admitsNull_null, fun _ => Or.inl rfl⟩

/-- Null is all that is left of a value that is found to be null. -/
theorem meet_null (hf : f.Admits w .null) : f.meet null = null := by
  rcases admits_null_iff.mp hf with rfl | ⟨r, al, sl, rfl, hr⟩
  · exact top_meet
  · rw [null, ofNullness, meet_ref,
      RefInfo.meet?_null hr RefInfo.admitsNull_null (Or.inr rfl)]
    rfl

theorem null_meet (hf : f.Admits w .null) : null.meet f = null := by
  rcases admits_null_iff.mp hf with rfl | ⟨r, al, sl, rfl, hr⟩
  · exact meet_top
  · rw [null, ofNullness, meet_ref,
      RefInfo.meet?_null RefInfo.admitsNull_null hr (Or.inl rfl)]
    rfl

/-- **A meet keeps what both facts keep.** -/
theorem keeps_meet (hf : f.Over w.types) (hg : g.Over w.types) (hOrdered : Ordered w o x)
    (hfx : f.Keeps w o x) (hgx : g.Keeps w o x) : (f.meet g).Keeps w o x := by
  by_cases hNull : x = .null
  · subst hNull
    by_cases hEither : f.isNull = true ∨ g.isNull = true
    · -- one of the facts says null, and so does the meet
      exact keeps_meet_null hfx.admits hgx.admits hEither
    · -- the company of both facts is that of their meet, and null comes along
      have hfo := (hfx.company rfl).resolve_left fun h => hEither (Or.inl h)
      have hgo := (hgx.company rfl).resolve_left fun h => hEither (Or.inr h)
      have hMeet := admits_meet_object (hOrdered o (Or.inr ⟨rfl, rfl⟩)) hf hg hfo hgo
      have hSome : f.meet g ≠ bottom := by
        intro hBottom
        rw [hBottom] at hMeet
        exact not_admits_bottom hMeet
      exact ⟨admits_null_of_meet hfx.admits hgx.admits hSome, fun _ => Or.inr hMeet⟩
  · -- nothing is asked of other values but to be admitted
    refine ⟨?_, fun h => absurd h hNull⟩
    by_cases hObject : ∃ p, x = .object p
    · obtain ⟨p, rfl⟩ := hObject
      exact admits_meet_object (hOrdered p (Or.inl rfl)) hf hg hfx.admits hgx.admits
    · exact (admits_meet_value hNull fun p hp => hObject ⟨p, hp⟩).mpr ⟨hfx.admits, hgx.admits⟩

/-- **A fact met again** with what was met into it keeps what the result keeps. The fact `f`
may leave more than its meet with `s` does, so nothing is known of the company it allows. -/
theorem keeps_absorb {s : Fact} (hf : f.Over w.types) (hs : s.Over w.types)
    (hg : g.Over w.types) (hOrdered : Ordered w o x) (h : ((f.meet s).meet g).Keeps w o x) :
    (f.meet ((f.meet s).meet g)).Keeps w o x := by
  have hfs := over_meet hf hs
  have hfx := (admits_of_meet hf hs (admits_of_meet hfs hg h.admits).1).1
  have hNext := over_meet hfs hg
  by_cases hNull : x = .null ∧ ((f.meet s).meet g).isNull = true
  · obtain ⟨rfl, hNull⟩ := hNull
    exact keeps_meet_null hfx h.admits (Or.inr hNull)
  · refine keeps_meet hf hNext hOrdered ⟨hfx, fun hx => Or.inr ?_⟩ h
    have hObject := (h.company hx).resolve_left fun h' => hNull ⟨hx, h'⟩
    exact (admits_of_meet hf hs (admits_of_meet hfs hg hObject).1).1

end Fact

end Pathwise
