import Pathwise.Proofs.Assignments
import Pathwise.Proofs.Forms

/-!
# Values that escape

A value that escapes is not known to be local any more, and neither is what it qualifies. The
fact without the locality is stored and met with the declaration again when it is read, so
nothing is gained and an object stays where it was.

Null stays too, unless the declaration states a length that there cannot be: a meet looks at
the lengths again, and then it has nothing left.

## Results

* `Fact.admits_meet_dropLocality`    — a value of a meet stays when the locality is dropped.
* `State.satisfies_dropVariableLocality` — a variable that is not known to be local any more.
* `State.satisfies_dropLocality`     — **a value that escapes** leaves all valuations.
-/

namespace Pathwise

-- ---------------------------------------------------------------------------
-- References
-- ---------------------------------------------------------------------------

namespace RefInfo

variable {r s t : RefInfo}

/-- Without the locality of the right side the meet is the same, but for the locality. -/
theorem meet?_dropLocality (h : r.meet? s = some t) : ∃ b, (b = true → t.isLocal = true) ∧
    r.meet? { s with isLocal := false } = some { t with isLocal := b } := by
  obtain ⟨n, l, hNullness, hLiteral, hRest⟩ := meet?_eq_some.mp h
  have hParts : ∀ t', ((n = .null ∧ l = none ∧ t' = ofNullness .null) ∨
      (n ≠ .null ∧ ∃ b m, r.bound.meet? s.bound = some b ∧
        r.mutability.meet? s.mutability = some m ∧ t' = ⟨n, b, r.isLocal || false, m, l⟩)) →
      r.meet? { s with isLocal := false } = some t' := fun t' h' =>
    meet?_eq_some.mpr ⟨n, l, hNullness, hLiteral, h'⟩
  rcases hRest with ⟨rfl, rfl, rfl⟩ | ⟨hn, b, m, hBound, hMutability, rfl⟩
  · exact ⟨false, nofun, hParts _ (Or.inl ⟨rfl, rfl, rfl⟩)⟩
  · refine ⟨r.isLocal || false, ?_, hParts _ (Or.inr ⟨hn, b, m, hBound, hMutability, rfl⟩)⟩
    intro hLocal
    rw [Bool.or_false] at hLocal
    show (r.isLocal || s.isLocal) = true
    rw [hLocal, Bool.true_or]

end RefInfo

-- ---------------------------------------------------------------------------
-- Facts
-- ---------------------------------------------------------------------------

namespace Fact

variable {w : World} {f g : Fact} {x : Concrete} {l : Length} {n : Int} {hn : n ∈ Range.full}

theorem isLocal_null : null.isLocal = false := rfl

/-- A fact that tells of locality is on references. -/
theorem exists_ref_of_isLocal (h : f.isLocal = true) : ∃ r al sl, f = ref r al sl := by
  cases f with
  | ref r al sl => exact ⟨r, al, sl, rfl⟩
  | _ => cases h

theorem admits_dropLocality (h : f.Admits w x) : f.dropLocality.Admits w x := by
  cases f with
  | ref r al sl =>
    rcases h with ⟨rfl, hr⟩ | ⟨o, rfl, hr, hal, hsl⟩
    · exact admits_null.mpr ⟨hr.nullable, hr.literal⟩
    · exact admits_object.mpr ⟨⟨hr.notNull, hr.bound, nofun, hr.mutability, hr.literal⟩, hal, hsl⟩
  | _ => exact h

/-- The locality tells nothing of lengths. -/
theorem lengthFact_dropLocality : f.dropLocality.lengthFact l = f.lengthFact l := by
  cases f <;> cases l <;> rfl

/-- **A fact met with itself** leaves its values. Null asks for lengths that are possible. -/
theorem admits_meet_self (hf : f.Over w.types) (hFormed : f.Formed)
    (hMeasurable : x = .null → f.Measurable w) (h : f.Admits w x) : (f.meet f).Admits w x := by
  cases f with
  | ref r al sl =>
    rcases h with ⟨rfl, hr⟩ | ⟨o, rfl, ho⟩
    · by_cases hNull : r.nullness = .null
      · exact (keeps_meet_null (o := 0) (admits_null.mpr hr) (admits_null.mpr hr)
          (Or.inl (beq_iff_eq.mpr hNull))).admits
      · obtain ⟨⟨m, hal⟩, k, hsl⟩ := hMeasurable rfl
        rw [meet_ref, RefInfo.meet?_self hf hFormed hNull]
        dsimp only
        rw [if_neg hNull, lengthFails_self hal, lengthFails_self hsl]
        exact admits_null.mpr hr
    · have hBound : r.bound.meet? r.bound = some r.bound :=
        TypeBound.Made.meet?_self hFormed hf
      exact admits_meet_object_of (Option.isSome_iff_exists.mpr ⟨_, hBound⟩)
        (admits_object.mpr ho) (admits_object.mpr ho)
  | _ => exact (admits_meet_of_not_refs (Or.inl rfl)).mpr ⟨h, h⟩

/-- A value of a meet stays in it when the right side drops the locality. -/
theorem admits_meet_of_local (h : (f.meet g).Admits w x) : (f.meet g.dropLocality).Admits w x := by
  cases f with
  | ref r al sl =>
    cases g with
    | ref s al' sl' =>
      have hMeet : (ref r al sl).meet (ref s al' sl') ≠ bottom := fun h' => by simp [h'] at h
      obtain ⟨t, hrs, hRest⟩ := meet_ref_cases hMeet
      obtain ⟨b, hb, hDropped⟩ := RefInfo.meet?_dropLocality hrs
      show ((ref r al sl).meet (ref { s with isLocal := false } al' sl')).Admits w x
      rcases hRest with ⟨hNull, hEq⟩ | ⟨hNull, hEq⟩
      · rw [meet_ref, hDropped]
        dsimp only
        rw [if_pos hNull, ← hEq]
        exact h
      · have hFails : (lengthFails al' (meetLength al al') ||
            lengthFails sl' (meetLength sl sl')) = false := by
          refine eq_false_of_ne_true fun hFails => hMeet ?_
          rw [meet_ref, hrs]
          dsimp only
          rw [if_neg hNull, if_pos hFails]
        rw [meet_ref, hDropped]
        dsimp only
        rw [if_neg hNull, hFails]
        rw [hEq] at h
        rcases h with ⟨rfl, ht⟩ | ⟨o, rfl, ht, hal, hsl⟩
        · exact admits_null.mpr ⟨ht.nullable, ht.literal⟩
        · exact admits_object.mpr ⟨⟨ht.notNull, ht.bound, fun h => ht.isLocal (hb h),
            ht.mutability, ht.literal⟩, hal, hsl⟩
    | _ => exact h
  | _ =>
    obtain ⟨hf, hg⟩ := (admits_meet_of_not_refs (Or.inl rfl)).mp h
    exact (admits_meet_of_not_refs (Or.inl rfl)).mpr ⟨hf, admits_dropLocality hg⟩

/-- **A value of a meet** is in the meet of one side with what it is without the locality. -/
theorem admits_meet_dropLocality (hf : f.Over w.types) (hg : g.Over w.types)
    (hFormed : (f.meet g).Formed) (hMeasurable : x = .null → f.Measurable w)
    (h : (f.meet g).Admits w x) : (f.meet (f.meet g).dropLocality).Admits w x := by
  refine admits_meet_of_local ?_
  by_cases hTop : g = top
  · subst hTop
    rw [meet_top] at hFormed h ⊢
    exact admits_meet_self hf hFormed hMeasurable h
  · exact admits_absorb hf hg hTop hMeasurable h

-- ---------------------------------------------------------------------------
-- Lengths of null
-- ---------------------------------------------------------------------------

/-- What a reference that is no constant tells of a length. -/
theorem admits_lengthFact_ref {r : RefInfo} {al sl : Option Fact} (hr : r.literal = none) :
    ((ref r al sl).lengthFact l).Admits w (.int n hn) ↔
      AdmitsLength w (match l with | .array => al | .string => sl) (some n) ∧
        (int .lengths).Admits w (.int n hn) := by
  have hStated : ∀ g : Option Fact, (lengthFact.statedLength g).Admits w (.int n hn) ↔
      AdmitsLength w g (some n) ∧ (int .lengths).Admits w (.int n hn) := by
    rintro (_ | g)
    · exact (and_iff_right trivial).symm
    · have hMeet : (g.meet (int .lengths)).Admits w (.int n hn) ↔
          g.Admits w (.int n hn) ∧ (int .lengths).Admits w (.int n hn) :=
        admits_meet_value nofun nofun
      refine hMeet.trans (and_congr_left fun _ => ⟨fun hg => ⟨n, hn, rfl, hg⟩, ?_⟩)
      rintro ⟨m, hm, hEq, hg⟩
      cases hEq
      exact hg
  cases l with
  | array => exact hStated al
  | string =>
    simp only [lengthFact, hr]
    exact hStated sl

/-- What a meet that leaves null tells of a length, its left side does, unless it is null that
it tells of. -/
theorem admits_lengthFact_of_meet (hNull : (f.meet g).Admits w .null) (hOpen : f.meet g ≠ null)
    (h : ((f.meet g).lengthFact l).Admits w (.int n hn)) :
    (f.lengthFact l).Admits w (.int n hn) := by
  have hLengths := lengths_of_lengthFact_null hNull h
  cases f with
  | ref r al sl =>
    cases g with
    | top => exact h
    | ref s al' sl' =>
      have hMeet : (ref r al sl).meet (ref s al' sl') ≠ bottom := fun h' => by simp [h'] at hNull
      obtain ⟨t, hrs, ⟨-, hEq⟩ | ⟨ht, hEq⟩⟩ := meet_ref_cases hMeet
      · exact absurd hEq hOpen
      · rw [hEq] at hNull h
        have hLiteral := admits_null.mp hNull
        have hr := ((RefInfo.admitsNull_meet?_iff hrs ht).mp hLiteral).1
        rw [admits_lengthFact_ref hLiteral.literal] at h
        refine (admits_lengthFact_ref hr.literal).mpr ⟨?_, hLengths⟩
        cases l with
        | array => exact (admitsLength_meetLength.mp h.1).1
        | string => exact (admitsLength_meetLength.mp h.1).1
    | _ => exact absurd hNull not_admits_bottom
  | _ => exact hLengths

/-- What both sides of a meet that leaves null tell of a length, the meet does. -/
theorem admits_lengthFact_meet (hNull : (f.meet g).Admits w .null)
    (hf : (f.lengthFact l).Admits w (.int n hn)) (hg : (g.lengthFact l).Admits w (.int n hn)) :
    ((f.meet g).lengthFact l).Admits w (.int n hn) := by
  cases f with
  | ref r al sl =>
    cases g with
    | top => exact hf
    | ref s al' sl' =>
      have hMeet : (ref r al sl).meet (ref s al' sl') ≠ bottom := fun h' => by simp [h'] at hNull
      obtain ⟨t, hrs, ⟨ht, hEq⟩ | ⟨ht, hEq⟩⟩ := meet_ref_cases hMeet
      · obtain ⟨hr, -⟩ := RefInfo.admitsNull_of_meet?_null hrs ht
        rw [hEq, lengthFact_null]
        exact lengths_of_lengthFact_null (admits_null.mpr hr) hf
      · rw [hEq] at hNull ⊢
        have hLiteral := admits_null.mp hNull
        obtain ⟨hr, hs⟩ := (RefInfo.admitsNull_meet?_iff hrs ht).mp hLiteral
        rw [admits_lengthFact_ref hr.literal] at hf
        rw [admits_lengthFact_ref hs.literal] at hg
        refine (admits_lengthFact_ref hLiteral.literal).mpr ⟨?_, hf.2⟩
        cases l with
        | array => exact admitsLength_meetLength.mpr ⟨hf.1, hg.1⟩
        | string => exact admitsLength_meetLength.mpr ⟨hf.1, hg.1⟩
    | _ => exact absurd hNull not_admits_bottom
  | top =>
    rw [top_meet]
    exact hg
  | _ =>
    obtain ⟨hNull, -⟩ := (admits_meet_of_not_refs (Or.inl rfl)).mp hNull
    obtain hEq | ⟨_, _, _, hEq, -⟩ := admits_null_iff.mp hNull <;> cases hEq

end Fact

-- ---------------------------------------------------------------------------
-- States
-- ---------------------------------------------------------------------------

namespace State

variable {w : World} {H : Hierarchy} {a : Arena} {s : State} {ρ : ValueId → Concrete} {v : ValueId}

theorem Built.dropVariableLocality (h : Built H a s) : Built H a (s.dropVariableLocality a v) := by
  obtain ⟨hArena, hState⟩ := h.reached.coherent
  unfold State.dropVariableLocality
  dsimp only
  split
  · exact h.store v _ (Fact.over_dropLocality (over_fact hArena hState))
      (Fact.formed_dropLocality (h.formed v))
  · exact h

/-- Only references are local, so what is known to be is no length. -/
theorem derived_of_isLocal {i : Variable} (hBack : a.Backward) (hi : a.get v = .var i)
    (hLocal : (s.fact a v).isLocal = true) : s.derived a i = a.inherent v := by
  obtain ⟨r, al, sl, hRef⟩ := Fact.exists_ref_of_isLocal hLocal
  exact derived_of_not_length hi (hBack.not_lengthOf_of_ref hRef)

/-- What is known of a local variable when the fact without the locality was stored: its
declaration, or the meet of the declaration with that fact. -/
theorem fact_setDropped (hBack : a.Backward) (hVariable : a.isVariable v = true)
    (hLocal : (s.fact a v).isLocal = true) :
    (s.setFact a v (s.fact a v).dropLocality).fact a v = (s.fact a v).dropLocality ∨
      (s.setFact a v (s.fact a v).dropLocality).fact a v =
        (a.inherent v).meet (s.fact a v).dropLocality := by
  obtain ⟨i, hi⟩ := Arena.isVariable_iff.mp hVariable
  rw [hBack.fact_setFact_self hi, stored_setFact hVariable, derived_of_isLocal hBack hi hLocal]
  split
  · rename_i hSaid
    exact Or.inl (by rw [Fact.meet_top, ← hSaid])
  · exact Or.inr rfl

/-- A variable that is not known to be local any more keeps its value. -/
theorem admits_setDropped (hBuilt : Built w.types a s) (hVariable : a.isVariable v = true)
    (hLocal : (s.fact a v).isLocal = true) (hOld : (s.fact a v).Admits w (ρ v))
    (hMeasurable : ρ v = .null → (a.inherent v).Measurable w) :
    ((s.setFact a v (s.fact a v).dropLocality).fact a v).Admits w (ρ v) := by
  obtain ⟨hArena, hState⟩ := hBuilt.reached.coherent
  obtain ⟨i, hi⟩ := Arena.isVariable_iff.mp hVariable
  have hFormed := hBuilt.formed v
  rcases fact_setDropped hArena.backward hVariable hLocal with hEq | hEq
  · rw [hEq]
    exact Fact.admits_dropLocality hOld
  · rw [hEq]
    rw [fact_var hArena hi, derived_of_isLocal hArena.backward hi hLocal] at hOld hFormed ⊢
    exact Fact.admits_meet_dropLocality (hArena.declared v) (over_stored hState) hFormed
      hMeasurable hOld

/-- As much is known of the lengths of null as before. -/
theorem admits_lengthFact_setDropped {l : Length} {n : Int} {hn : n ∈ Range.full}
    (hArena : a.Coherent w.types) (hVariable : a.isVariable v = true)
    (hLocal : (s.fact a v).isLocal = true) (hOld : (s.fact a v).Admits w .null)
    (hNew : ((s.setFact a v (s.fact a v).dropLocality).fact a v).Admits w .null)
    (h : ((s.fact a v).lengthFact l).Admits w (.int n hn)) :
    (((s.setFact a v (s.fact a v).dropLocality).fact a v).lengthFact l).Admits w
      (.int n hn) := by
  have hDropped : ((s.fact a v).dropLocality.lengthFact l).Admits w (.int n hn) := by
    rw [Fact.lengthFact_dropLocality]
    exact h
  rcases fact_setDropped hArena.backward hVariable hLocal with hEq | hEq
  · rw [hEq]
    exact hDropped
  · rw [hEq] at hNew ⊢
    refine Fact.admits_lengthFact_meet hNew ?_ hDropped
    -- the declaration was met with what was stored before
    have hOpen : s.fact a v ≠ .null := by
      intro hEq
      rw [hEq, Fact.isLocal_null] at hLocal
      cases hLocal
    obtain ⟨i, hi⟩ := Arena.isVariable_iff.mp hVariable
    rw [fact_var hArena hi, derived_of_isLocal hArena.backward hi hLocal] at hOld hOpen h
    exact Fact.admits_lengthFact_of_meet hOld hOpen h

/-- **A variable is not known to be local any more**, and keeps its value. -/
theorem satisfies_dropVariableLocality (hBuilt : Built w.types a s) (hρ : s.Satisfies w a ρ)
    (hMeasurable : ρ v = .null → (a.inherent v).Measurable w) :
    (s.dropVariableLocality a v).Satisfies w a ρ := by
  obtain ⟨hArena, hState⟩ := hBuilt.reached.coherent
  unfold dropVariableLocality
  dsimp only
  split
  case isFalse => exact hρ
  case isTrue hLocal =>
  cases hVariable : a.isVariable v with
  | false =>
    rw [setFact_of_not_variable hVariable]
    exact hρ
  | true =>
    have hOld : (s.fact a v).Admits w (ρ v) := hρ.admits hVariable nofun
    have hNew := admits_setDropped hBuilt hVariable hLocal hOld hMeasurable
    refine ⟨?_, hρ.lengths, by rw [setFact_links]; exact hρ.links⟩
    -- a variable is the one that escapes, a length of it, or as before
    intro u hu _
    have hAdmits := hρ.admits hu nofun
    by_cases hNe : u = v
    · rw [hNe]
      exact hNew
    · by_cases hOf : ∃ l, a.LengthOf l v u
      · obtain ⟨l, hOf⟩ := hOf
        by_cases hNull : ρ v = .null
        · rw [hNull] at hOld hNew
          exact admits_setFact_length_of hArena hOf hNe hAdmits fun n hn _ =>
            admits_lengthFact_setDropped hArena hVariable hLocal hOld hNew
        · exact admits_setFact_length hArena hOf hNe (fun o n => hρ.lengths hOf hVariable) hNull
            hOld hNew hAdmits
      · rw [fact_setFact_of_ne hArena hNe fun l h => hOf ⟨l, h⟩]
        exact hAdmits

/-- Variables are not known to be local any more, one after the other. -/
theorem satisfies_dropLocalities (vs : List ValueId) (hBuilt : Built w.types a s)
    (hρ : s.Satisfies w a ρ)
    (hMeasurable : ∀ v ∈ vs, ρ v = .null → (a.inherent v).Measurable w) :
    (vs.foldl (dropVariableLocality a) s).Satisfies w a ρ := by
  induction vs generalizing s with
  | nil => exact hρ
  | cons v vs ih =>
    exact ih hBuilt.dropVariableLocality
      (satisfies_dropVariableLocality hBuilt hρ (hMeasurable v List.mem_cons_self))
      fun u hu => hMeasurable u (List.mem_cons_of_mem _ hu)

/-- **A value that escapes** leaves all valuations, as far as null is declared with lengths that
there can be. -/
theorem satisfies_dropLocality (hBuilt : Built w.types a s) (hρ : s.Satisfies w a ρ)
    (hMeasurable : ∀ m, a.Owns v m → ρ m = .null → (a.inherent m).Measurable w) :
    (s.dropLocality a v).1.Satisfies w a ρ := by
  unfold dropLocality
  cases a.get v with
  | var x =>
    refine satisfies_dropLocalities _ hBuilt hρ fun m hm => hMeasurable m ?_
    exact List.mem_cons.mp hm
  | _ => exact hρ

/-- Where the variables that a value qualifies are null, they are declared with lengths that
there can be. -/
def Possible (w : World) (a : Arena) (ρ : ValueId → Concrete) (v : ValueId) : Prop :=
  ∀ m ∈ a.dependents v, ρ m = .null → (a.inherent m).Measurable w

/-- **All that a value qualifies escapes**, one after the other. -/
theorem satisfies_dropDependents (ds : List ValueId) (hds : ∀ d ∈ ds, d ∈ a.dependents v)
    (hBuilt : Built w.types a s) (hρ : s.Satisfies w a ρ) (hPossible : Possible w a ρ v) :
    (ds.foldl (fun s d => (s.dropLocality a d).1) s).Satisfies w a ρ := by
  obtain ⟨hArena, -⟩ := hBuilt.reached.coherent
  induction ds generalizing s with
  | nil => exact hρ
  | cons d ds ih =>
    have hd := hds d List.mem_cons_self
    have hStep : (s.dropLocality a d).1.Satisfies w a ρ :=
      satisfies_dropLocality hBuilt hρ fun m hm => hPossible m (hm.elim (fun h => h ▸ hd)
        fun hm => Arena.mem_dependents_of_mem_qualifiers hArena.backward
          (Arena.mem_dependents.mp hm).2 hd)
    have hNext : Built w.types a (s.dropLocality a d).1 := by
      have hDropped := hBuilt.dropLocality d
      obtain ⟨x, hx⟩ := Arena.isVariable_iff.mp (Arena.mem_dependents.mp hd).1
      unfold dropLocality at hDropped ⊢
      rw [hx] at hDropped ⊢
      exact hDropped
    exact ih (fun d hd => hds d (List.mem_cons_of_mem _ hd)) hNext hStep

end State

end Pathwise
