import Pathwise.Proofs.Assignments
import Pathwise.Proofs.Feasibility
import Pathwise.Proofs.Forms

/-!
# Variables that are asked for

An instruction may ask the arena for a variable, such as the length of an array or an element
of it. Nothing is stored for a variable that was not there, so it may stand for whatever its
declaration leaves and, for a length, what the fact on the object tells. A valuation of the
values before goes on as one of the values after, and what it satisfied it still does.

## Results

* `Arena.Continues`         — a valuation of more values.
* `State.exists_continues`  — a valuation gives a new variable any value that it may have.
* `State.HasLength`         — a length of a value, as a state and a valuation tell.
* `State.HasLength.denotes` — the value that is asked for as the length stands for it.
* `State.continues_element` — an element that is asked for has some value.
-/

namespace Pathwise

-- ---------------------------------------------------------------------------
-- Arenas
-- ---------------------------------------------------------------------------

namespace Arena

variable {H : Hierarchy} {a b c : Arena} {x : Value} {y : Variable} {u v q : ValueId} {l : Length}
  {ρ ρ' ρ'' : ValueId → Concrete}

/-- **A valuation of more values** gives those of the arena the values they have. -/
def Continues (a : Arena) (ρ ρ' : ValueId → Concrete) : Prop := ∀ v, v < a.size → ρ' v = ρ v

theorem Continues.refl : a.Continues ρ ρ := fun _ _ => rfl

theorem Continues.trans (h : a.Continues ρ ρ') (hPart : a.Part b) (h' : b.Continues ρ' ρ'') :
    a.Continues ρ ρ'' :=
  fun v hv => (h' v (Nat.lt_of_lt_of_le hv hPart.size)).trans (h v hv)

theorem Part.trans (h : a.Part b) (h' : b.Part c) : a.Part c :=
  ⟨Nat.le_trans h.size h'.size, fun hv =>
    (h'.get (Nat.lt_of_lt_of_le hv h.size)).trans (h.get hv)⟩

theorem Part.isVariable (h : a.Part b) (hv : v < a.size) : b.isVariable v = a.isVariable v := by
  unfold Arena.isVariable varAt?
  rw [h.get hv]

theorem Part.lengthOf (h : a.Part b) (hv : v < a.size) : b.LengthOf l q v ↔ a.LengthOf l q v := by
  unfold LengthOf
  rw [h.get hv]

/-- What qualifies a value is there with it. -/
theorem Part.qualifiers (h : a.Part b) (hBack : a.Backward) (hv : v < a.size) :
    b.qualifiers v = a.qualifiers v := by
  have hUpTo : ∀ n v, v < a.size → b.qualifiersUpTo n v = a.qualifiersUpTo n v := by
    intro n
    induction n with
    | zero => exact fun _ _ => rfl
    | succ n ih =>
      intro v hv
      have hSame : b.qualifier? v = a.qualifier? v := by
        unfold qualifier? varAt?
        rw [h.get hv]
      rw [qualifiersUpTo_succ, qualifiersUpTo_succ, hSame]
      cases hq : a.qualifier? v with
      | none => rfl
      | some q => exact congrArg (q :: ·) (ih q (Nat.lt_trans (lt_of_qualifier? hBack hq) hv))
  exact hUpTo v v hv

/-- What a value qualifies it does with more values there. -/
theorem Part.mem_dependents (h : a.Part b) (hBack : a.Backward) (hv : v < a.size) :
    v ∈ b.dependents q ↔ v ∈ a.dependents q := by
  rw [Arena.mem_dependents, Arena.mem_dependents, h.isVariable hv, h.qualifiers hBack hv]

theorem part_intern : a.Part (a.intern x).2 := by
  refine ⟨size_le_intern, fun {v} hv => ?_⟩
  rcases get_intern (a := a) (x := x) (v := v) with hOld | ⟨rfl, -⟩
  · exact hOld
  · exact absurd hv (Nat.lt_irrefl _)

/-- Past the end of the arena there is no variable. -/
theorem not_isVariable_of_size_le (h : a.size ≤ v) : a.isVariable v = false :=
  Bool.eq_false_iff.mpr fun hv => absurd (lt_of_isVariable hv) (Nat.not_lt.mpr h)

/-- **A variable that is asked for** is there, maybe with an earlier declaration. -/
theorem get_var : ∃ z, (a.intern (.var y)).2.get (a.intern (.var y)).1 = .var z ∧
    z.descriptor = y.descriptor ∧ z.qualifier = y.qualifier := by
  unfold intern
  split
  · rename_i v hv
    obtain ⟨hLess, hSame, -⟩ := Array.findIdx?_eq_some_iff_getElem.mp hv
    have hGet : a.get v = a.values[v] := by
      rw [get, Array.getD_eq_getD_getElem?, Array.getElem?_eq_getElem hLess]
      rfl
    dsimp only
    rw [hGet]
    unfold Value.same at hSame
    split at hSame
    · rename_i z hVar hz
      cases hVar
      rw [Bool.and_eq_true, beq_iff_eq, beq_iff_eq] at hSame
      exact ⟨z, hz, hSame.1.symm, hSame.2.symm⟩
    · exact ⟨y, (beq_iff_eq.mp hSame).symm, rfl, rfl⟩
  · refine ⟨y, ?_, rfl, rfl⟩
    show (a.values.push (.var y)).getD a.values.size .unknown = .var y
    rw [Array.getD_eq_getD_getElem?, Array.getElem?_push_size]
    rfl

theorem isVariable_var : (a.intern (.var y)).2.isVariable (a.intern (.var y)).1 = true := by
  obtain ⟨z, hz, -⟩ := get_var (a := a) (y := y)
  exact isVariable_iff.mpr ⟨z, hz⟩

/-- A value that is asked for was there, and the arena stays, or it is put at the end. -/
theorem intern_cases : (a.intern x).1 < a.size ∧ (a.intern x).2 = a ∨
    (a.intern x).1 = a.size ∧ (a.intern x).2.get a.size = x := by
  unfold intern
  split
  · rename_i v hv
    exact Or.inl ⟨(Array.findIdx?_eq_some_iff_findIdx_eq.mp hv).1, rfl⟩
  · refine Or.inr ⟨rfl, ?_⟩
    show (a.values.push x).getD a.values.size .unknown = x
    rw [Array.getD_eq_getD_getElem?, Array.getElem?_push_size]
    rfl

theorem part_lengthOf : a.Part (a.lengthOf l v).2 := by
  unfold lengthOf
  cases a.get v with
  | var y => exact part_intern
  | wrapped k inner f =>
    dsimp only
    split
    · exact (Grows.refl a).part
    · exact part_intern
  | typed f => exact part_intern
  | unknown => exact part_intern

/-- The only variable that a length may bring up is declared to be one. -/
theorem isVariable_lengthOf (h : (a.lengthOf l v).2.isVariable u = true) :
    u < a.size ∨ (a.lengthOf l v).2.inherent u = .int .lengths := by
  have hTyped : ∀ {f : Fact}, (a.typed f).2.isVariable u = true → u < a.size :=
    fun hu => grows_typed.lt_size hu
  unfold lengthOf at h ⊢
  cases hGet : a.get v with
  | var y =>
    rw [hGet] at h
    rcases get_intern (a := a) (x := .var ⟨.length l, some v, .int .lengths⟩) (v := u) with
      hOld | ⟨-, hNew⟩
    · refine Or.inl (lt_of_isVariable ?_)
      rwa [isVariable_iff, var, hOld, ← isVariable_iff] at h
    · refine Or.inr ?_
      rw [inherent, var, hNew]
      rfl
  | wrapped k inner f =>
    rw [hGet] at h
    dsimp only at h
    split at h
    · exact Or.inl (lt_of_isVariable h)
    · exact Or.inl (hTyped h)
  | typed f =>
    rw [hGet] at h
    exact Or.inl (hTyped h)
  | unknown =>
    rw [hGet] at h
    exact Or.inl (hTyped h)

/-- An element of an array is asked for as one of its variables, on which the type of the
elements tells. -/
theorem element?_eq_some {r : Range} {p : ValueId × Arena} (h : a.element? q r = some p) :
    a.isVariable q = true ∧ ∃ i f, p = a.intern (.var ⟨.element i, some q, f⟩) ∧
      (f = .top ∨ ∃ t, f = .ofType t .unknown ∧
        ((a.inherent q).Over H → H.Declares t)) := by
  simp only [element?, Option.bind_eq_bind, Option.bind_eq_some_iff] at h
  obtain ⟨i, -, x, hx, hRest⟩ := h
  have hGet : a.get q = .var x := by
    unfold varAt? at hx
    split at hx
    · rename_i y hy
      rw [hy, Option.some.inj hx]
    · cases hx
  split at hRest
  · refine ⟨isVariable_iff.mpr ⟨x, hGet⟩, i, _, (Option.some.inj hRest).symm, ?_⟩
    split
    · rename_i t ht
      refine Or.inr ⟨t, rfl, fun hOver => ?_⟩
      obtain ⟨u, hu, hComponent⟩ := Option.bind_eq_some_iff.mp ht
      rw [inherent, hGet] at hOver
      cases u with
      | array c =>
        cases hComponent
        exact H.component (TypeBound.Over.mostSpecific hOver hu)
      | _ => cases hComponent
    · exact Or.inl rfl
  · cases hRest

end Arena

-- ---------------------------------------------------------------------------
-- States
-- ---------------------------------------------------------------------------

namespace State

variable {w : World} {H : Hierarchy} {a b : Arena} {s : State} {ρ : ValueId → Concrete}
  {u v : ValueId} {l : Length} {x : Concrete} {y : Variable}

/-- Facts are stored for variables only. -/
def Filed (a : Arena) (s : State) : Prop := ∀ v, a.isVariable v = false → s.stored v = .top

/-- That facts are stored for variables only is an invariant. -/
theorem filed_invariant : Invariant a (Filed a) fun _ => True where
  closed := ⟨fun _ => trivial, fun _ _ => trivial, fun _ _ => trivial, fun _ => trivial⟩
  declared _ := trivial
  fact _ := trivial
  store := by
    intro s v f _ hs u hu
    by_cases hNe : u = v
    · rw [setFact_of_not_variable (hNe ▸ hu)]
      exact hs u hu
    · rw [stored_setFact_of_ne hNe]
      exact hs u hu
  link := by
    intro s u rel v _ _ hs m hm
    rw [stored, facts_addLink]
    exact hs m hm
  forget := by
    intro s v hs u hu
    rw [stored_forget]
    split
    · rfl
    · exact hs u hu

theorem Filed.intern {x : Value} (hs : s.Filed a) : s.Filed (a.intern x).2 := by
  intro v hv
  refine hs v (Bool.eq_false_iff.mpr fun hOld => ?_)
  cases hv.symm.trans (Arena.isVariable_intern hOld)

/-- **What there can be** has facts for variables only. -/
theorem Reached.filed (h : Reached H a s) : s.Filed a := by
  induction h with
  | start => exact fun _ _ => rfl
  | intern x _ _ ih => exact ih.intern
  | same _ hFacts _ ih =>
    intro v hv
    rw [stored, hFacts]
    exact ih v hv
  | store v f _ _ ih => exact filed_invariant.store trivial ih
  | meet v f _ _ ih => exact filed_invariant.meetFact trivial ih
  | apply c _ ih => exact filed_invariant.apply ih c
  | assign v u _ hv ih => exact filed_invariant.assign ih hv
  | flushVariable v _ ih => exact filed_invariant.flushVariable ih
  | flushDependents v _ ih => exact filed_invariant.flushDependents ih
  | flushFields _ ih => exact filed_invariant.flushFields ih
  | dropLocality v _ ih =>
    rcases filed_invariant.dropLocality (v := v) ih with ⟨hArena, hs⟩ | ⟨x, -, -, hArena, hs⟩
    · rw [hArena]
      exact hs
    · rw [hArena, hs]
      exact ih.intern

/-- **What a variable may stand for** that is not there: a value that its declaration leaves,
and for a length what the fact on the object tells, which is the length of the object if it has
one. -/
structure MayBe (w : World) (a : Arena) (s : State) (ρ : ValueId → Concrete) (y : Variable)
    (x : Concrete) : Prop where
  admits   : (s.derived a y).Admits w x
  measured : ∀ {l q o n}, y.descriptor = .length l → y.qualifier = some q →
    a.isVariable q = true → ρ q = .object o → w.length? l o = some n → ∃ hn, x = .int n hn

/-- **A variable is asked for**: a valuation goes on, and gives the variable any value that it
may stand for, unless the variable was there. -/
theorem exists_continues (hReached : Reached w.types a s) (hy : a.Admits w.types (.var y))
    (hρ : s.Satisfies w a ρ) (hx : MayBe w a s ρ y x) :
    ∃ ρ', a.Continues ρ ρ' ∧ s.Satisfies w (a.intern (.var y)).2 ρ' ∧
      ((a.intern (.var y)).1 < a.size ∨ ρ' (a.intern (.var y)).1 = x) := by
  obtain ⟨hArena, hState⟩ := hReached.coherent
  rcases Arena.intern_cases (a := a) (x := .var y) with ⟨hOld, hSame⟩ | ⟨hNew, hGet⟩
  · rw [hSame]
    exact ⟨ρ, .refl, hρ, Or.inl hOld⟩
  · have hPart : a.Part (a.intern (.var y)).2 := Arena.part_intern
    have hNext := Arena.coherent_intern hArena hy
    have hQualifier : ∀ {q : Nat}, y.qualifier = some q → q < a.size := hy.qualifier rfl
    -- the new variable comes last
    have hCases : ∀ {v : Nat}, (a.intern (.var y)).2.isVariable v = true →
        v < a.size ∨ v = a.size := by
      intro v hv
      rcases Arena.get_intern (a := a) (x := .var y) (v := v) with hOld | ⟨rfl, -⟩
      · refine Or.inl (Arena.lt_of_isVariable ?_)
        rwa [Arena.isVariable_iff, hOld, ← Arena.isVariable_iff] at hv
      · exact Or.inr rfl
    obtain ⟨ρ', hBelow, hLast⟩ : ∃ ρ', a.Continues ρ ρ' ∧ ρ' a.size = x :=
      ⟨fun v => if v = a.size then x else ρ v, fun _ hv => if_neg (Nat.ne_of_lt hv), if_pos rfl⟩
    have hDerived : s.derived (a.intern (.var y)).2 y = s.derived a y := by
      unfold derived
      split
      · rename_i hq
        rw [fact_part hArena hPart (hQualifier hq)]
      · rfl
    refine ⟨ρ', hBelow, ⟨?_, ?_, ?_⟩, Or.inr (by rw [hNew, hLast])⟩
    · intro v hv _
      rcases hCases hv with hLess | rfl
      · rw [hBelow v hLess, fact_part hArena hPart hLess]
        exact hρ.admits ((hPart.isVariable hLess).symm.trans hv) nofun
      · have hStored : s.stored a.size = .top :=
          hReached.filed _ (Arena.not_isVariable_of_size_le (Nat.le_refl _))
        rw [hLast, fact_var hNext hGet, hStored, Fact.meet_top, hDerived]
        exact hx.admits
    · intro l q v o n hLength hq hObject hn
      rcases hCases hLength.isVariable with hLess | rfl
      · obtain ⟨z, hz, hDescriptor, hz'⟩ := (hPart.lengthOf hLess).mp hLength
        have hLessQ : q < a.size := Nat.lt_trans (hArena.qualifier_lt hz hz') hLess
        rw [hBelow q hLessQ] at hObject
        rw [hBelow v hLess]
        exact hρ.lengths ⟨z, hz, hDescriptor, hz'⟩ ((hPart.isVariable hLessQ).symm.trans hq)
          hObject hn
      · obtain ⟨z, hz, hDescriptor, hz'⟩ := hLength
        cases hGet.symm.trans hz
        rw [hBelow q (hQualifier hz')] at hObject
        rw [hLast]
        exact hx.measured hDescriptor hz' ((hPart.isVariable (hQualifier hz')).symm.trans hq)
          hObject hn
    · intro l hl
      obtain ⟨hLeft, hRight⟩ := hState.linked l hl
      rw [hBelow _ (Arena.lt_of_isVariable hLeft), hBelow _ (Arena.lt_of_isVariable hRight)]
      exact hρ.links l hl

-- ---------------------------------------------------------------------------
-- Lengths
-- ---------------------------------------------------------------------------

/-- An operand stays what it is where there are more values. -/
theorem Denotes.continues {ρ' : ValueId → Concrete} (h : Denotes w a ρ v x) (hPart : a.Part b)
    (hContinues : a.Continues ρ ρ') (hv : v < a.size) : Denotes w b ρ' v x := by
  refine ⟨fun hVariable => (hContinues v hv).trans (h.own ?_), fun hNone => ?_⟩
  · rw [← hPart.isVariable hv]
    exact hVariable
  · rw [hPart.inherent hv]
    exact h.other ((hPart.isVariable hv).symm.trans hNone)

/-- **A length of a value**, as far as the state and the valuation tell: the fact on the value
allows it, it is what the variable for the length stands for, if there is one, and the length of
the object, if the value is a variable and stands for one that has a length. -/
structure HasLength (w : World) (a : Arena) (s : State) (ρ : ValueId → Concrete) (l : Length)
    (v : ValueId) (x : Concrete) : Prop where
  isLength : (Fact.int .lengths).Admits w x
  allowed  : ((s.fact a v).lengthFact l).Admits w x
  named    : ∀ u, a.LengthOf l v u → ρ u = x
  measured : ∀ {o n}, a.isVariable v = true → ρ v = .object o → w.length? l o = some n →
    ∃ hn, x = .int n hn
  wrapped  : ∀ {u f}, a.get v = .wrapped l u f → u < a.size ∧ Denotes w a ρ u x

/-- **The length of a value that is no variable** is what its fact tells, or is there with it. -/
theorem denotes_lengthOf_value (hArena : a.Coherent w.types) (hNone : a.isVariable v = false)
    (hρ : s.Satisfies w a ρ) (hLength : (Fact.int .lengths).Admits w x)
    (hAllowed : ((s.fact a v).lengthFact l).Admits w x)
    (hWrapped : ∀ {u f}, a.get v = .wrapped l u f → u < a.size ∧ Denotes w a ρ u x) :
    (a.lengthOf l v).1 < (a.lengthOf l v).2.size ∧ s.Satisfies w (a.lengthOf l v).2 ρ ∧
      Denotes w (a.lengthOf l v).2 ρ (a.lengthOf l v).1 x := by
  have hTyped : ∀ {f : Fact}, f.Admits w x → (a.typed f).1 < (a.typed f).2.size ∧
      s.Satisfies w (a.typed f).2 ρ ∧ Denotes w (a.typed f).2 ρ (a.typed f).1 x := fun hx =>
    ⟨Arena.lt_size_intern, (satisfies_grows hArena Arena.grows_typed).mpr hρ,
      .of_value Arena.isVariable_typed (Arena.inherent_typed ▸ hx)⟩
  rw [fact_of_not_variable hNone, Arena.inherent] at hAllowed
  unfold Arena.lengthOf
  cases hGet : a.get v with
  | var z => exact absurd (Arena.isVariable_iff.mpr ⟨z, hGet⟩) (Bool.eq_false_iff.mp hNone)
  | typed f =>
    rw [hGet] at hAllowed
    exact hTyped hAllowed
  | wrapped k u f =>
    rw [hGet] at hAllowed
    dsimp only
    split
    · rename_i hSame
      subst hSame
      obtain ⟨hu, hDenotes⟩ := hWrapped hGet
      exact ⟨hu, hρ, hDenotes⟩
    · exact hTyped hAllowed
  | unknown => exact hTyped hLength

/-- **The length is asked for**: a valuation goes on, and the value stands for the length. -/
theorem HasLength.denotes (h : s.HasLength w a ρ l v x) (hReached : Reached w.types a s)
    (hv : v < a.size) (hρ : s.Satisfies w a ρ) :
    (a.lengthOf l v).1 < (a.lengthOf l v).2.size ∧
      ∃ ρ', a.Continues ρ ρ' ∧ s.Satisfies w (a.lengthOf l v).2 ρ' ∧
        Denotes w (a.lengthOf l v).2 ρ' (a.lengthOf l v).1 x := by
  cases hVariable : a.isVariable v with
  | false =>
    obtain ⟨hSize, hNext, hDenotes⟩ := denotes_lengthOf_value hReached.coherent.1 hVariable hρ
      h.isLength h.allowed h.wrapped
    exact ⟨hSize, ρ, .refl, hNext, hDenotes⟩
  | true =>
    have hAdmits : a.Admits w.types (.var ⟨.length l, some v, .int .lengths⟩) :=
      ⟨Fact.over_of_info rfl, by rintro y q ⟨⟩ ⟨⟩; exact hv⟩
    have hMeet : (s.derived a ⟨.length l, some v, .int .lengths⟩).Admits w x :=
      (Fact.admits_meet_of_not_refs (Or.inl rfl)).mpr ⟨h.isLength, h.allowed⟩
    obtain ⟨ρ', hContinues, hρ', hValue⟩ := exists_continues hReached hAdmits hρ
      ⟨hMeet, by rintro l q o n ⟨⟩ ⟨⟩; exact h.measured⟩
    obtain ⟨y, hy⟩ := Arena.isVariable_iff.mp hVariable
    rw [Arena.lengthOf, hy]
    refine ⟨Arena.lt_size_intern, ρ', hContinues, hρ', .of_variable Arena.isVariable_var ?_⟩
    refine hValue.elim (fun hOld => (hContinues _ hOld).trans ?_) id
    obtain ⟨z, hz, hLength, hQualifier⟩ := Arena.get_var (a := a)
      (y := ⟨.length l, some v, .int .lengths⟩)
    exact h.named _ ((Arena.part_intern.lengthOf hOld).mp ⟨z, hz, hLength, hQualifier⟩)

/-- Asking for a length leaves an arena that there can be. -/
theorem Built.lengthOf (h : Built H a s) (hv : v < a.size) : Built H (a.lengthOf l v).2 s := by
  have hTyped : ∀ {f : Fact}, f.Over H → f.Formed → Built H (a.typed f).2 s :=
    fun hOver hFormed => h.intern _ ⟨hOver, nofun⟩ hFormed
  have hLength : ∀ {f : Fact}, Built H (a.typed (f.lengthFact l)).2 s := fun {f} =>
    hTyped (Fact.over_of_info Fact.integral_lengthFact.info)
      (Fact.formed_of_info Fact.integral_lengthFact.info)
  unfold Arena.lengthOf
  cases a.get v with
  | var z =>
    exact h.intern _ ⟨Fact.over_of_info rfl, by rintro y q ⟨⟩ ⟨⟩; exact hv⟩
      (Fact.formed_of_info rfl)
  | typed f => exact hLength
  | wrapped k u f =>
    dsimp only
    split
    · exact h
    · exact hLength
  | unknown => exact hTyped (Fact.over_of_info rfl) (Fact.formed_of_info rfl)

end State

-- ---------------------------------------------------------------------------
-- Elements
-- ---------------------------------------------------------------------------

/-- There are values of every type. -/
theorem Fact.exists_admits_ofType {w : World} {t : TypeDesc} :
    ∃ x, (Fact.ofType t .unknown).Admits w x := by
  unfold ofType
  split
  · unfold ofPrimitive
    split
    · exact ⟨.bool true, admits_bool.mpr nofun⟩
    all_goals first
      | exact ⟨.int 0 (by decide), admits_int.mpr (by decide)⟩
      | exact ⟨.double none, admits_double.mpr trivial⟩
      | exact ⟨.null, admits_top⟩
  · exact ⟨.null, admits_null.mpr ⟨nofun, rfl⟩⟩

namespace State

variable {w : World} {a : Arena} {s : State} {q : ValueId}

/-- **An element is asked for**: a valuation goes on, whatever stands for the element. -/
theorem continues_element {r : Range} {p : ValueId × Arena} (hReached : Reached w.types a s)
    (hp : a.element? q r = some p) :
    p.2.isVariable p.1 = true ∧
      ∀ ρ, s.Satisfies w a ρ → ∃ ρ', a.Continues ρ ρ' ∧ s.Satisfies w p.2 ρ' := by
  obtain ⟨hArena, -⟩ := hReached.coherent
  obtain ⟨hVariable, i, f, rfl, hf⟩ := Arena.element?_eq_some (H := w.types) hp
  have hFact : f.Over w.types ∧ ∃ x, f.Admits w x := by
    rcases hf with rfl | ⟨t, rfl, ht⟩
    · exact ⟨Fact.over_of_info rfl, .null, Fact.admits_top⟩
    · exact ⟨Fact.over_ofType (ht (hArena.declared q)), Fact.exists_admits_ofType⟩
  obtain ⟨hOver, x, hx⟩ := hFact
  have hAdmits : a.Admits w.types (.var ⟨.element i, some q, f⟩) :=
    ⟨hOver, by rintro y p ⟨⟩ ⟨⟩; exact Arena.lt_of_isVariable hVariable⟩
  refine ⟨Arena.isVariable_var, fun ρ hρ => ?_⟩
  obtain ⟨ρ', hContinues, hρ', -⟩ := exists_continues hReached hAdmits hρ ⟨hx, nofun⟩
  exact ⟨ρ', hContinues, hρ'⟩

end State

end Pathwise
