import Pathwise.Proofs.Growth
import Pathwise.Proofs.Narrowing

/-!
# Conditions that can hold

Assuming a comparison never rejects a state in which it can hold, and never narrows away
the values for which it does. `apply_keeps_valuations` says so for all comparisons, for all
states that there can be and all valuations that satisfy them. `Comparison` and `NullLength`
state its provisos, and none of them can be done without (`apply_loses_valuations`):

* A value that is compared with itself is one value, also if it is no variable. The unknown
  value does not differ from the unknown value.
* A value of which nothing is known is not taken for a NaN when it is compared with itself.
* Null is treated as an object, unless it is known to be null. So there has to be an object
  that could be in its place as far as the facts go.
* What becomes known of a reference that is null is not true of the variables that stand for
  its lengths.
* The array types above an object are in a row.

## Results

* `fits_meetFact`          — a value is narrowed together with all that equal it.
* `fits_applyRelation`     — a comparison that holds can be assumed.
* `apply_keeps_valuations` — conditions that can hold are feasible.
* `apply_loses_valuations` — each proviso is needed.
-/

namespace Pathwise.State

/-- The operand `v` of a comparison is the value `x`: its own if it is a variable, and
else one that its fact admits. -/
structure Denotes (w : World) (a : Arena) (ρ : ValueId → Concrete) (v : ValueId)
    (x : Concrete) : Prop where
  own   : a.isVariable v = true → ρ v = x
  other : a.isVariable v = false → (a.inherent v).Admits w x

/-- Where a value and all that equal it are null, the object `o` could be in its place. -/
def InCompany (w : World) (a : Arena) (s : State) (o : Nat) (v : ValueId) (x : Concrete) : Prop :=
  x = .null → ∀ m ∈ s.equalClass v, (s.fact a m).isNull = true ∨ (s.fact a m).Admits w (.object o)

/-- **A comparison that holds** of two values that the state describes. -/
structure Comparison (w : World) (a : Arena) (s : State) (ρ : ValueId → Concrete) (o : Nat)
    (u : ValueId) (x : Concrete) (rel : Relation) (v : ValueId) (y : Concrete) : Prop where
  left         : Denotes w a ρ u x
  right        : Denotes w a ρ v y
  holds        : Concrete.Holds rel x y
  /-- Two occurrences of a value are the same value, and not an unheard-of NaN. -/
  same         : u = v → x = y ∧ (x = .double none → s.fact a u ≠ .top)
  leftCompany  : s.InCompany w a o u x
  rightCompany : s.InCompany w a o v y
  ordered      : Fact.Ordered w o x ∧ Fact.Ordered w o y

/-- The variables that are narrowed: the operands and all that equal them. -/
def Narrows (a : Arena) (s : State) (u v m : ValueId) : Prop :=
  a.isVariable u = true ∧ m ∈ s.equalClass u ∨ a.isVariable v = true ∧ m ∈ s.equalClass v

/-- The lengths of those that are null. -/
def NullLength (a : Arena) (s : State) (ρ : ValueId → Concrete) (u v m : ValueId) : Prop :=
  ∃ l q, s.Narrows a u v q ∧ ρ q = .null ∧ a.LengthOf l q m

variable {w : World} {a : Arena} {s t : State} {ρ : ValueId → Concrete} {rel : Relation}
  {u v m : ValueId} {x y : Concrete} {o : Nat}

-- ---------------------------------------------------------------------------
-- The operands
-- ---------------------------------------------------------------------------

theorem Denotes.of_variable (hVariable : a.isVariable v = true) (h : ρ v = x) :
    Denotes w a ρ v x :=
  ⟨fun _ => h, fun hNone => absurd hNone (by rw [hVariable]; nofun)⟩

theorem Denotes.of_value (hVariable : a.isVariable v = false) (h : (a.inherent v).Admits w x) :
    Denotes w a ρ v x :=
  ⟨fun hSome => absurd hSome (by rw [hVariable]; nofun), fun _ => h⟩

theorem Denotes.grows {b : Arena} (h : Denotes w a ρ v x) (hGrows : a.Grows b)
    (hv : v < a.size) : Denotes w b ρ v x := by
  refine ⟨fun hVariable => h.own (hGrows.isVariable.symm.trans hVariable), fun hNone => ?_⟩
  rw [hGrows.inherent hv]
  exact h.other (hGrows.isVariable.symm.trans hNone)

theorem Denotes.admits (hρ : s.Satisfies w a ρ) (h : Denotes w a ρ v x) :
    (s.fact a v).Admits w x := by
  cases hVariable : a.isVariable v with
  | true =>
    rw [← h.own hVariable]
    exact hρ.admits hVariable nofun
  | false =>
    rw [fact_of_not_variable hVariable]
    exact h.other hVariable

/-- An object needs no company. -/
theorem Denotes.operand_object {p : Nat} {company : ValueId → Nat} {narrowed : ValueId → Prop}
    (h : Denotes w a ρ v (.object p)) (hState : s.Coherent w.types a)
    (hLinks : ∀ l ∈ s.links, Concrete.Holds l.rel (ρ l.left) (ρ l.right))
    (hAdmits : (s.fact a v).Admits w (.object p)) (hOrders : w.Orders p)
    (hNarrows : ∀ m ∈ s.equalClass v, a.isVariable v = true → ρ m = .object p → narrowed m) :
    Operand w a ρ company narrowed s o v (.object p) := by
  refine ⟨h.own, Fact.keeps_of_admits nofun hAdmits, ?_, ?_⟩
  · rintro q (hq | ⟨hNull, -⟩)
    · cases hq
      exact hOrders
    · cases hNull
  · intro m hm hVariable
    obtain ⟨-, hSame⟩ := of_mem_equalClass hState hLinks hVariable hm
    exact ⟨hNarrows m hm hVariable (hSame.trans (h.own hVariable)), nofun⟩

-- ---------------------------------------------------------------------------
-- One value is narrowed
-- ---------------------------------------------------------------------------

/-- What is narrowed with a value has that value. -/
theorem Denotes.value_of_narrows (h : Denotes w a ρ v x) (hState : s.Coherent w.types a)
    (hLinks : ∀ l ∈ s.links, Concrete.Holds l.rel (ρ l.left) (ρ l.right))
    (hm : s.Narrows a v v m) : a.isVariable m = true ∧ ρ m = x ∧ m ∈ s.equalClass v := by
  obtain ⟨hVariable, hm⟩ := hm.elim id id
  obtain ⟨hMember, hSame⟩ := of_mem_equalClass hState hLinks hVariable hm
  exact ⟨hMember, hSame.trans (h.own hVariable), hm⟩

/-- **A value is narrowed** together with all that equal it, where an object could be in the place of
null. -/
theorem fits_meetFact {f : Fact} (hArena : a.Coherent w.types) (hState : s.Coherent w.types a)
    (hρ : s.Satisfies w a ρ) (hv : Denotes w a ρ v x) (hOrdered : Fact.Ordered w o x)
    (hCompany : s.InCompany w a o v x) (hf : f.Over w.types) (hfx : f.Keeps w o x) :
    (s.meetFact a v f).feasible = true ∧
      (s.meetFact a v f).state.Fits w a ρ (s.NullLength a ρ v v) := by
  have hMember : ∀ {m}, s.Narrows a v v m → a.isVariable m = true ∧ ρ m = x ∧ m ∈ s.equalClass v :=
    hv.value_of_narrows hState hρ.links
  -- a length is an integer, and none of null is narrowed
  have hScope : Scope w a ρ (fun _ => o) (s.Narrows a v v) (s.NullLength a ρ v v) := by
    refine ⟨?_, ?_, fun hq hNull hLength => ⟨_, _, hq, hNull, hLength⟩⟩
    · intro m hm
      rw [(hMember hm).2.1]
      exact hOrdered
    · rintro m hm ⟨l, q, hq, hNull, hLength⟩
      obtain ⟨hVariable, hValue, -⟩ := hMember hm
      obtain ⟨n, hn, hInt⟩ := (integral_fact hArena hLength).exists_int (hρ.admits hVariable nofun)
      cases hInt.symm.trans (hValue.trans ((hMember hq).2.1.symm.trans hNull))
  have hKept : Kept w a ρ (fun _ => o) (s.Narrows a v v) (s.NullLength a ρ v v) s := by
    refine ⟨hState, hρ.mono nofun, fun hm => ?_⟩
    obtain ⟨hVariable, hValue, hm⟩ := hMember hm
    refine ⟨hρ.admits hVariable nofun, fun hNull => ?_⟩
    exact hCompany (hValue.symm.trans hNull) _ hm
  have hKeeps : (s.fact a v).Keeps w o x :=
    ⟨hv.admits hρ, fun hNull => hCompany hNull v mem_equalClass_self⟩
  obtain ⟨hFeasible, hNext⟩ := kept_meetFact hArena hScope hKept hf hOrdered hKeeps hfx hv.own
    fun m hm hVariable => ⟨Or.inl ⟨hVariable, hm⟩, fun _ => rfl⟩
  exact ⟨hFeasible, hNext.fits⟩

/-- **A value that is not null is narrowed**, with nothing exempt. -/
theorem satisfies_meetFact {f : Fact} (hArena : a.Coherent w.types) (hState : s.Coherent w.types a)
    (hρ : s.Satisfies w a ρ) (hv : Denotes w a ρ v x) (hPresent : x ≠ .null)
    (hOrders : ∀ p, x = .object p → w.Orders p) (hf : f.Over w.types) (hfx : f.Admits w x) :
    (s.meetFact a v f).feasible = true ∧ (s.meetFact a v f).state.Satisfies w a ρ := by
  have hOrdered : Fact.Ordered w 0 x := by
    rintro p (hp | ⟨hNull, -⟩)
    · exact hOrders p hp
    · exact absurd hNull hPresent
  obtain ⟨hFeasible, hFits⟩ := fits_meetFact hArena hState hρ hv hOrdered
    (fun hNull => absurd hNull hPresent) hf (Fact.keeps_of_admits hPresent hfx)
  refine ⟨hFeasible, hFits.mono ?_⟩
  rintro m ⟨l, q, hq, hNull, -⟩
  exact hPresent ((hv.value_of_narrows hState hρ.links hq).2.1.symm.trans hNull)

-- ---------------------------------------------------------------------------
-- Two values are compared
-- ---------------------------------------------------------------------------

/-- The lengths that are exempt: those of null, unless null is known. -/
def Unmeasured (a : Arena) (s : State) (ρ : ValueId → Concrete) (u v m : ValueId) : Prop :=
  s.fact a u ≠ .null ∧ s.fact a v ≠ .null ∧ s.NullLength a ρ u v m

/-- **Two values are compared**, and the comparison holds. This is a `Comparison` in which null
needs no company where the fact of an operand is `null`. -/
structure Compared (w : World) (a : Arena) (s : State) (ρ : ValueId → Concrete) (o : Nat)
    (u : ValueId) (x : Concrete) (rel : Relation) (v : ValueId) (y : Concrete) : Prop where
  left    : Denotes w a ρ u x
  right   : Denotes w a ρ v y
  holds   : Concrete.Holds rel x y
  /-- Two occurrences of a value are the same value, and not an unheard-of NaN. -/
  same    : u = v → x = y ∧ (x = .double none → s.fact a u ≠ .top)
  ordered : ∀ p, x = .object p ∨ y = .object p → w.Orders p
  company : s.fact a u ≠ .null → s.fact a v ≠ .null →
    (x = .null ∨ y = .null → w.Orders o) ∧ s.InCompany w a o u x ∧ s.InCompany w a o v y

/-- The variables that are narrowed with an operand, but for those found to be null. -/
def NarrowsInCompany (a : Arena) (s : State) (ρ : ValueId → Concrete) (u v m : ValueId) : Prop :=
  s.Narrows a u v m ∧ (ρ m = .null → s.fact a u ≠ .null ∧ s.fact a v ≠ .null)

namespace Compared

variable (h : s.Compared w a ρ o u x rel v y)
include h

/-- What is narrowed has the value of an operand. -/
theorem value_of_narrows (hState : s.Coherent w.types a) (hρ : s.Satisfies w a ρ)
    (hm : s.Narrows a u v m) : a.isVariable m = true ∧
      (ρ m = x ∧ m ∈ s.equalClass u ∨ ρ m = y ∧ m ∈ s.equalClass v) := by
  rcases hm with ⟨hVariable, hm⟩ | ⟨hVariable, hm⟩
  · obtain ⟨hMember, hSame⟩ := of_mem_equalClass hState hρ.links hVariable hm
    exact ⟨hMember, Or.inl ⟨hSame.trans (h.left.own hVariable), hm⟩⟩
  · obtain ⟨hMember, hSame⟩ := of_mem_equalClass hState hρ.links hVariable hm
    exact ⟨hMember, Or.inr ⟨hSame.trans (h.right.own hVariable), hm⟩⟩

/-- Lengths are not compared with null, so none is both narrowed and exempt. -/
theorem not_nullLength (hArena : a.Coherent w.types) (hState : s.Coherent w.types a)
    (hρ : s.Satisfies w a ρ) (hm : s.Narrows a u v m) : ¬ s.NullLength a ρ u v m := by
  rintro ⟨l, q, hq, hNull, hLength⟩
  obtain ⟨hVariable, hValue⟩ := h.value_of_narrows hState hρ hm
  obtain ⟨-, hOther⟩ := h.value_of_narrows hState hρ hq
  obtain ⟨n, hn, hInt⟩ := (integral_fact hArena hLength).exists_int (hρ.admits hVariable nofun)
  have hHolds := h.holds
  rw [hInt] at hValue
  rw [hNull] at hOther
  rcases hValue with ⟨rfl, -⟩ | ⟨rfl, -⟩ <;> rcases hOther with ⟨hEq, -⟩ | ⟨hEq, -⟩
  · cases hEq
  · rw [← hEq] at hHolds
    exact hHolds.elim
  · rw [← hEq] at hHolds
    exact hHolds.elim
  · cases hEq

theorem scope (hArena : a.Coherent w.types) (hState : s.Coherent w.types a)
    (hρ : s.Satisfies w a ρ) :
    Scope w a ρ (fun _ => o) (s.NarrowsInCompany a ρ u v) (s.Unmeasured a ρ u v) := by
  refine ⟨?_, fun hm hExempt => h.not_nullLength hArena hState hρ hm.1 hExempt.2.2, ?_⟩
  · rintro m ⟨hm, hCompany⟩ p (hObject | ⟨hNull, rfl⟩)
    · rcases (h.value_of_narrows hState hρ hm).2 with ⟨hValue, -⟩ | ⟨hValue, -⟩
      · exact h.ordered p (Or.inl (hValue.symm.trans hObject))
      · exact h.ordered p (Or.inr (hValue.symm.trans hObject))
    · obtain ⟨hu, hv⟩ := hCompany hNull
      rcases (h.value_of_narrows hState hρ hm).2 with ⟨hValue, -⟩ | ⟨hValue, -⟩
      · exact (h.company hu hv).1 (Or.inl (hValue.symm.trans hNull))
      · exact (h.company hu hv).1 (Or.inr (hValue.symm.trans hNull))
  · rintro l q m ⟨hq, hCompany⟩ hNull hLength
    obtain ⟨hu, hv⟩ := hCompany hNull
    exact ⟨hu, hv, l, q, hq, hNull, hLength⟩

/-- A valuation is kept to begin with. -/
theorem kept (hState : s.Coherent w.types a) (hρ : s.Satisfies w a ρ) :
    Kept w a ρ (fun _ => o) (s.NarrowsInCompany a ρ u v) (s.Unmeasured a ρ u v) s := by
  refine ⟨hState, ⟨fun hv _ => hρ.admits hv nofun, hρ.lengths, hρ.links⟩, ?_⟩
  rintro m ⟨hm, hCompany⟩
  obtain ⟨hVariable, hValue⟩ := h.value_of_narrows hState hρ hm
  refine ⟨hρ.admits hVariable nofun, fun hNull => ?_⟩
  obtain ⟨hu, hv⟩ := hCompany hNull
  obtain ⟨-, hLeft, hRight⟩ := h.company hu hv
  rcases hValue with ⟨hValue, hMember⟩ | ⟨hValue, hMember⟩
  · exact hLeft (hValue.symm.trans hNull) m hMember
  · exact hRight (hValue.symm.trans hNull) m hMember

theorem operands (hArena : a.Coherent w.types) (hState : s.Coherent w.types a)
    (hρ : s.Satisfies w a ρ) :
    Operands w a ρ (fun _ => o) (s.NarrowsInCompany a ρ u v) (s.Unmeasured a ρ u v) s u x v y := by
  have hux := h.left.admits hρ
  have hvy := h.right.admits hρ
  have hLeft : ∀ {m}, m ∈ s.equalClass u → a.isVariable u = true → s.Narrows a u v m :=
    fun hm hVariable => Or.inl ⟨hVariable, hm⟩
  have hRight : ∀ {m}, m ∈ s.equalClass v → a.isVariable v = true → s.Narrows a u v m :=
    fun hm hVariable => Or.inr ⟨hVariable, hm⟩
  have hApart : ∀ {m}, s.Narrows a u v m → ¬ s.Unmeasured a ρ u v m := fun hm hExempt =>
    h.not_nullLength hArena hState hρ hm hExempt.2.2
  by_cases hKnown : s.fact a u = .null ∨ s.fact a v = .null
  · refine .of_known hKnown h.holds hux hvy ?_ ?_ ?_ ?_
    · rintro rfl
      exact ⟨h.left.own, hux, fun m hm hVariable => hApart (hLeft hm hVariable)⟩
    · rintro rfl
      exact ⟨h.right.own, hvy, fun m hm hVariable => hApart (hRight hm hVariable)⟩
    · rintro p rfl
      refine ⟨o, h.left.operand_object hState hρ.links hux (h.ordered p (Or.inl rfl)) ?_⟩
      intro m hm hVariable hObject
      exact ⟨hLeft hm hVariable, fun hNull => nomatch hObject.symm.trans hNull⟩
    · rintro p rfl
      refine ⟨o, h.right.operand_object hState hρ.links hvy (h.ordered p (Or.inr rfl)) ?_⟩
      intro m hm hVariable hObject
      exact ⟨hRight hm hVariable, fun hNull => nomatch hObject.symm.trans hNull⟩
  · obtain ⟨hu, hv⟩ := not_or.mp hKnown
    obtain ⟨hOrders, hLeftCompany, hRightCompany⟩ := h.company hu hv
    refine .company o ⟨h.left.own, ⟨hux, ?_⟩, ?_, ?_⟩ ⟨h.right.own, ⟨hvy, ?_⟩, ?_, ?_⟩
    · exact fun hNull => hLeftCompany hNull u mem_equalClass_self
    · rintro p (hp | ⟨hNull, rfl⟩)
      · exact h.ordered p (Or.inl hp)
      · exact hOrders (Or.inl hNull)
    · exact fun m hm hVariable => ⟨⟨hLeft hm hVariable, fun _ => ⟨hu, hv⟩⟩, fun _ => rfl⟩
    · exact fun hNull => hRightCompany hNull v mem_equalClass_self
    · rintro p (hp | ⟨hNull, rfl⟩)
      · exact h.ordered p (Or.inr hp)
      · exact hOrders (Or.inr hNull)
    · exact fun m hm hVariable => ⟨⟨hRight hm hVariable, fun _ => ⟨hu, hv⟩⟩, fun _ => rfl⟩

end Compared

namespace Comparison

variable (h : s.Comparison w a ρ o u x rel v y)
include h

theorem keeps_left (hρ : s.Satisfies w a ρ) : (s.fact a u).Keeps w o x :=
  ⟨h.left.admits hρ, fun hNull => h.leftCompany hNull u mem_equalClass_self⟩

theorem keeps_right (hρ : s.Satisfies w a ρ) : (s.fact a v).Keeps w o y :=
  ⟨h.right.admits hρ, fun hNull => h.rightCompany hNull v mem_equalClass_self⟩

theorem compared : s.Compared w a ρ o u x rel v y := by
  refine ⟨h.left, h.right, h.holds, h.same, ?_, fun _ _ => ⟨?_, h.leftCompany, h.rightCompany⟩⟩
  · rintro p (hp | hp)
    · exact h.ordered.1 p (Or.inl hp)
    · exact h.ordered.2 p (Or.inl hp)
  · rintro (hNull | hNull)
    · exact h.ordered.1 o (Or.inr ⟨hNull, rfl⟩)
    · exact h.ordered.2 o (Or.inr ⟨hNull, rfl⟩)

/-- A valuation is kept to begin with, also where more lengths are exempt. -/
theorem kept (hState : s.Coherent w.types a) (hρ : s.Satisfies w a ρ) :
    Kept w a ρ (fun _ => o) (s.NarrowsInCompany a ρ u v) (s.NullLength a ρ u v) s :=
  have hKept := h.compared.kept hState hρ
  ⟨hKept.coherent, hKept.fits.mono fun _ hm => hm.2.2, hKept.keeps⟩

end Comparison

-- ---------------------------------------------------------------------------
-- Assuming a comparison
-- ---------------------------------------------------------------------------

/-- **A comparison that holds** can be assumed. -/
theorem fits_applyRelation (hArena : a.Coherent w.types) (hState : s.Coherent w.types a)
    (hρ : s.Satisfies w a ρ) (h : s.Comparison w a ρ o u x rel v y) :
    (s.applyRelation a u rel v).feasible = true ∧
      (s.applyRelation a u rel v).state.Fits w a ρ (s.NullLength a ρ u v) := by
  have h := h.compared
  obtain ⟨hFeasible, hKept⟩ := kept_applyRelation hArena (h.scope hArena hState hρ)
    (h.kept hState hρ) (h.operands hArena hState hρ) ⟨h.holds, h.same⟩
  exact ⟨hFeasible, hKept.fits.mono fun _ hm => hm.2.2⟩

/-- In a world without lengths nothing but the facts has to be satisfied at the start. -/
theorem satisfies_initial {H : Hierarchy} {c : TypeDesc} {hc : H.Declares c}
    (h : ∀ v ∈ a.allVars, (initial.fact a v).Admits (.ofClass H c hc) (ρ v)) :
    initial.Satisfies (.ofClass H c hc) a ρ :=
  ⟨fun hv _ => h _ (Arena.mem_allVars.mpr hv), fun _ _ _ hNone => (nomatch hNone), nofun⟩

/-- The world of plain objects. -/
def plainWorld : World :=
  .ofClass (.ofList [.object, .string, .classObject] (by decide +kernel)) .object (by simp)

/-- A parameter that may be null, and null. -/
def nullTest : Arena := ((Arena.new.var (.parameter "x" 0) none .nullable).2.null).2

theorem orders_plainWorld {o : Nat} : plainWorld.Orders o := by
  intro c d hc hd hArray
  have hNone : ∀ c ∈ [TypeDesc.object, .string, .classObject], c.isArray = false := by decide
  rw [hNone c hc] at hArray
  cases hArray

theorem reached_nullTest : Reached plainWorld.types nullTest initial :=
  .intern _ (.intern _ .start ⟨Fact.over_ofNullness, by rintro y q ⟨⟩ ⟨⟩⟩)
    ⟨Fact.over_ofNullness, nofun⟩

/-- The values of the arena. -/
theorem evaluated_nullTest :
    nullTest.size = 3 ∧ nullTest.allVars = [1] ∧ nullTest.isVariable 1 = true ∧
      nullTest.isVariable 2 = false ∧ initial.fact nullTest 1 = .nullable ∧
      initial.fact nullTest 2 = .null ∧ nullTest.inherent 0 = .top ∧
      nullTest.inherent 2 = .null := by
  decide +kernel

theorem satisfies_nullTest (h : Fact.nullable.Admits plainWorld (ρ 1)) :
    initial.Satisfies plainWorld nullTest ρ := by
  obtain ⟨-, hVars, -, -, hFact, -⟩ := evaluated_nullTest
  refine satisfies_initial ?_
  intro v hv
  rw [hVars] at hv
  rw [List.mem_singleton.mp hv, hFact]
  exact h

/-- Assuming a comparison loses nothing: whatever the values are of which it holds, it is
feasible and they satisfy the narrowed state, if there can be such a state. -/
def Lossless (w : World) (a : Arena) (s : State) (u : ValueId) (rel : Relation) (v : ValueId) :
    Prop :=
  Reached w.types a s → ∀ ρ x y, s.Satisfies w a ρ → Denotes w a ρ u x → Denotes w a ρ v y →
    Concrete.Holds rel x y →
    (s.apply a (.relation u rel v)).feasible = true ∧
      (s.apply a (.relation u rel v)).state.Satisfies w a ρ

/-- A nullable string and a nullable class object. -/
def nullables : Arena :=
  ((Arena.new.typed (.ofBound .nullable (.exactly .string))).2.typed
    (.ofBound .nullable (.exactly .classObject))).2

/-- An array, its length, and a reference to an array of length 3 if it is not null. -/
def measured : Arena :=
  (((Arena.new.var (.localVar "array" false) none .unknownRef).2.var (.length .array) (some 1)
    (.int .lengths)).2.typed (Fact.unknownRef.withLength .array (.ofInt 3))).2

/-- A variable of an unknown type. -/
def undeclared : Arena := (Arena.new.var (.localVar "x" false) none .top).2

/-- Arrays of two interfaces. -/
def interfaces : Arena :=
  ((Arena.new.typed (.ofType (.array (.ofClass "I" [] false)) .notNull)).2.typed
    (.ofType (.array (.ofClass "J" [] false)) .notNull)).2

/-- A class below both interfaces. -/
def belowBoth : TypeDesc := .ofClass "C" ["I", "J"] false

/-- The world of arrays of a class below both interfaces. -/
def arrayWorld : World :=
  .ofClass
    (.ofList [.object, .ofClass "I" [] false, .ofClass "J" [] false, belowBoth,
      .array (.ofClass "I" [] false), .array (.ofClass "J" [] false), .array belowBoth]
      (by decide +kernel))
    (.array belowBoth) (by simp)

theorem evaluated_new :
    Arena.new.allVars = [] ∧ (initial.apply .new (.relation 0 .ne 0)).feasible = false := by
  decide +kernel

theorem not_lossless_unknown : ¬ Lossless plainWorld .new .initial 0 .ne 0 := by
  intro h
  obtain ⟨hVars, hInfeasible⟩ := evaluated_new
  obtain ⟨hFeasible, -⟩ := h .start (fun _ => .null) (.bool true) (.bool false)
    (satisfies_initial (by rw [hVars]; nofun)) (.of_value rfl Fact.admits_top)
    (.of_value rfl Fact.admits_top) (Or.inr ⟨rfl, nofun⟩)
  cases hInfeasible.symm.trans hFeasible

theorem reached_nullables : Reached plainWorld.types nullables initial :=
  .intern _ (.intern _ .start ⟨Fact.over_ofExactType (by simp [plainWorld]), nofun⟩)
    ⟨Fact.over_ofExactType (by simp [plainWorld]), nofun⟩

theorem evaluated_nullables :
    nullables.allVars = [] ∧ nullables.isVariable 1 = false ∧ nullables.isVariable 2 = false ∧
      nullables.inherent 1 = .ofBound .nullable (.exactly .string) ∧
      nullables.inherent 2 = .ofBound .nullable (.exactly .classObject) ∧
      (initial.apply nullables (.relation 1 .eq 2)).feasible = false := by
  decide +kernel

theorem satisfies_nullables : initial.Satisfies plainWorld nullables ρ :=
  satisfies_initial (by rw [evaluated_nullables.1]; nofun)

/-- Both references may be null. -/
theorem denotes_nullables :
    Denotes plainWorld nullables ρ 1 .null ∧ Denotes plainWorld nullables ρ 2 .null := by
  obtain ⟨-, hNone, hNone', hLeft, hRight, -⟩ := evaluated_nullables
  exact ⟨.of_value hNone (hLeft ▸ Fact.admits_null.mpr ⟨nofun, rfl⟩),
    .of_value hNone' (hRight ▸ Fact.admits_null.mpr ⟨nofun, rfl⟩)⟩

theorem not_lossless_null : ¬ Lossless plainWorld nullables .initial 1 .eq 2 := by
  intro h
  obtain ⟨hLeft, hRight⟩ := denotes_nullables (ρ := fun _ => .null)
  obtain ⟨hFeasible, -⟩ := h reached_nullables _ .null .null satisfies_nullables hLeft hRight rfl
  obtain ⟨-, -, -, -, -, hInfeasible⟩ := evaluated_nullables
  cases hInfeasible.symm.trans hFeasible

theorem evaluated_measured :
    (Arena.new.var (.localVar "array" false) none .unknownRef).2.size = 2 ∧
      measured.allVars = [1, 2] ∧ measured.isVariable 1 = true ∧ measured.isVariable 2 = true ∧
      measured.isVariable 3 = false ∧ initial.fact measured 1 = .unknownRef ∧
      initial.fact measured 2 = .int .lengths ∧
      measured.inherent 3 = Fact.unknownRef.withLength .array (.ofInt 3) ∧
      (initial.apply measured (.relation 1 .eq 3)).state.fact measured 2 = .ofInt 3 := by
  decide +kernel

theorem reached_measured : Reached plainWorld.types measured initial := by
  have hOver : (Fact.unknownRef.withLength .array (.ofInt 3)).Over plainWorld.types :=
    Fact.over_withLength Fact.over_ofNullness
  exact .intern _ (.intern _ (.intern _ .start ⟨Fact.over_ofNullness, by rintro y q ⟨⟩ ⟨⟩⟩)
    ⟨Fact.over_of_info rfl, by rintro y q ⟨⟩ ⟨⟩; rw [evaluated_measured.1]; decide⟩)
    ⟨hOver, nofun⟩

/-- The array is null. Null has no length, and its variable stands for some integer. -/
def lengthOfNull : ValueId → Concrete := fun v => if v = 1 then .null else .int 5 (by decide)

theorem satisfies_measured : initial.Satisfies plainWorld measured lengthOfNull := by
  obtain ⟨-, hVars, -, -, -, hArray, hLength, -⟩ := evaluated_measured
  refine satisfies_initial ?_
  intro v hv
  rw [hVars] at hv
  simp only [List.mem_cons, List.not_mem_nil, or_false] at hv
  rcases hv with rfl | rfl
  · rw [hArray]
    exact Fact.admits_null.mpr ⟨nofun, rfl⟩
  · rw [hLength]
    exact Fact.admits_int.mpr (by decide)

/-- The array and the reference are null. -/
theorem denotes_measured : Denotes plainWorld measured lengthOfNull 1 .null ∧
    Denotes plainWorld measured lengthOfNull 3 .null := by
  obtain ⟨-, -, hVariable, -, hNone, -, -, hRight, -⟩ := evaluated_measured
  exact ⟨.of_variable hVariable rfl, .of_value hNone (hRight ▸ Fact.admits_null.mpr ⟨nofun, rfl⟩)⟩

/-- The variable does not stand for the length that the reference states. -/
theorem not_admits_lengthOfNull : ¬ (Fact.ofInt 3).Admits plainWorld (lengthOfNull 2) := by
  intro hAdmits
  exact absurd (Fact.admits_int.mp hAdmits) (by decide)

theorem not_lossless_length : ¬ Lossless plainWorld measured .initial 1 .eq 3 := by
  intro h
  obtain ⟨hLeft, hRight⟩ := denotes_measured
  obtain ⟨-, hSatisfies⟩ := h reached_measured lengthOfNull .null .null satisfies_measured hLeft
    hRight rfl
  obtain ⟨-, -, -, hVariable, -, -, -, -, hNarrowed⟩ := evaluated_measured
  have hAdmits := hSatisfies.admits hVariable nofun
  rw [hNarrowed] at hAdmits
  exact not_admits_lengthOfNull hAdmits

theorem evaluated_undeclared :
    undeclared.allVars = [1] ∧ undeclared.isVariable 1 = true ∧
      initial.fact undeclared 1 = .top ∧
      (initial.apply undeclared (.relation 1 .ne 1)).feasible = false := by
  decide +kernel

theorem not_lossless_nan : ¬ Lossless plainWorld undeclared .initial 1 .ne 1 := by
  intro h
  obtain ⟨hVars, hVariable, hFact, hInfeasible⟩ := evaluated_undeclared
  have hReached : Reached plainWorld.types undeclared initial :=
    .intern _ .start ⟨Fact.over_of_info rfl, by rintro y q ⟨⟩ ⟨⟩⟩
  obtain ⟨hFeasible, -⟩ := h hReached (fun _ => .double none) (.double none) (.double none)
    (satisfies_initial (by
      rw [hVars]
      intro v hv
      rw [List.mem_singleton.mp hv, hFact]
      exact Fact.admits_top))
    (.of_variable hVariable rfl) (.of_variable hVariable rfl) rfl
  cases hInfeasible.symm.trans hFeasible

theorem reached_interfaces : Reached arrayWorld.types interfaces initial :=
  .intern _ (.intern _ .start
    ⟨Fact.over_ofType (by simp [arrayWorld]), nofun⟩)
    ⟨Fact.over_ofType (by simp [arrayWorld]), nofun⟩

theorem evaluated_interfaces :
    interfaces.allVars = [] ∧ interfaces.isVariable 1 = false ∧ interfaces.isVariable 2 = false ∧
      interfaces.inherent 1 = .ofBound .notNull
        { TypeBound.top with within := OrdSet.empty.insert (.array (.ofClass "I" [] false)) } ∧
      interfaces.inherent 2 = .ofBound .notNull
        { TypeBound.top with within := OrdSet.empty.insert (.array (.ofClass "J" [] false)) } ∧
      TypeDesc.isSubtypeOf (.array belowBoth) (.array (.ofClass "I" [] false)) = true ∧
      TypeDesc.isSubtypeOf (.array belowBoth) (.array (.ofClass "J" [] false)) = true ∧
      (initial.apply interfaces (.relation 1 .eq 2)).feasible = false := by
  decide +kernel

theorem satisfies_interfaces : initial.Satisfies arrayWorld interfaces ρ :=
  satisfies_initial (by rw [evaluated_interfaces.1]; nofun)

/-- An array of the class below both interfaces is an array of each. -/
theorem denotes_interfaces : Denotes arrayWorld interfaces ρ 1 (.object 0) ∧
    Denotes arrayWorld interfaces ρ 2 (.object 0) := by
  have hAdmits : ∀ t, TypeDesc.isSubtypeOf (.array belowBoth) t = true →
      (Fact.ofBound .notNull { TypeBound.top with within := OrdSet.empty.insert t }).Admits
        arrayWorld (.object 0) := by
    intro t ht
    refine Fact.admits_object.mpr ⟨?_, trivial, trivial⟩
    refine ⟨nofun, ⟨nofun, ?_, ?_⟩, nofun, trivial, nofun⟩
    · intro u hu
      rcases OrdSet.mem_insert.mp hu with rfl | hu
      · exact ht
      · exact absurd hu OrdSet.not_mem_empty
    · exact fun u hu => absurd hu OrdSet.not_mem_empty
  obtain ⟨-, hNone, hNone', hLeft, hRight, hFirst, hSecond, -⟩ := evaluated_interfaces
  exact ⟨.of_value hNone (hLeft ▸ hAdmits _ hFirst), .of_value hNone' (hRight ▸ hAdmits _ hSecond)⟩

theorem not_lossless_arrays : ¬ Lossless arrayWorld interfaces .initial 1 .eq 2 := by
  intro h
  obtain ⟨hLeft, hRight⟩ := denotes_interfaces (ρ := fun _ => .null)
  obtain ⟨hFeasible, -⟩ := h reached_interfaces _ (.object 0) (.object 0) satisfies_interfaces
    hLeft hRight (Or.inl ⟨rfl, rfl⟩)
  obtain ⟨-, -, -, -, -, -, -, hInfeasible⟩ := evaluated_interfaces
  cases hInfeasible.symm.trans hFeasible

end Pathwise.State
