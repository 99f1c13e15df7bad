import Pathwise.State.Narrow
import Pathwise.Proofs.EqualClasses
import Pathwise.Proofs.Facts

/-!
# Valuations of the variables

A valuation satisfies a state if every variable has a value that its fact admits, a
length is the length of the object it qualifies, and the recorded relations hold.

A state is narrowed one variable at a time. Doing so keeps a valuation if the fact put in
place keeps the value of the variable: the facts of its lengths change as well, and admit
the lengths of the object, if there is one. The lengths of null are exempt. They are whatever the
valuation says, while the fact on the reference may tell of the objects it leaves.

## Results

* `State.Fits`, `State.Satisfies` — valuations that satisfy a state.
* `of_mem_equalClass`             — values known to be equal are equal.
* `contradictsLink_eq_false`, `fits_addLink` — relations that hold and recorded ones.
* `kept_setFact`                  — one variable is narrowed.
* `kept_meetFact`                 — a value and all that equal it are narrowed.
* `kept_meetNull`                 — they are found to be null.
-/

namespace Pathwise.State

/-- **A valuation fits a state**, but for the facts on the variables that are exempt. -/
structure Fits (w : World) (a : Arena) (s : State) (ρ : ValueId → Concrete)
    (exempt : ValueId → Prop) : Prop where
  admits  : ∀ {v}, a.isVariable v = true → ¬ exempt v → (s.fact a v).Admits w (ρ v)
  lengths : ∀ {l q v o n}, a.LengthOf l q v → a.isVariable q = true → ρ q = .object o →
    w.length? l o = some n → ∃ hn, ρ v = .int n hn
  links   : ∀ l ∈ s.links, Concrete.Holds l.rel (ρ l.left) (ρ l.right)

/-- A valuation satisfies a state. -/
def Satisfies (w : World) (a : Arena) (s : State) (ρ : ValueId → Concrete) : Prop :=
  s.Fits w a ρ fun _ => False

variable {w : World} {a : Arena} {s t : State} {ρ : ValueId → Concrete} {f : Fact}
  {rel : Relation} {u v m : ValueId} {x : Concrete} {o : Nat}

/-- A valuation fits if more variables are exempt. -/
theorem Fits.mono {exempt exempt' : ValueId → Prop} (h : s.Fits w a ρ exempt)
    (hExempt : ∀ v, exempt v → exempt' v) : s.Fits w a ρ exempt' :=
  ⟨fun hv hNot => h.admits hv fun h' => hNot (hExempt _ h'), h.lengths, h.links⟩

-- ---------------------------------------------------------------------------
-- Values known to be equal
-- ---------------------------------------------------------------------------

/-- **Values known to be equal** are variables and have the same value. -/
theorem of_mem_equalClass (hState : s.Coherent w.types a)
    (hLinks : ∀ l ∈ s.links, Concrete.Holds l.rel (ρ l.left) (ρ l.right))
    (hv : a.isVariable v = true) (hm : m ∈ s.equalClass v) :
    a.isVariable m = true ∧ ρ m = ρ v := by
  refine equalClass_induction (P := fun m => a.isVariable m = true ∧ ρ m = ρ v) ⟨hv, rfl⟩ ?_ hm
  intro l hl hEq
  obtain ⟨hLeft, hRight⟩ := hState.linked l hl
  have hHolds := hLinks l hl
  rw [hEq] at hHolds
  rw [Concrete.eq_of_holds hHolds, hLeft, hRight]

-- ---------------------------------------------------------------------------
-- Recorded relations
-- ---------------------------------------------------------------------------

/-- A relation that holds contradicts none that is recorded. -/
theorem contradictsLink_eq_false
    (hLinks : ∀ l ∈ s.links, Concrete.Holds l.rel (ρ l.left) (ρ l.right))
    (h : Concrete.Holds rel (ρ u) (ρ v)) : s.contradictsLink u rel v = false := by
  rw [contradictsLink, List.any_eq_false]
  intro r hr
  obtain ⟨l, hl, hBetween⟩ := List.mem_filterMap.mp hr
  have hRecorded := hLinks l hl
  have hHolds : Concrete.Holds r (ρ u) (ρ v) := by
    unfold Link.between? at hBetween
    split at hBetween
    · rename_i hSame
      obtain ⟨rfl, rfl⟩ := hSame
      cases hBetween
      exact hRecorded
    · split at hBetween
      · rename_i hSwapped
        obtain ⟨rfl, rfl⟩ := hSwapped
        exact Concrete.holds_flipped hBetween hRecorded
      · cases hBetween
  rw [Concrete.compatible_of_holds hHolds h]
  nofun

theorem mem_addLink {l : Link} (hl : l ∈ (s.addLink u rel v).links) :
    l ∈ s.links ∨ l = ⟨u, rel, v⟩ ∨ ∃ r, rel.flipped? = some r ∧ l = ⟨v, r, u⟩ := by
  unfold addLink at hl
  split at hl
  · rcases OrdSet.mem_insert.mp hl with hl | hl
    · exact Or.inr (Or.inl hl)
    · exact Or.inl hl
  · split at hl
    · rename_i r hr
      rcases OrdSet.mem_insert.mp hl with hl | hl
      · exact Or.inr (Or.inr ⟨r, hr, hl⟩)
      · exact Or.inl hl
    · exact Or.inl hl

theorem facts_addLink : (s.addLink u rel v).facts = s.facts := by
  unfold addLink
  split
  · rfl
  · split <;> rfl

/-- Facts do not depend on what relations are recorded. -/
theorem fact_congr (hFacts : t.facts = s.facts) : t.fact a v = s.fact a v := by
  have hUpTo : ∀ n v, t.factUpTo a n v = s.factUpTo a n v := by
    intro n
    induction n with
    | zero => exact fun _ => rfl
    | succ n ih =>
      intro v
      simp only [factUpTo, hFacts, ih]
  exact hUpTo _ _

/-- Whether a valuation fits does not depend on the stack. -/
theorem Fits.congr {exempt : ValueId → Prop} (hFits : s.Fits w a ρ exempt)
    (hFacts : t.facts = s.facts) (hLinks : t.links = s.links) : t.Fits w a ρ exempt := by
  refine ⟨?_, hFits.lengths, by rw [hLinks]; exact hFits.links⟩
  intro v hv hExempt
  rw [fact_congr hFacts]
  exact hFits.admits hv hExempt

/-- A relation that holds is recorded. -/
theorem fits_addLink {exempt : ValueId → Prop} (hFits : s.Fits w a ρ exempt)
    (h : Concrete.Holds rel (ρ u) (ρ v)) : (s.addLink u rel v).Fits w a ρ exempt := by
  refine ⟨?_, hFits.lengths, ?_⟩
  · intro m hm hExempt
    rw [fact_congr facts_addLink]
    exact hFits.admits hm hExempt
  · intro l hl
    rcases mem_addLink hl with hl | rfl | ⟨r, hr, rfl⟩
    · exact hFits.links l hl
    · exact h
    · exact Concrete.holds_flipped hr h

-- ---------------------------------------------------------------------------
-- Narrowing
-- ---------------------------------------------------------------------------

/-- Which variables are narrowed, and which are exempt: the lengths of those that are null. The
company of a variable that is null is an object of its own. -/
structure Scope (w : World) (a : Arena) (ρ : ValueId → Concrete) (company : ValueId → Nat)
    (narrowed exempt : ValueId → Prop) : Prop where
  ordered  : ∀ {v}, narrowed v → Fact.Ordered w (company v) (ρ v)
  disjoint : ∀ {v}, narrowed v → ¬ exempt v
  lengths  : ∀ {l q v}, narrowed q → ρ q = .null → a.LengthOf l q v → exempt v

/-- **What narrowing preserves**: the valuation fits, and the facts to be narrowed keep
their values. -/
structure Kept (w : World) (a : Arena) (ρ : ValueId → Concrete) (company : ValueId → Nat)
    (narrowed exempt : ValueId → Prop) (s : State) : Prop where
  coherent : s.Coherent w.types a
  fits     : s.Fits w a ρ exempt
  keeps    : ∀ {v}, narrowed v → (s.fact a v).Keeps w (company v) (ρ v)

section

variable {narrowed exempt : ValueId → Prop} {company : ValueId → Nat}

/-- The variable that a fact is stored for. -/
theorem keeps_setFact_self (hArena : a.Coherent w.types) (hState : s.Coherent w.types a)
    (hf : f.Over w.types) (hOrdered : Fact.Ordered w o x) (hm : a.isVariable m = true)
    (h : ((s.fact a m).meet f).Keeps w o x) :
    ((s.setFact a m ((s.fact a m).meet f)).fact a m).Keeps w o x := by
  obtain ⟨i, hi⟩ := Arena.isVariable_iff.mp hm
  have hDerived : (s.derived a i).Over w.types := over_derived hArena hi
  have hStored : (s.stored m).Over w.types := over_stored hState
  rw [fact_setFact_self hArena hi, stored_setFact hm]
  have hFact := fact_var (s := s) hArena hi
  split
  · rename_i hSaid
    rw [Fact.meet_top]
    -- the declaration says what is to be stored, and more is derived for lengths only
    by_cases hLength : ∃ l q, a.LengthOf l q m
    · obtain ⟨l, q, hLength⟩ := hLength
      rw [hFact] at h
      have hAdmits := (Fact.admits_of_meet hDerived hStored
        (Fact.admits_of_meet (Fact.over_meet hDerived hStored) hf h.admits).1).1
      refine Fact.keeps_of_admits ?_ hAdmits
      rw [derived_of_length hi hLength] at hAdmits
      obtain ⟨n, hn, rfl⟩ :=
        (Fact.integral_meet (Or.inr Fact.integral_lengthFact)).exists_int hAdmits
      nofun
    · rw [derived_of_not_length hi fun l q h' => hLength ⟨l, q, h'⟩, ← hSaid]
      exact h
  · rw [hFact]
    rw [hFact] at h
    exact Fact.keeps_absorb hDerived hStored hf hOrdered h

/-- A length of the variable that a fact is stored for, where what becomes known of the variable
tells no more of the length. -/
theorem admits_setFact_length_of {l : Length} (hArena : a.Coherent w.types)
    (hLength : a.LengthOf l m v) (hNe : v ≠ m) (hv : (s.fact a v).Admits w (ρ v))
    (hTells : ∀ n hn, ρ v = .int n hn → ((s.fact a m).lengthFact l).Admits w (.int n hn) →
      (((s.setFact a m f).fact a m).lengthFact l).Admits w (.int n hn)) :
    ((s.setFact a m f).fact a v).Admits w (ρ v) := by
  obtain ⟨n, hn, hInt⟩ := (integral_fact hArena hLength).exists_int hv
  obtain ⟨x, hx⟩ := Arena.isVariable_iff.mp hLength.isVariable
  rw [fact_var hArena hx, derived_of_length hx hLength] at hv ⊢
  rw [stored_setFact_of_ne hNe]
  rw [hInt] at hv ⊢
  have hMeet : ∀ {f g : Fact}, (f.meet g).Admits w (.int n hn) ↔
      f.Admits w (.int n hn) ∧ g.Admits w (.int n hn) :=
    Fact.admits_meet_value nofun nofun
  rw [hMeet, hMeet] at hv ⊢
  obtain ⟨⟨hInherent, hDerived⟩, hStored⟩ := hv
  exact ⟨⟨hInherent, hTells n hn hInt hDerived⟩, hStored⟩

/-- The lengths of the variable that a fact is stored for, unless it is null. -/
theorem admits_setFact_length {l : Length} (hArena : a.Coherent w.types)
    (hLength : a.LengthOf l m v) (hNe : v ≠ m)
    (hOwned : ∀ o n, ρ m = .object o → w.length? l o = some n → ∃ hn, ρ v = .int n hn)
    (hNull : ρ m ≠ .null) (hOld : (s.fact a m).Admits w (ρ m))
    (hNew : ((s.setFact a m f).fact a m).Admits w (ρ m)) (hv : (s.fact a v).Admits w (ρ v)) :
    ((s.setFact a m f).fact a v).Admits w (ρ v) := by
  refine admits_setFact_length_of hArena hLength hNe hv fun n hn hInt hDerived => ?_
  rw [hInt] at hOwned
  by_cases hObject : ∃ o, ρ m = .object o
  · -- both facts on the object tell of its length
    obtain ⟨o, ho⟩ := hObject
    rw [ho] at hOld hNew
    have hLengths := Fact.lengths_of_lengthFact hOld (fun n => hOwned o n ho) hDerived
    exact Fact.admits_lengthFact hNew hLengths fun n => hOwned o n ho
  · -- neither fact is on references, and no length follows from them
    have hValue : ∀ o, ρ m ≠ .object o := fun o ho => hObject ⟨o, ho⟩
    rw [Fact.lengthFact_of_value hOld hNull hValue] at hDerived
    rw [Fact.lengthFact_of_value hNew hNull hValue]
    exact hDerived

/-- A variable gets another fact, which admits its value and lets its lengths be. -/
theorem fits_setFact_of (hArena : a.Coherent w.types) (hFits : s.Fits w a ρ exempt)
    (hSelf : ((s.setFact a m f).fact a m).Admits w (ρ m))
    (hLength : ∀ {l v}, a.LengthOf l m v → v ≠ m → ¬ exempt v →
      ((s.setFact a m f).fact a v).Admits w (ρ v)) : (s.setFact a m f).Fits w a ρ exempt := by
  refine ⟨?_, hFits.lengths, by rw [setFact_links]; exact hFits.links⟩
  -- a variable is the one narrowed, a length of it, or as before
  intro v hv hExempt
  by_cases hNe : v = m
  · subst hNe
    exact hSelf
  · by_cases hOf : ∃ l, a.LengthOf l m v
    · obtain ⟨l, hOf⟩ := hOf
      exact hLength hOf hNe hExempt
    · rw [fact_setFact_of_ne hArena hNe fun l h' => hOf ⟨l, h'⟩]
      exact hFits.admits hv hExempt

/-- A variable gets another fact, which keeps its value and lets its lengths be. -/
theorem kept_setFact_of (hArena : a.Coherent w.types)
    (hScope : Scope w a ρ company narrowed exempt) (hKept : Kept w a ρ company narrowed exempt s)
    (hf : f.Over w.types) (hSelf : ((s.setFact a m f).fact a m).Keeps w (company m) (ρ m))
    (hLength : ∀ {l v}, a.LengthOf l m v → v ≠ m → ¬ exempt v →
      ((s.setFact a m f).fact a v).Admits w (ρ v)) :
    Kept w a ρ company narrowed exempt (s.setFact a m f) := by
  refine ⟨coherent_setFact hKept.coherent hf,
    fits_setFact_of hArena hKept.fits hSelf.admits hLength, ?_⟩
  -- a length is an integer, so it needs no company
  intro v hv
  by_cases hNe : v = m
  · subst hNe
    exact hSelf
  · by_cases hOf : ∃ l, a.LengthOf l m v
    · obtain ⟨l, hOf⟩ := hOf
      have hAdmits := hLength hOf hNe (hScope.disjoint hv)
      obtain ⟨n, hn, hInt⟩ := (integral_fact hArena hOf).exists_int hAdmits
      exact Fact.keeps_of_admits (by rw [hInt]; nofun) hAdmits
    · rw [fact_setFact_of_ne hArena hNe fun l h' => hOf ⟨l, h'⟩]
      exact hKept.keeps hv

/-- **One variable is narrowed.** -/
theorem kept_setFact (hArena : a.Coherent w.types) (hScope : Scope w a ρ company narrowed exempt)
    (hKept : Kept w a ρ company narrowed exempt s) (hf : f.Over w.types) (hm : narrowed m)
    (hVariable : a.isVariable m = true)
    (h : ((s.fact a m).meet f).Keeps w (company m) (ρ m)) :
    Kept w a ρ company narrowed exempt (s.setFact a m ((s.fact a m).meet f)) := by
  have hOver := over_fact (v := m) hArena hKept.coherent
  have hSelf := keeps_setFact_self hArena hKept.coherent hf (hScope.ordered hm) hVariable h
  refine kept_setFact_of hArena hScope hKept (Fact.over_meet hOver hf) hSelf ?_
  intro l v hLength hNe hExempt
  refine admits_setFact_length hArena hLength hNe ?_ ?_ (hKept.keeps hm).admits
    hSelf.admits (hKept.fits.admits hLength.isVariable hExempt)
  · exact fun o n => hKept.fits.lengths hLength hVariable
  · exact fun hNull => hExempt (hScope.lengths hm hNull hLength)

/-- Variables are narrowed one after the other. -/
theorem kept_meetFacts (hArena : a.Coherent w.types) (hScope : Scope w a ρ company narrowed exempt)
    (hf : f.Over w.types) (vs : List ValueId)
    (hvs : ∀ v ∈ vs, narrowed v ∧ a.isVariable v = true ∧ f.Keeps w (company v) (ρ v))
    (hKept : Kept w a ρ company narrowed exempt s) :
    (meetFacts a f vs s).feasible = true ∧
      Kept w a ρ company narrowed exempt (meetFacts a f vs s).state := by
  induction vs generalizing s with
  | nil => exact ⟨rfl, hKept⟩
  | cons v vs ih =>
    obtain ⟨hv, hVariable, hfv⟩ := hvs v (List.mem_cons_self ..)
    have hMeet := Fact.keeps_meet (over_fact hArena hKept.coherent) hf (hScope.ordered hv)
      (hKept.keeps hv) hfv
    rw [meetFacts, hMeet.isBottom]
    exact ih (fun u hu => hvs u (List.mem_cons_of_mem _ hu))
      (kept_setFact hArena hScope hKept hf hv hVariable hMeet)

/-- **A value and all that equal it are narrowed.** -/
theorem kept_meetFact (hArena : a.Coherent w.types) (hScope : Scope w a ρ company narrowed exempt)
    (hKept : Kept w a ρ company narrowed exempt s) (hf : f.Over w.types)
    (hOrdered : Fact.Ordered w o x) (hv : (s.fact a v).Keeps w o x) (hfx : f.Keeps w o x)
    (hValue : a.isVariable v = true → ρ v = x)
    (hNarrowed : ∀ m ∈ s.equalClass v, a.isVariable v = true →
      narrowed m ∧ (x = .null → company m = o)) :
    (s.meetFact a v f).feasible = true ∧
      Kept w a ρ company narrowed exempt (s.meetFact a v f).state := by
  unfold meetFact
  split
  · rename_i hVariable
    refine kept_meetFacts hArena hScope hf _ ?_ hKept
    intro m hm
    obtain ⟨hMember, hSame⟩ := of_mem_equalClass hKept.coherent hKept.fits.links hVariable hm
    obtain ⟨hm, hCompany⟩ := hNarrowed m hm hVariable
    rw [hSame, hValue hVariable]
    exact ⟨hm, hMember, hfx.congr hCompany⟩
  · have hMeet := Fact.keeps_meet (over_fact hArena hKept.coherent) hf hOrdered hv hfx
    rw [hMeet.isBottom]
    exact ⟨rfl, hKept⟩

-- ---------------------------------------------------------------------------
-- Null
-- ---------------------------------------------------------------------------

/-- Nothing follows for the lengths of a value that is found to be null. -/
theorem kept_setNull (hArena : a.Coherent w.types) (hScope : Scope w a ρ company narrowed exempt)
    (hKept : Kept w a ρ company narrowed exempt s) (hVariable : a.isVariable m = true)
    (hNull : ρ m = .null) (hAdmits : (s.fact a m).Admits w .null) :
    Kept w a ρ company narrowed exempt (s.setFact a m .null) ∧
      (s.setFact a m .null).fact a m = .null := by
  have hSelf := fact_setNull_self hArena hKept.coherent hVariable hAdmits
  refine ⟨kept_setFact_of hArena hScope hKept Fact.over_ofNullness ?_ ?_, hSelf⟩
  · rw [hSelf, hNull]
    exact ⟨Fact.admits_null.mpr RefInfo.admitsNull_null, fun _ => Or.inl rfl⟩
  · intro l v hLength hNe hExempt
    refine admits_setFact_length_of hArena hLength hNe
      (hKept.fits.admits hLength.isVariable hExempt) fun n hn _ hDerived => ?_
    rw [hSelf, Fact.lengthFact_null]
    exact Fact.lengths_of_lengthFact_null hAdmits hDerived

/-- What is null stays null when other variables are found to be. -/
theorem fact_setNull_of_null (hArena : a.Coherent w.types) (h : s.fact a v = .null)
    (hm : (s.setFact a m .null).fact a m = .null) : (s.setFact a m .null).fact a v = .null := by
  by_cases hNe : v = m
  · rw [hNe, hm]
  · rw [fact_setFact_of_ne hArena hNe ?_, h]
    intro l hLength
    -- a length is an integer
    rcases integral_fact (s := s) hArena hLength with hEq | ⟨r, hEq⟩ <;> rw [h] at hEq <;> cases hEq

/-- Variables are found to be null one after the other. -/
theorem kept_meetNulls (hArena : a.Coherent w.types) (hScope : Scope w a ρ company narrowed exempt)
    (vs : List ValueId)
    (hvs : ∀ v ∈ vs, a.isVariable v = true ∧ ρ v = .null ∧ ¬ exempt v)
    (hKept : Kept w a ρ company narrowed exempt s) :
    (meetFacts a .null vs s).feasible = true ∧
      Kept w a ρ company narrowed exempt (meetFacts a .null vs s).state ∧
      ∀ v, s.fact a v = .null → (meetFacts a .null vs s).state.fact a v = .null := by
  induction vs generalizing s with
  | nil => exact ⟨rfl, hKept, fun _ => id⟩
  | cons v vs ih =>
    obtain ⟨hVariable, hNull, hExempt⟩ := hvs v (List.mem_cons_self ..)
    have hAdmits := hKept.fits.admits hVariable hExempt
    rw [hNull] at hAdmits
    obtain ⟨hNext, hSelf⟩ := kept_setNull hArena hScope hKept hVariable hNull hAdmits
    obtain ⟨hFeasible, hRest, hNulls⟩ := ih (fun u hu => hvs u (List.mem_cons_of_mem _ hu)) hNext
    rw [meetFacts, Fact.meet_null hAdmits]
    exact ⟨hFeasible, hRest, fun u hu => hNulls u (fact_setNull_of_null hArena hu hSelf)⟩

/-- **A value and all that equal it are found to be null.** No company is needed. -/
theorem kept_meetNull (hArena : a.Coherent w.types) (hScope : Scope w a ρ company narrowed exempt)
    (hKept : Kept w a ρ company narrowed exempt s) (hAdmits : (s.fact a v).Admits w .null)
    (hValue : a.isVariable v = true → ρ v = .null)
    (hExempt : ∀ m ∈ s.equalClass v, a.isVariable v = true → ¬ exempt m) :
    (s.meetFact a v .null).feasible = true ∧
      Kept w a ρ company narrowed exempt (s.meetFact a v .null).state ∧
      (s.fact a v = .null → (s.meetFact a v .null).state.fact a v = .null) := by
  unfold meetFact
  split
  · rename_i hVariable
    have hMembers : ∀ m ∈ s.equalClass v, a.isVariable m = true ∧ ρ m = .null ∧ ¬ exempt m := by
      intro m hm
      obtain ⟨hMember, hSame⟩ := of_mem_equalClass hKept.coherent hKept.fits.links hVariable hm
      exact ⟨hMember, hSame.trans (hValue hVariable), hExempt m hm hVariable⟩
    obtain ⟨hFeasible, hNext, hNulls⟩ := kept_meetNulls hArena hScope _ hMembers hKept
    exact ⟨hFeasible, hNext, fun hNull => hNulls v hNull⟩
  · rw [Fact.meet_null hAdmits]
    exact ⟨rfl, hKept, id⟩

/-- Narrowing records no relation. -/
theorem links_meetFacts {vs : List ValueId} : (meetFacts a f vs s).state.links = s.links := by
  induction vs generalizing s with
  | nil => rfl
  | cons v vs ih =>
    rw [meetFacts]
    split
    · rfl
    · exact ih.trans setFact_links

theorem links_meetFact : (s.meetFact a v f).state.links = s.links := by
  unfold meetFact
  split
  · exact links_meetFacts
  · rfl

end

end Pathwise.State
