import Pathwise.Proofs.Absorption
import Pathwise.Proofs.Feasibility

/-!
# Contradictions that are left behind

A variable is narrowed by storing the meet of its fact with another one, after a look that this
is not `bottom`. When the fact is read again, what is stored is met with the declaration of the
variable, so a second look would be needed if that could bring up a contradiction. It cannot,
as long as the lengths that the declaration states are possible: what two meets left of the
declaration is left by a third one (`Fact.meet_again`).

The fact of a length is another matter. It is derived from the fact on the object, which may be
narrowed without a look at the lengths. A reference to an array that is found to be one of
length 3 leaves the variable for its length with a contradiction if that was known to be 7, and
the condition is feasible nevertheless. `apply_bottom_iff` says that this is the only way.

## Results

* `State.Declared`           — the declarations that can be met.
* `alive_setFact`, `alive_meetFacts` — narrowing leaves contradictions for lengths only.
* `apply_bottom_iff`         — the variables that are left with a contradiction.
* `apply_contradicts_length` — an array of seven elements that is found to be one of three.
-/

namespace Pathwise

-- ---------------------------------------------------------------------------
-- Lengths
-- ---------------------------------------------------------------------------

namespace Fact

variable {w : World} {e f g : Fact}

/-- A fact on integers that was met with something has some integer, or is a contradiction. -/
theorem exists_int_of_integral (hf : f ≠ top) (hg : g.Integral)
    (h : (f.meet g).isBottom = false) : ∃ r, f.meet g = int r ∧ r.isEmpty = false := by
  rcases hg with rfl | ⟨r, rfl⟩
  · cases f <;> cases h
  · cases f with
    | top => exact absurd rfl hf
    | int s =>
      rw [meet_int, ofRange] at h ⊢
      split at h
      · cases h
      · rename_i hSome
        exact ⟨s.meet r, if_neg hSome, eq_false_of_ne_true hSome⟩
    | _ => cases h

/-- **A fact on integers is a contradiction** if no value satisfies all that it was met from. -/
theorem isBottom_iff_of_integral (hf : f ≠ top) (hg : g.Integral) :
    ((f.meet g).meet e).isBottom = true ↔
      ∀ x, ¬ (f.Admits w x ∧ g.Admits w x ∧ e.Admits w x) := by
  have hMeet : ∀ n hn, ((f.meet g).meet e).Admits w (.int n hn) ↔
      f.Admits w (.int n hn) ∧ g.Admits w (.int n hn) ∧ e.Admits w (.int n hn) := by
    intro n hn
    have hInt : ∀ {f g : Fact}, (f.meet g).Admits w (.int n hn) ↔
        f.Admits w (.int n hn) ∧ g.Admits w (.int n hn) := admits_meet_value nofun nofun
    rw [hInt, hInt, and_assoc]
  constructor
  · intro hBottom x hx
    obtain ⟨n, hn, rfl⟩ := hg.exists_int hx.2.1
    rw [isBottom_of_admits ((hMeet n hn).mpr hx)] at hBottom
    cases hBottom
  · intro hNone
    by_contra hSome
    have hSome := eq_false_of_ne_true hSome
    obtain ⟨r, hr, hrSome⟩ := exists_int_of_integral hf hg (isBottom_eq_false_of_meet hSome)
    rw [hr] at hSome
    obtain ⟨t, ht, htSome, -⟩ := exists_int_of_meet hrSome hSome
    have hMem := Range.lo_mem htSome
    have hLong := Range.mem_full hMem
    refine hNone (.int t.lo hLong) ((hMeet t.lo hLong).mp ?_)
    rw [hr, ht]
    exact admits_int.mpr hMem

end Fact

-- ---------------------------------------------------------------------------
-- States
-- ---------------------------------------------------------------------------

namespace State

variable {w : World} {a : Arena} {s t : State} {f : Fact} {rel : Relation} {u v q : ValueId}

/-- The declaration of a value can be met: the lengths that it states are possible, and that
of a length says that it is an integer. -/
structure Declared (w : World) (a : Arena) (v : ValueId) : Prop where
  measurable : (a.inherent v).Measurable w
  length     : ∀ {l q}, a.LengthOf l q v → a.inherent v ≠ .top

/-- The state is coherent, and what is known of `v` is no contradiction. -/
structure Alive (w : World) (a : Arena) (v : ValueId) (s : State) : Prop where
  coherent : s.Coherent w.types a
  fact     : (s.fact a v).isBottom = false

theorem Alive.congr (h : s.Alive w a v) (hCoherent : t.Coherent w.types a)
    (hFacts : t.facts = s.facts) : t.Alive w a v :=
  ⟨hCoherent, by rw [fact_congr hFacts]; exact h.fact⟩

/-- What is derived for a variable can be met with what is left of its fact, unless that is
not stored, because the declaration says it. -/
theorem isBottom_derived_meet {x : Variable} (hArena : a.Coherent w.types)
    (hState : s.Coherent w.types a) (hf : f.Over w.types) (hDeclared : Declared w a v)
    (hv : a.get v = .var x) (h : ((s.fact a v).meet f).isBottom = false)
    (hStored : (s.fact a v).meet f ≠ a.inherent v) :
    ((s.derived a x).meet ((s.fact a v).meet f)).isBottom = false := by
  rw [fact_var hArena hv] at h hStored ⊢
  by_cases hLength : ∃ l q, a.LengthOf l q v
  · -- a length has integers left in every range that is left
    obtain ⟨l, q, hLength⟩ := hLength
    have hFirst := Fact.isBottom_eq_false_of_meet (Fact.isBottom_eq_false_of_meet h)
    rw [derived_of_length hv hLength] at h hFirst ⊢
    obtain ⟨r, hr, hSome⟩ := Fact.exists_int_of_integral (hDeclared.length hLength)
      Fact.integral_lengthFact hFirst
    rw [hr] at h ⊢
    rw [Fact.meet_again_int hSome h]
    exact h
  · have hNone : ∀ l q, ¬ a.LengthOf l q v := fun l q h' => hLength ⟨l, q, h'⟩
    rw [derived_of_not_length hv hNone] at h hStored ⊢
    rw [(Fact.meet_again (hArena.declared v) (over_stored hState) hf hDeclared.measurable
      h).resolve_left hStored]
    exact h

/-- **What is left of a fact is stored**: this is no contradiction for the variable, and for
another one only if that is a length of it. -/
theorem alive_setFact (hArena : a.Coherent w.types) (hf : f.Over w.types)
    (hDeclared : Declared w a v) (hSpared : ∀ l, ¬ a.LengthOf l u v)
    (hMeet : ((s.fact a u).meet f).isBottom = false) (h : s.Alive w a v) :
    (s.setFact a u ((s.fact a u).meet f)).Alive w a v := by
  refine ⟨coherent_setFact h.coherent (Fact.over_meet (over_fact hArena h.coherent) hf), ?_⟩
  by_cases hSame : v = u
  · subst hSame
    cases hVariable : a.isVariable v with
    | false =>
      rw [setFact_of_not_variable hVariable]
      exact h.fact
    | true =>
      obtain ⟨x, hv⟩ := Arena.isVariable_iff.mp hVariable
      rw [fact_setFact_self hArena hv, stored_setFact hVariable]
      split
      · have hFact := h.fact
        rw [fact_var hArena hv] at hFact
        rw [Fact.meet_top]
        exact Fact.isBottom_eq_false_of_meet hFact
      · rename_i hStored
        exact isBottom_derived_meet hArena h.coherent hf hDeclared hv hMeet hStored
  · rw [fact_setFact_of_ne hArena hSame hSpared]
    exact h.fact

/-- **Variables are narrowed one after the other**, and only their lengths are left with a
contradiction. The induction is on the variables. -/
theorem alive_meetFacts (hArena : a.Coherent w.types) (hf : f.Over w.types)
    (hDeclared : Declared w a v) (vs : List ValueId)
    (hSpared : ∀ m ∈ vs, ∀ l, ¬ a.LengthOf l m v) (h : s.Alive w a v) :
    (meetFacts a f vs s).state.Alive w a v := by
  induction vs generalizing s with
  | nil => exact h
  | cons m vs ih =>
    rw [meetFacts]
    split
    · exact h
    · rename_i hMeet
      exact ih (fun m hm => hSpared m (List.mem_cons_of_mem _ hm))
        (alive_setFact hArena hf hDeclared (hSpared m (List.mem_cons_self ..))
          (eq_false_of_ne_true hMeet) h)

/-- `v` is no length of a variable that is narrowed with `u`. -/
def Spares (a : Arena) (s : State) (u v : ValueId) : Prop :=
  a.isVariable u = true → ∀ m ∈ s.equalClass u, ∀ l, ¬ a.LengthOf l m v

theorem Spares.congr (h : s.Spares a u v) (hLinks : t.links = s.links) : t.Spares a u v := by
  intro hVariable m hm
  rw [equalClass_congr hLinks] at hm
  exact h hVariable m hm

theorem alive_meetFact (hArena : a.Coherent w.types) (hf : f.Over w.types)
    (hDeclared : Declared w a v) (hSpared : s.Spares a u v) (h : s.Alive w a v) :
    (s.meetFact a u f).state.Alive w a v := by
  unfold meetFact
  split
  · rename_i hVariable
    exact alive_meetFacts hArena hf hDeclared _ (hSpared hVariable) h
  · exact h

/-- A value that is compared with itself is narrowed at most once. -/
theorem alive_applySelf (hArena : a.Coherent w.types) (hDeclared : Declared w a v)
    (hSpared : s.Spares a u v) (h : s.Alive w a v) : (s.applySelf a u rel).state.Alive w a v := by
  unfold applySelf
  split
  · split
    · exact alive_meetFact hArena (Fact.over_of_info rfl) hDeclared hSpared h
    · exact h
    · exact h
    · exact h
  · exact h

/-- The operands are narrowed one after the other, and their relation is recorded. -/
theorem alive_applyOpen (hArena : a.Coherent w.types) (hDeclared : Declared w a v)
    (hLeft : s.Spares a u v) (hRight : s.Spares a q v) (h : s.Alive w a v) :
    (s.applyOpen a u rel q).state.Alive w a v := by
  have hOver : ∀ {t : State} {m : ValueId}, t.Alive w a v → (t.fact a m).Over w.types :=
    fun ht => over_fact hArena ht.coherent
  have hNext : (s.meetFact a u ((s.fact a u).narrow rel (s.fact a q))).state.Alive w a v :=
    alive_meetFact hArena (Fact.over_narrow (hOver h) (hOver h)) hDeclared hLeft h
  -- what is recorded changes no fact
  have hRecorded : ∀ {n : Narrowing}, n.state.Alive w a v →
      (if (n.feasible && (a.isVariable u && a.isVariable q && !rel.isTypeTest)) = true then
        (⟨true, n.state.addLink u rel q⟩ : Narrowing) else n).state.Alive w a v := by
    intro n hn
    split
    · rename_i hLinked
      simp only [Bool.and_eq_true] at hLinked
      exact hn.congr (coherent_addLink hn.coherent hLinked.2.1.1 hLinked.2.1.2) facts_addLink
    · exact hn
  unfold applyOpen
  dsimp only
  split
  · exact h
  · split
    · exact hNext
    · split
      · exact hRecorded (alive_meetFact hArena (Fact.over_narrow (hOver h) (hOver hNext)) hDeclared
          (hRight.congr links_meetFact) hNext)
      · exact hRecorded hNext

theorem alive_applyRelation (hArena : a.Coherent w.types) (hDeclared : Declared w a v)
    (hLeft : s.Spares a u v) (hRight : s.Spares a q v) (h : s.Alive w a v) :
    (s.applyRelation a u rel q).state.Alive w a v := by
  unfold applyRelation
  dsimp only
  split
  · exact h
  · split
    · exact h
    · split
      · exact alive_applySelf hArena hDeclared hLeft h
      · split
        · exact h
        · exact alive_applyOpen hArena hDeclared hLeft hRight h

/-- The variables that assuming a condition may narrow. -/
def NarrowedBy (a : Arena) (s : State) : Condition → ValueId → Prop
  | .relation u _ v, m => s.Narrows a u v m
  | _, _ => False

/-- **A variable is left without a contradiction** unless it is a length of one that may be
narrowed, whether the condition is feasible or not. -/
theorem alive_apply {c : Condition} (hArena : a.Coherent w.types) (hDeclared : Declared w a v)
    (hSpared : ∀ l q, a.LengthOf l q v → ¬ s.NarrowedBy a c q) (h : s.Alive w a v) :
    (s.apply a c).state.Alive w a v := by
  cases c with
  | always | never => exact h
  | relation u rel q =>
    refine alive_applyRelation hArena hDeclared ?_ ?_ h
    · exact fun hVariable m hm l hLength => hSpared l m hLength (Or.inl ⟨hVariable, hm⟩)
    · exact fun hVariable m hm l hLength => hSpared l m hLength (Or.inr ⟨hVariable, hm⟩)

/-- **Which contradictions are left behind.** Assuming a condition leaves one for a variable
that had none exactly if the variable is a length of one that is narrowed, and no value is
what is then known of the length of that, and what is otherwise known of the variable. -/
theorem apply_bottom_iff {c : Condition} (hReached : Reached w.types a s)
    (hAlive : (s.fact a v).isBottom = false) (hDeclared : Declared w a v) :
    ((s.apply a c).state.fact a v).isBottom = true ↔
      ∃ l q, a.LengthOf l q v ∧ s.NarrowedBy a c q ∧ ∀ x, ¬ ((a.inherent v).Admits w x ∧
        (((s.apply a c).state.fact a q).lengthFact l).Admits w x ∧
        ((s.apply a c).state.stored v).Admits w x) := by
  obtain ⟨hArena, hState⟩ := hReached.coherent
  have hFact : ∀ {l q}, a.LengthOf l q v → (s.apply a c).state.fact a v =
      ((a.inherent v).meet (((s.apply a c).state.fact a q).lengthFact l)).meet
        ((s.apply a c).state.stored v) := by
    intro l q hLength
    obtain ⟨x, hv⟩ := Arena.isVariable_iff.mp hLength.isVariable
    rw [fact_var hArena hv, derived_of_length hv hLength]
  constructor
  · intro hBottom
    by_contra hNone
    have hSpared : ∀ l q, a.LengthOf l q v → ¬ s.NarrowedBy a c q := by
      intro l q hLength hNarrowed
      refine hNone ⟨l, q, hLength, hNarrowed, ?_⟩
      rw [hFact hLength] at hBottom
      exact (Fact.isBottom_iff_of_integral (hDeclared.length hLength)
        Fact.integral_lengthFact).mp hBottom
    rw [(alive_apply hArena hDeclared hSpared ⟨hState, hAlive⟩).fact] at hBottom
    cases hBottom
  · rintro ⟨l, q, hLength, -, hNone⟩
    rw [hFact hLength]
    exact (Fact.isBottom_iff_of_integral (hDeclared.length hLength)
      Fact.integral_lengthFact).mpr hNone

/-- The array of `measured` is known to have seven elements. -/
def sevenLong : State := initial.setFact measured 2 (.ofInt 7)

theorem evaluated_sevenLong :
    (∀ m ∈ measured.allVars, (sevenLong.fact measured m).isBottom = false) ∧
      (sevenLong.apply measured (.relation 1 .eq 3)).feasible = true ∧
      (measured.get 2 = .var ⟨.length .array, some 1, .int .lengths⟩) ∧
      ((sevenLong.apply measured (.relation 1 .eq 3)).state.fact measured 1).lengthFact .array =
        .ofInt 3 ∧
      (sevenLong.apply measured (.relation 1 .eq 3)).state.stored 2 = .ofInt 7 := by
  decide +kernel

theorem reached_sevenLong : Reached plainWorld.types measured sevenLong :=
  .store 2 _ reached_measured (Fact.over_of_info rfl)

/-- **A contradiction is left behind**: an array of seven elements is found to be one of three. -/
theorem apply_contradicts_length :
    Reached plainWorld.types measured sevenLong ∧
      (∀ m, measured.isVariable m = true → (sevenLong.fact measured m).isBottom = false) ∧
      (sevenLong.apply measured (.relation 1 .eq 3)).feasible = true ∧
      ((sevenLong.apply measured (.relation 1 .eq 3)).state.fact measured 2).isBottom = true := by
  obtain ⟨hAlive, hFeasible, hGet, hLeft, hStored⟩ := evaluated_sevenLong
  have hVariable : measured.isVariable 2 = true := Arena.isVariable_iff.mpr ⟨_, hGet⟩
  have hAlive' := hAlive 2 (Arena.mem_allVars.mpr hVariable)
  have hDeclared : Declared plainWorld measured 2 := by
    have hInherent : measured.inherent 2 = .int .lengths := by
      rw [Arena.inherent, hGet]
      rfl
    refine ⟨?_, fun _ => ?_⟩
    · rw [hInherent]
      trivial
    · rw [hInherent]
      simp
  refine ⟨reached_sevenLong, fun m hm => hAlive m (Arena.mem_allVars.mpr hm), hFeasible,
    (apply_bottom_iff (w := plainWorld) reached_sevenLong hAlive' hDeclared).mpr
      ⟨.array, 1, ⟨_, hGet, rfl, rfl⟩, Or.inl ⟨by decide +kernel, mem_equalClass_self⟩, ?_⟩⟩
  rw [hLeft, hStored]
  rintro x ⟨-, hThree, hSeven⟩
  obtain ⟨n, hn, rfl, hMem⟩ := hThree
  have hMem' := Fact.admits_int.mp hSeven
  rw [Range.point, Range.mem_between] at hMem hMem'
  omega

end State

end Pathwise
