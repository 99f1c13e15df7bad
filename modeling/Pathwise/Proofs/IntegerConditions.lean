import Pathwise.Proofs.Assertions
import Pathwise.Proofs.Canonical

/-!
# Conditions on integers

A comparison of two integers of which ranges are known is assumed exactly: it is feasible if
some pair from the two ranges is in the relation, and then each side is left with the
smallest range that has its members of such pairs, the *hull* of them (`Range.IsHull`).

That this comes out is due to what is done before. Whether the comparison has one outcome is
asked first; only if it has none are the ranges narrowed, and then there is a pair
(`Range.exists_related_of_open`). So where the bounds of a range are moved by one they stay
64-bit integers, and where a single value is taken off a range another one is left. The
right side is narrowed by what the left side has become, which relates to the same values
(`Range.related_hull`).

Relations that are recorded about the two values would pass the narrowing on to other
variables, so there must be none.

## Results

* `Fact.narrow_ints`             — narrowing a range by a comparison leaves the hull.
* `State.fact_setFact_int`       — a smaller range that is stored is the fact.
* `State.apply_integers_exact`   — a comparison of integers is assumed exactly.
-/

namespace Pathwise

/-- The flipped relation holds of the exchanged integers. -/
theorem Relation.holdsOfInts_flipped {rel r : Relation} {m n : Int}
    (h : rel.flipped? = some r) : r.HoldsOfInts n m ↔ rel.HoldsOfInts m n := by
  cases rel <;> cases h <;> simp only [HoldsOfInts] <;> omega

-- ---------------------------------------------------------------------------
-- Hulls
-- ---------------------------------------------------------------------------

namespace Range

variable {rel : Relation} {r r' s h : Range} {m n : Int} {p q : Int → Prop}

/-- **The hull** of some integers is the smallest range that has them all. -/
structure IsHull (h : Range) (p : Int → Prop) : Prop where
  contains : ∀ n, p n → n ∈ h
  least : ∀ r : Range, (∀ n, p n → n ∈ r) → ∀ n ∈ h, n ∈ r

/-- A range is the hull of its members. -/
theorem isHull_of_mem_iff (hMem : ∀ n, n ∈ h ↔ p n) : h.IsHull p :=
  ⟨fun n hn => (hMem n).mpr hn, fun _ hr n hn => hr n ((hMem n).mp hn)⟩

/-- What has its ends in it has the range as its hull, whatever is missing in between. -/
theorem isHull_of_ends (hContains : ∀ n, p n → n ∈ h) (hLo : p h.lo) (hHi : p h.hi) :
    h.IsHull p := by
  refine ⟨hContains, fun r hr n hn => ?_⟩
  have hLower := (hr _ hLo).1
  have hUpper := (hr _ hHi).2
  exact ⟨Int.le_trans hLower hn.1, Int.le_trans hn.2 hUpper⟩

theorem IsHull.congr (h' : h.IsHull p) (hSame : ∀ n, p n ↔ q n) : h.IsHull q :=
  ⟨fun n hn => h'.contains n ((hSame n).mpr hn),
    fun r hr => h'.least r fun n hn => hr n ((hSame n).mp hn)⟩

/-- The member of one range is in the relation to some member of the other. -/
def Related (rel : Relation) (r s : Range) (m : Int) : Prop :=
  m ∈ r ∧ ∃ n ∈ s, rel.HoldsOfInts m n

theorem IsHull.subset (h' : h.IsHull (Related rel r s)) (hm : m ∈ h) : m ∈ r :=
  h'.least r (fun _ hRelated => hRelated.1) m hm

-- ---------------------------------------------------------------------------
-- Narrowed ranges
-- ---------------------------------------------------------------------------

/-- The image of a range under an order has only integers in relation to a member, if there
is one at all: no bound is moved past the 64-bit integers. -/
theorem mem_image_iff (hOrdering : rel.isOrdering = true) (hm : m ∈ full) (hn : n ∈ s)
    (hHolds : rel.HoldsOfInts m n) {k : Int} :
    k ∈ s.image rel ↔ k ∈ full ∧ ∃ n ∈ s, rel.HoldsOfInts k n := by
  refine ⟨fun hk => ⟨mem_full hk, ?_⟩, fun ⟨hk, n, hn, h⟩ => mem_image hk hn h⟩
  have hNoTest : rel.isTypeTest = false := by cases rel <;> first | rfl | cases hOrdering
  refine (related_or_strays (isEmpty_eq_false hn) hNoTest hk).resolve_right fun hStrays => ?_
  have hLong := mem_long hm
  cases rel with
  | lt | gt =>
    obtain ⟨rfl, -⟩ := hStrays
    rw [(mem_point_iff (by decide)).mp hn] at hHolds
    simp only [Relation.HoldsOfInts] at hHolds
    omega
  | le | ge => exact hStrays
  | _ => cases hOrdering

/-- The integer that was taken off is no end of what is left. -/
theorem ne_ends_without (h : (r.without n).isEmpty = false) :
    (r.without n).lo ≠ n ∧ (r.without n).hi ≠ n := by
  have hLo := lo_mem h
  have hHi := hi_mem h
  rw [without] at h hLo hHi ⊢
  by_cases hOnly : r.lo = n ∧ r.hi = n
  · rw [if_pos hOnly] at h
    cases h
  · rw [if_neg hOnly] at hLo hHi ⊢
    by_cases hFirst : r.lo = n
    · rw [if_pos hFirst] at hLo hHi ⊢
      rw [mem_between] at hLo hHi
      omega
    · rw [if_neg hFirst] at hLo hHi ⊢
      by_cases hLast : r.hi = n
      · rw [if_pos hLast] at hLo hHi ⊢
        rw [mem_between] at hLo hHi
        omega
      · rw [if_neg hLast]
        exact ⟨hFirst, hLast⟩

/-- **Taking an integer off** leaves the hull of the others. -/
theorem isHull_without (hm : m ∈ r) (hNe : m ≠ n) :
    (r.without n).IsHull fun k => k ∈ r ∧ k ≠ n := by
  have hEmpty : (r.without n).isEmpty = false := isEmpty_eq_false (mem_without hm hNe)
  obtain ⟨hLo, hHi⟩ := ne_ends_without hEmpty
  refine isHull_of_ends (fun k hk => mem_without hk.1 hk.2) ?_ ?_
  · exact ⟨mem_of_mem_without (lo_mem hEmpty), hLo⟩
  · exact ⟨mem_of_mem_without (hi_mem hEmpty), hHi⟩

/-- A range without a single member has one other than any integer. -/
theorem exists_ne_of_single? (hn : n ∈ r) (hSingle : r.single? = none) (m : Int) :
    ∃ k ∈ r, m ≠ k := by
  have hr : r.isEmpty = false := isEmpty_eq_false hn
  have hEnds : r.lo ≠ r.hi := by
    intro hSame
    rw [single?, if_pos hSame] at hSingle
    cases hSingle
  by_cases hm : m = r.lo
  · exact ⟨r.hi, hi_mem hr, hm ▸ hEnds⟩
  · exact ⟨r.lo, lo_mem hr, hm⟩

/-- What is left of one side relates to the same members of the other side as before. -/
theorem related_hull {rel' : Relation} (hFlipped : rel.flipped? = some rel')
    (hHull : h.IsHull (Related rel r s)) : Related rel' s h n ↔ Related rel' s r n := by
  refine and_congr_right fun hn => ⟨?_, ?_⟩
  · rintro ⟨m, hm, hHolds⟩
    exact ⟨m, hHull.subset hm, hHolds⟩
  · rintro ⟨m, hm, hHolds⟩
    refine ⟨m, hHull.contains m ⟨hm, n, hn, ?_⟩, hHolds⟩
    exact (Relation.holdsOfInts_flipped hFlipped).mp hHolds

end Range

-- ---------------------------------------------------------------------------
-- Narrowed facts
-- ---------------------------------------------------------------------------

namespace Fact

variable {rel : Relation} {r s : Range} {f g : Fact} {m n : Int}

theorem ofRange_of_mem (h : n ∈ r) : ofRange r = int r := by
  rw [ofRange, Range.isEmpty_eq_false h, if_neg Bool.false_ne_true]

theorem narrowNe_ints : narrowNe (int r) (int s) =
    match s.single? with
    | some n => ofRange (r.without n)
    | none => int r := by
  cases hSingle : s.single? <;> simp [narrowNe, isConstant, hSingle]

/-- **Narrowing a range** by a comparison that holds of some pair leaves the hull of the members
that are related. -/
theorem narrow_ints (hm : m ∈ r) (hn : n ∈ s) (hHolds : rel.HoldsOfInts m n) :
    ∃ r' : Range, narrow rel (int r) (int s) = int r' ∧ r'.IsHull (Range.Related rel r s) := by
  -- the orders meet the range with the image of the other one
  have hOrder : rel.isOrdering = true →
      ∃ r' : Range, (int r).meet (ofRange (s.image rel)) = int r' ∧
        r'.IsHull (Range.Related rel r s) := by
    intro hOrdering
    have hFull := Range.mem_full hm
    have hImage := Range.mem_image hFull hn hHolds
    refine ⟨r.meet (s.image rel), ?_, Range.isHull_of_mem_iff fun k => ?_⟩
    · rw [ofRange_of_mem hImage, meet_int, ofRange_of_mem (Range.mem_meet.mpr ⟨hm, hImage⟩)]
    · rw [Range.mem_meet, Range.mem_image_iff hOrdering hFull hn hHolds]
      refine and_congr_right fun hk => and_iff_right ?_
      exact Range.mem_full hk
  cases rel with
  | instanceOf | notInstanceOf => exact hHolds.elim
  | lt | le | gt | ge => exact hOrder rfl
  | eq =>
    have hBoth : m ∈ r.meet s := Range.mem_meet.mpr ⟨hm, (show m = n from hHolds) ▸ hn⟩
    refine ⟨r.meet s, ?_, Range.isHull_of_mem_iff fun k => ?_⟩
    · rw [narrow, meet_int, ofRange_of_mem hBoth]
    · rw [Range.mem_meet]
      refine and_congr_right fun _ => ⟨fun hk => ⟨k, hk, rfl⟩, ?_⟩
      rintro ⟨l, hl, hEq⟩
      exact (show k = l from hEq) ▸ hl
  | ne =>
    rw [narrow, narrowNe_ints]
    cases hSingle : s.single? with
    | none =>
      -- of several integers one differs from each
      refine ⟨r, rfl, Range.isHull_of_mem_iff fun k => (and_iff_left ?_).symm⟩
      exact Range.exists_ne_of_single? hn hSingle k
    | some l =>
      have hOnly : ∀ k ∈ s, k = l := fun k hk => Range.eq_of_single? hSingle hk
      have hNe : m ≠ l := hOnly n hn ▸ hHolds
      refine ⟨r.without l, ofRange_of_mem (Range.mem_without hm hNe),
        (Range.isHull_without hm hNe).congr fun k => and_congr_right fun _ => ⟨?_, ?_⟩⟩
      · intro hk
        exact ⟨n, hn, hOnly n hn ▸ hk⟩
      · rintro ⟨k', hk', hHolds'⟩
        exact hOnly k' hk' ▸ hHolds'

/-- A comparison of integers is decided by their ranges. -/
theorem decide_ints (hNoTest : rel.isTypeTest = false) (hr : r.isEmpty = false)
    (hs : s.isEmpty = false) : decide? rel (int r) (int s) = Range.decide? rel r s := by
  cases rel with
  | instanceOf | notInstanceOf => cases hNoTest
  | ne =>
    -- `≠` is decided as the negation of `=`, and not both hold of all pairs
    show (Range.decide? .eq r s).map (!·) = Range.decide? .ne r s
    have hNotBoth : Range.always .eq r s = true → Range.always .ne r s = false := by
      intro hEq
      refine Bool.eq_false_iff.mpr fun hNe => ?_
      exact Range.not_holds_of_always hNe (Range.lo_mem hr) (Range.lo_mem hs)
        (by_contra fun h => Range.not_holds_of_always hEq (Range.lo_mem hr) (Range.lo_mem hs) h)
    rw [Range.decide?, Range.decide?, hr, hs]
    cases hEq : Range.always .eq r s with
    | true => simp [Relation.negated, hEq, hNotBoth hEq]
    | false => cases hNe : Range.always .ne r s <;> simp [Relation.negated, hEq, hNe]
  | _ => rfl

/-- What leaves a range in a meet leaves every member of it. -/
theorem top_or_int_of_meet (h : f.meet g = int r) :
    f = top ∨ ∃ d, f = int d ∧ ∀ n ∈ r, n ∈ d := by
  have hBottom : f.meet g ≠ bottom := by
    rw [h]
    simp
  cases f with
  | top => exact Or.inl rfl
  | int d =>
    refine Or.inr ⟨d, rfl, fun n hn => ?_⟩
    cases g with
    | top => exact int.inj h ▸ hn
    | int e =>
      rw [meet_int, ofRange] at h
      split at h
      · cases h
      · rw [← int.inj h] at hn
        exact (Range.mem_meet.mp hn).1
    | _ => cases h
  | bottom => cases h
  | bool b => cases g <;> first | cases h | (rw [meet] at h; split at h <;> cases h)
  | double d => cases g <;> first | cases h | (rw [meet] at h; split at h <;> cases h)
  | ref i al sl =>
    cases g with
    | ref j al' sl' =>
      obtain ⟨t, -, ⟨-, hEq⟩ | ⟨-, hEq⟩⟩ := meet_ref_cases hBottom <;> cases h.symm.trans hEq
    | _ => cases h

/-- A range that is met with one that has all its members stays. -/
theorem meet_int_of_subset {d : Range} (hn : n ∈ r) (hSubset : ∀ k ∈ r, k ∈ d) :
    (int d).meet (int r) = int r := by
  have hSame : d.meet r = r :=
    Range.ext_mem fun k => Range.mem_meet.trans (and_iff_right_of_imp (hSubset k))
  rw [meet_int, hSame, ofRange_of_mem hn]

end Fact

-- ---------------------------------------------------------------------------
-- States
-- ---------------------------------------------------------------------------

namespace State

variable {a : Arena} {s : State} {u v : ValueId} {x : Variable} {rel : Relation} {r r' : Range}
  {f : Fact} {n : Int}

/-- What is derived for a variable is met with its declaration. -/
theorem derived_eq_meet (hv : a.get v = .var x) : ∃ g, s.derived a x = (a.inherent v).meet g := by
  by_cases h : ∃ l q, a.LengthOf l q v
  · obtain ⟨l, q, h⟩ := h
    exact ⟨_, derived_of_length hv h⟩
  · refine ⟨.top, ?_⟩
    rw [derived_of_not_length hv fun l q h' => h ⟨l, q, h'⟩, Fact.meet_top]

/-- **A smaller range that is stored** for a variable is its fact. -/
theorem fact_setFact_int (hBack : a.Backward) (hVariable : a.isVariable v = true)
    (hOld : s.fact a v = .int r) (hn : n ∈ r') (hSubset : ∀ k ∈ r', k ∈ r) :
    (s.setFact a v (.int r')).fact a v = .int r' := by
  obtain ⟨x, hv⟩ := Arena.isVariable_iff.mp hVariable
  rw [hBack.fact_setFact_self hv, stored_setFact hVariable]
  rw [hBack.fact_var hv] at hOld
  have hDerived := Fact.top_or_int_of_meet hOld
  split
  · -- the declaration says it, and what is derived besides has not taken anything away
    rename_i hSaid
    obtain ⟨g, hMeet⟩ := derived_eq_meet (s := s) hv
    rw [← hSaid] at hMeet
    rw [Fact.meet_top]
    rcases hDerived with hTop | ⟨d, hInt, hAll⟩
    · rcases Fact.integral_meet (g := g) (Or.inl (Or.inr ⟨r', rfl⟩)) with hNot | ⟨e, hNot⟩ <;>
        cases hTop.symm.trans (hMeet.trans hNot)
    · rcases Fact.top_or_int_of_meet (hMeet.symm.trans hInt) with hTop | ⟨e, hSame, hMore⟩
      · cases hTop
      · obtain rfl : r' = e := Fact.int.inj hSame
        rw [hInt]
        exact congrArg Fact.int (Range.ext_mem fun k =>
          ⟨fun hk => hMore k hk, fun hk => hAll k (hSubset k hk)⟩)
  · rcases hDerived with hTop | ⟨d, hInt, hAll⟩
    · rw [hTop, Fact.top_meet]
    · rw [hInt, Fact.meet_int_of_subset hn fun k hk => hAll k (hSubset k hk)]

/-- Nothing is known to be equal to a value that no link mentions. -/
theorem equalClass_of_fresh (h : ∀ l ∈ s.links, l.mentions v = false) : s.equalClass v = [v] := by
  have hNone : s.equals v = [] := by
    refine List.eq_nil_iff_forall_not_mem.mpr fun m hm => ?_
    obtain ⟨l, hl, -, hEnds⟩ := mem_equals.mp hm
    have hFar := h l hl
    rw [Link.mentions, Bool.or_eq_false_iff, beq_eq_false_iff_ne, beq_eq_false_iff_ne] at hFar
    exact hEnds.elim (fun h => hFar.1 h.1) fun h => hFar.2 h.2.1
  rw [equalClass, equalClassFrom, hNone]
  cases 2 * s.links.size <;> rfl

/-- Storing a range in place of another one changes no other fact. -/
theorem fact_setFact_int_of_ne (hBack : a.Backward) (hVariable : a.isVariable v = true)
    (hOld : s.fact a v = .int r) (hn : n ∈ r') (hSubset : ∀ k ∈ r', k ∈ r) (hNe : u ≠ v) :
    (s.setFact a v (.int r')).fact a u = s.fact a u := by
  refine hBack.fact_setFact_of_lengthFact hNe fun l => ?_
  rw [fact_setFact_int hBack hVariable hOld hn hSubset, hOld]
  rfl

/-- **The fact of an operand is met** with a smaller range. -/
theorem meetFact_int (hBack : a.Backward) (hFree : ∀ l ∈ s.links, l.mentions v = false)
    (hOld : s.fact a v = .int r) (hn : n ∈ r') (hSubset : ∀ k ∈ r', k ∈ r) :
    (s.meetFact a v (.int r')).feasible = true ∧
      (a.isVariable v = true → (s.meetFact a v (.int r')).state.fact a v = .int r') ∧
      ∀ u, (u ≠ v ∨ a.isVariable v = false) →
        (s.meetFact a v (.int r')).state.fact a u = s.fact a u := by
  have hMeet : (s.fact a v).meet (.int r') = .int r' := by
    rw [hOld, Fact.meet_int_of_subset hn hSubset]
  unfold meetFact
  cases hVariable : a.isVariable v with
  | false =>
    rw [if_neg Bool.false_ne_true, hMeet]
    exact ⟨rfl, nofun, fun _ _ => rfl⟩
  | true =>
    have hOpen : ¬ (Fact.int r').isBottom = true := nofun
    rw [if_pos rfl, equalClass_of_fresh hFree, meetFacts, hMeet, if_neg hOpen, meetFacts]
    refine ⟨rfl, fun _ => fact_setFact_int hBack hVariable hOld hn hSubset, ?_⟩
    rintro u (hNe | hNone)
    · exact fact_setFact_int_of_ne hBack hVariable hOld hn hSubset hNe
    · cases hNone

variable {X Y : Range} {m : Int}

/-- **What is assumed of two ranges**: each operand that is a variable is left with the hull of
its integers that are related, and no other fact changes. -/
structure Exactly (a : Arena) (s : State) (u : ValueId) (X : Range) (rel : Relation)
    (v : ValueId) (Y : Range) (t : State) : Prop where
  left : ∃ X' : Range, t.fact a u = .int X' ∧
    X'.IsHull fun m => m ∈ X ∧ ∃ n ∈ Y, rel.HoldsOfInts m n
  right : a.isVariable v = true → ∃ Y' : Range, t.fact a v = .int Y' ∧
    Y'.IsHull fun n => n ∈ Y ∧ ∃ m ∈ X, rel.HoldsOfInts m n
  others : ∀ k, k ≠ u → (k ≠ v ∨ a.isVariable v = false) → t.fact a k = s.fact a k

/-- A comparison that holds of all pairs leaves everything as it is. -/
theorem exactly_of_always (hX : s.fact a u = .int X) (hY : s.fact a v = .int Y)
    (hX' : X.isEmpty = false) (hY' : Y.isEmpty = false)
    (hAll : ∀ m ∈ X, ∀ n ∈ Y, rel.HoldsOfInts m n) : s.Exactly a u X rel v Y s where
  left := ⟨X, hX, Range.isHull_of_mem_iff fun m => (and_iff_left_of_imp fun hm =>
    ⟨Y.lo, Range.lo_mem hY', hAll m hm _ (Range.lo_mem hY')⟩).symm⟩
  right := fun _ => ⟨Y, hY, Range.isHull_of_mem_iff fun n => (and_iff_left_of_imp fun hn =>
    ⟨X.lo, Range.lo_mem hX', hAll _ (Range.lo_mem hX') n hn⟩).symm⟩
  others := fun _ _ _ => rfl

/-- **A comparison that is not decided** narrows both operands to the hulls. -/
theorem applyOpen_ints (hBack : a.Backward) (hVariable : a.isVariable u = true) (hNe : u ≠ v)
    (hFree : ∀ l ∈ s.links, l.mentions u = false ∧ l.mentions v = false)
    (hX : s.fact a u = .int X) (hY : s.fact a v = .int Y) (hm : m ∈ X) (hn : n ∈ Y)
    (hHolds : rel.HoldsOfInts m n) :
    (s.applyOpen a u rel v).feasible = true ∧
      s.Exactly a u X rel v Y (s.applyOpen a u rel v).state := by
  obtain ⟨rel', hFlipped⟩ : ∃ rel', rel.flipped? = some rel' := by
    cases rel <;> first | exact ⟨_, rfl⟩ | exact hHolds.elim
  -- the left side first
  obtain ⟨X', hNarrow, hHull⟩ := Fact.narrow_ints hm hn hHolds
  have hm' : m ∈ X' := hHull.contains m ⟨hm, n, hn, hHolds⟩
  obtain ⟨hLeft, hFact, hOthers⟩ := meetFact_int hBack (fun l hl => (hFree l hl).1) hX hm'
    fun k hk => hHull.subset hk
  -- the right side is narrowed by what is left of it
  have hHolds' := (Relation.holdsOfInts_flipped hFlipped).mpr hHolds
  obtain ⟨Y', hNarrow', hHull'⟩ := Fact.narrow_ints hn hm' hHolds'
  have hn' : n ∈ Y' := hHull'.contains n ⟨hn, m, hm', hHolds'⟩
  obtain ⟨hRight, hFact', hOthers'⟩ :=
    meetFact_int (s := (s.meetFact a u (.int X')).state) (v := v) hBack
      (fun l hl => (hFree l (by rwa [links_meetFact] at hl)).2)
      ((hOthers v (Or.inl hNe.symm)).trans hY) hn' fun k hk => hHull'.subset hk
  have hResult : (s.applyOpen a u rel v).feasible = true ∧
      (s.applyOpen a u rel v).state.facts =
        ((s.meetFact a u (.int X')).state.meetFact a v (.int Y')).state.facts := by
    have hFresh : s.contradictsLink u rel v = false :=
      contradictsLink_of_fresh fun l hl => (hFree l hl).1
    unfold applyOpen
    simp only [hFresh, hX, hY, hNarrow, hFlipped, hFact hVariable, hNarrow', hLeft, hRight,
      Bool.and_false, Bool.not_true, Bool.false_eq_true, if_false, Bool.true_and]
    split
    · exact ⟨rfl, facts_addLink⟩
    · exact ⟨hRight, rfl⟩
  have hSame : ∀ k, (s.applyOpen a u rel v).state.fact a k =
      ((s.meetFact a u (.int X')).state.meetFact a v (.int Y')).state.fact a k := fun k =>
    fact_congr hResult.2
  refine ⟨hResult.1, ⟨X', ?_, hHull⟩, fun hv => ⟨Y', ?_, ?_⟩, ?_⟩
  · rw [hSame, hOthers' u (Or.inl hNe), hFact hVariable]
  · rw [hSame, hFact' hv]
  · refine hHull'.congr fun k => (Range.related_hull hFlipped hHull).trans ?_
    exact and_congr_right fun _ => exists_congr fun j => and_congr_right fun _ =>
      Relation.holdsOfInts_flipped hFlipped
  · intro k hk hOther
    rw [hSame, hOthers' k hOther, hOthers k (Or.inl hk)]

/-- **A comparison of integers is assumed exactly**: it is feasible if some pair is in the
relation, and then each side is left with the smallest range of its integers that are. -/
theorem apply_integers_exact (hBack : a.Backward) (hVariable : a.isVariable u = true)
    (hNe : u ≠ v) (hFree : ∀ l ∈ s.links, l.mentions u = false ∧ l.mentions v = false)
    (hX : s.fact a u = .int X) (hY : s.fact a v = .int Y) (hX' : X.isEmpty = false)
    (hY' : Y.isEmpty = false) (hNoTest : rel.isTypeTest = false) :
    ((s.apply a (.of a u rel v)).feasible = true ↔ ∃ m ∈ X, ∃ n ∈ Y, rel.HoldsOfInts m n) ∧
      ((s.apply a (.of a u rel v)).feasible = true →
        s.Exactly a u X rel v Y (s.apply a (.of a u rel v)).state) := by
  have hApply : s.apply a (.of a u rel v) =
      (Range.decide? rel X Y).elim (s.applyOpen a u rel v) fun b => ⟨b, s⟩ := by
    have hOther : (u = v && !rel.isTypeTest) = false := by rw [decide_eq_false hNe, Bool.false_and]
    rw [Condition.of, hVariable, Bool.true_or, if_pos rfl, apply, applyRelation, hX, hY, hOther,
      Fact.decide_ints hNoTest hX' hY']
    cases Range.decide? rel X Y <;> rfl
  rw [hApply]
  cases hDecide : Range.decide? rel X Y with
  | some b =>
    cases b with
    | true =>
      have hAll : ∀ m ∈ X, ∀ n ∈ Y, rel.HoldsOfInts m n := fun m hm n hn =>
        Range.holds_of_decide? hNoTest hDecide hm hn
      refine ⟨⟨fun _ => ?_, fun _ => rfl⟩, fun _ => exactly_of_always hX hY hX' hY' hAll⟩
      exact ⟨X.lo, Range.lo_mem hX', Y.lo, Range.lo_mem hY',
        hAll _ (Range.lo_mem hX') _ (Range.lo_mem hY')⟩
    | false =>
      refine ⟨iff_of_false Bool.false_ne_true ?_, fun h => absurd h Bool.false_ne_true⟩
      rintro ⟨m, hm, n, hn, hHolds⟩
      exact Bool.false_ne_true (Range.eq_true_of_decide? hDecide hm hn hHolds)
  | none =>
    obtain ⟨m, hm, n, hn, hHolds⟩ := Range.exists_related_of_open hX' hY' hNoTest hDecide
    obtain ⟨hFeasible, hExactly⟩ := applyOpen_ints hBack hVariable hNe hFree hX hY hm hn hHolds
    exact ⟨⟨fun _ => ⟨m, hm, n, hn, hHolds⟩, fun _ => hFeasible⟩, fun _ => hExactly⟩

/-- Two integers of which one is at most 10 and the other one at most 3. -/
def capped : State :=
  (initial.setFact integers 1 (.int (.between 0 10))).setFact integers 2 (.int (.between 0 3))

/-- The first one is less than the second one: nothing else is assumed. -/
theorem apply_less_exact :
    (capped.apply integers (.of integers 1 .lt 2)).feasible = true ∧
      capped.Exactly integers 1 (.between 0 10) .lt 2 (.between 0 3)
        (capped.apply integers (.of integers 1 .lt 2)).state := by
  have hEvaluated : integers.isVariable 1 = true ∧ capped.links.toList = [] ∧
      capped.fact integers 1 = .int (.between 0 10) ∧
      capped.fact integers 2 = .int (.between 0 3) := by
    decide +kernel
  obtain ⟨hVariable, hLinks, hLeft, hRight⟩ := hEvaluated
  have hFree : ∀ l ∈ capped.links, l.mentions 1 = false ∧ l.mentions 2 = false := by
    intro l hl
    have hMem : l ∈ capped.links.toList := hl
    rw [hLinks] at hMem
    cases hMem
  have hNoTest : Relation.isTypeTest .lt = false := rfl
  have hExact := apply_integers_exact arises_integers.ordered.backward hVariable (by decide) hFree
    hLeft hRight (by decide) (by decide) hNoTest
  have hFeasible := hExact.1.mpr ⟨0, by decide, 1, by decide, show (0 : Int) < 1 by decide⟩
  exact ⟨hFeasible, hExact.2 hFeasible⟩

example :
    (capped.apply integers (.of integers 1 .lt 2)).state.fact integers 1 = .int (.between 0 2) ∧
      (capped.apply integers (.of integers 1 .lt 2)).state.fact integers 2 =
        .int (.between 1 3) := by
  decide +kernel

end State

end Pathwise
