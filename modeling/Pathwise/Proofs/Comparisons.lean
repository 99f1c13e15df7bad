import Pathwise.Proofs.Worlds
import Pathwise.Range.Compare

/-!
# Comparisons of ranges

What is decided of a comparison of two ranges is right, and nothing that could be decided is left
open. Each outcome is asked for by comparing one end of a range with one end of the other: the ends
that are the most against the outcome. If the outcome is not the one of that pair it is not that of
all, so one pair of members is enough to show that a comparison is open. Only for `≠` it is no
pair of ends, but a common member.

A relation fails of all pairs if its negation holds of all, and so one question is enough
(`Range.always`).

The integers that are in relation to some member of a range are a range as well, between two
integers at most one away from the ends. Two things keep its image from being just that. A bound is
not moved past the 64-bit integers, so where nothing is left an extreme integer stays. And `≠` takes
off one integer, which only leaves a range if that is an extreme one.

## Results

* `Range.exists_fails_of_not_always` — a pair that shows that a comparison does not hold of all.
* `Range.exists_related_of_open` — a comparison that has no one outcome holds of some pair.
* `Range.decide?_exact`          — a comparison is decided exactly if it has one outcome.
* `Range.mem_image`, `related_or_strays` — the integers in relation to a member are in the image,
  and others only if they stray.
* `Range.image_exact`            — the members of an image.
-/

namespace Pathwise

/-- A relation that fails of two integers is one of which the negation holds. -/
theorem Relation.holds_negated_of_ints {rel : Relation} {m n : Int}
    (hNoTest : rel.isTypeTest = false) (hFails : ¬ rel.HoldsOfInts m n) :
    rel.negated.HoldsOfInts m n := by
  cases rel <;> simp only [negated, HoldsOfInts] at hFails ⊢ <;>
    first | omega | cases hNoTest

namespace Range

variable {rel : Relation} {r s : Range} {m n : Int}

-- ---------------------------------------------------------------------------
-- Members
-- ---------------------------------------------------------------------------

theorem isEmpty_eq_false_iff : r.isEmpty = false ↔ ∃ n, n ∈ r :=
  ⟨fun h => ⟨r.lo, lo_mem h⟩, fun ⟨_, hn⟩ => isEmpty_eq_false hn⟩

/-- The only member of a range. -/
theorem eq_of_single? (hSingle : r.single? = some m) (h : n ∈ r) : n = m := by
  rw [single?] at hSingle
  split at hSingle
  · cases hSingle
    rw [mem_def] at h
    omega
  · cases hSingle

theorem mem_point_iff (hm : m ∈ full) : n ∈ point m ↔ n = m := by
  have hLong := mem_long hm
  rw [point, mem_between]
  omega

/-- A range of which both ends are one integer has no other member. -/
theorem eq_point (h : r.lo = m ∧ r.hi = m) : r = point m := by
  have hm : m ∈ full := mem_full ⟨Int.le_of_eq h.1, Int.le_of_eq h.2.symm⟩
  refine ext_mem fun n => ?_
  rw [mem_point_iff hm, mem_def, h.1, h.2]
  omega

theorem single?_eq_some_iff : r.single? = some m ↔ r.lo = m ∧ r.hi = m := by
  rw [single?]
  split
  · rename_i hSame
    rw [Option.some.injEq, ← hSame, and_self]
  · rename_i hNot
    refine iff_of_false (by simp) ?_
    rintro ⟨hLo, hHi⟩
    exact hNot (hLo.trans hHi.symm)

theorem mem_of_single? (h : r.single? = some m) : m ∈ r := by
  rw [single?] at h
  split at h
  · rename_i hSame
    rw [← Option.some.inj h]
    exact ⟨Int.le_refl _, Int.le_of_eq hSame⟩
  · cases h

/-- Nothing is added by taking an integer off. -/
theorem mem_of_mem_without (hm : m ∈ r.without n) : m ∈ r := by
  unfold without at hm
  split at hm
  · exact absurd hm not_mem_empty
  · split at hm
    · rw [mem_between] at hm
      exact ⟨by omega, hm.1.2⟩
    · split at hm
      · rw [mem_between] at hm
        exact ⟨hm.1.1, by omega⟩
      · exact hm

theorem mem_without (hm : m ∈ r) (hNe : m ≠ n) : m ∈ r.without n := by
  have hLong := mem_long hm
  unfold without
  rw [mem_def] at hm
  simp only [minLong, maxLong] at hLong
  split
  · omega
  · split
    · simp only [mem_between, minLong, maxLong]
      omega
    · split
      · simp only [mem_between, minLong, maxLong]
        omega
      · exact hm

-- ---------------------------------------------------------------------------
-- What holds of all pairs
-- ---------------------------------------------------------------------------

/-- A comparison that holds of all pairs does not fail of one. -/
theorem not_holds_of_always (hAlways : always rel r s = true) (hm : m ∈ r) (hn : n ∈ s) :
    ¬ rel.negated.HoldsOfInts m n := by
  intro h
  have hm' := hm
  have hn' := hn
  rw [mem_def] at hm hn
  cases rel with
  | eq =>
    rw [always, Bool.and_eq_true, beq_iff_eq] at hAlways
    obtain ⟨k, hk⟩ := Option.isSome_iff_exists.mp hAlways.1
    have hLeft := eq_of_single? hk hm'
    have hRight := eq_of_single? (hAlways.2 ▸ hk) hn'
    exact h (hLeft.trans hRight.symm)
  | ne =>
    have hSame : m = n := h
    have hMem : m ∈ r.meet s := mem_meet.mpr ⟨hm', hSame ▸ hn'⟩
    rw [always, isEmpty_eq_false hMem] at hAlways
    cases hAlways
  | instanceOf | notInstanceOf => cases hAlways
  | _ =>
    simp only [always, decide_eq_true_eq] at hAlways
    simp only [Relation.negated, Relation.HoldsOfInts] at h
    omega

/-- A comparison that is not known to hold of all pairs fails of one. -/
theorem exists_fails_of_not_always (hr : r.isEmpty = false) (hs : s.isEmpty = false)
    (hNoTest : rel.isTypeTest = false) (hNot : always rel r s = false) :
    ∃ m ∈ r, ∃ n ∈ s, ¬ rel.HoldsOfInts m n := by
  -- but for `≠`, one of the pairs of ends will do
  have hEnds : (∃ m ∈ [r.lo, r.hi], ∃ n ∈ [s.lo, s.hi], ¬ rel.HoldsOfInts m n) →
      ∃ m ∈ r, ∃ n ∈ s, ¬ rel.HoldsOfInts m n := by
    rintro ⟨m, hm, n, hn, hFails⟩
    simp only [List.mem_cons, List.not_mem_nil, or_false] at hm hn
    refine ⟨m, ?_, n, ?_, hFails⟩
    · rcases hm with rfl | rfl
      · exact lo_mem hr
      · exact hi_mem hr
    · rcases hn with rfl | rfl
      · exact lo_mem hs
      · exact hi_mem hs
  cases rel with
  | instanceOf | notInstanceOf => cases hNoTest
  | ne =>
    obtain ⟨n, hn⟩ := isEmpty_eq_false_iff.mp hNot
    obtain ⟨hLeft, hRight⟩ := mem_meet.mp hn
    exact ⟨n, hLeft, n, hRight, fun h => h rfl⟩
  | eq =>
    refine hEnds ?_
    by_contra hAll
    simp only [List.mem_cons, List.not_mem_nil, or_false, exists_eq_or_imp, exists_eq_left,
      Relation.HoldsOfInts, not_or, not_not] at hAll
    obtain ⟨⟨hLoLo, hLoHi⟩, hHiLo, -⟩ := hAll
    rw [always, single?, single?, if_pos (hLoLo.trans hHiLo.symm), if_pos (hLoLo.symm.trans hLoHi),
      hLoLo] at hNot
    simp at hNot
  | _ =>
    refine hEnds ?_
    simp only [always, decide_eq_false_iff_not] at hNot
    simp only [List.mem_cons, List.not_mem_nil, or_false, exists_eq_or_imp, exists_eq_left,
      Relation.HoldsOfInts]
    omega

-- ---------------------------------------------------------------------------
-- What is decided
-- ---------------------------------------------------------------------------

/-- A comparison that is decided has that outcome. -/
theorem eq_true_of_decide? {b : Bool} (hDecide : decide? rel r s = some b) (hm : m ∈ r)
    (hn : n ∈ s) (h : rel.HoldsOfInts m n) : b = true := by
  unfold decide? at hDecide
  split at hDecide
  · cases hDecide
  · split at hDecide
    · cases hDecide
      rfl
    · split at hDecide
      · rename_i hNegated
        have hNot := not_holds_of_always hNegated hm hn
        rw [Relation.negated_negated] at hNot
        exact absurd h hNot
      · cases hDecide

/-- A comparison that is decided to hold of all pairs does not fail of one. -/
theorem not_holds_of_decide? (hDecide : decide? rel r s = some true) (hm : m ∈ r) (hn : n ∈ s) :
    ¬ rel.negated.HoldsOfInts m n := by
  unfold decide? at hDecide
  split at hDecide
  · cases hDecide
  · split at hDecide
    · rename_i hAlways
      exact not_holds_of_always hAlways hm hn
    · split at hDecide <;> cases hDecide

/-- A comparison that is decided to hold holds of all pairs. -/
theorem holds_of_decide? (hNoTest : rel.isTypeTest = false) (hDecide : decide? rel r s = some true)
    (hm : m ∈ r) (hn : n ∈ s) : rel.HoldsOfInts m n := by
  by_contra hFails
  exact not_holds_of_decide? hDecide hm hn (Relation.holds_negated_of_ints hNoTest hFails)

/-- **A comparison that is not decided** fails of some pair. -/
theorem exists_fails_of_open (hr : r.isEmpty = false) (hs : s.isEmpty = false)
    (hNoTest : rel.isTypeTest = false) (hOpen : decide? rel r s = none) :
    ∃ m ∈ r, ∃ n ∈ s, ¬ rel.HoldsOfInts m n := by
  refine exists_fails_of_not_always hr hs hNoTest (Bool.eq_false_iff.mpr fun hAlways => ?_)
  rw [decide?, hr, hs, Bool.or_false, if_neg Bool.false_ne_true, if_pos hAlways] at hOpen
  cases hOpen

/-- **A comparison that is not decided** holds of some pair. -/
theorem exists_related_of_open (hr : r.isEmpty = false) (hs : s.isEmpty = false)
    (hNoTest : rel.isTypeTest = false) (hOpen : decide? rel r s = none) :
    ∃ m ∈ r, ∃ n ∈ s, rel.HoldsOfInts m n := by
  unfold decide? at hOpen
  rw [hr, hs, Bool.or_false, if_neg Bool.false_ne_true] at hOpen
  split at hOpen
  · cases hOpen
  · split at hOpen
    · cases hOpen
    · rename_i hNot
      have hNoTest' : rel.negated.isTypeTest = false := by
        cases rel <;> first | rfl | cases hNoTest
      obtain ⟨m, hm, n, hn, hFails⟩ :=
        exists_fails_of_not_always hr hs hNoTest' (Bool.eq_false_iff.mpr hNot)
      have hHolds := Relation.holds_negated_of_ints hNoTest' hFails
      rw [Relation.negated_negated] at hHolds
      exact ⟨m, hm, n, hn, hHolds⟩

/-- **A comparison is decided exactly if it has one outcome.** It is decided to hold if it holds of
every pair of members, and to fail if it holds of none. It is left open if there are a pair of which
it holds and one of which it fails. -/
theorem decide?_exact (hr : r.isEmpty = false) (hs : s.isEmpty = false)
    (hNoTest : rel.isTypeTest = false) :
    (decide? rel r s = some true ↔ ∀ m ∈ r, ∀ n ∈ s, rel.HoldsOfInts m n) ∧
    (decide? rel r s = some false ↔ ∀ m ∈ r, ∀ n ∈ s, ¬ rel.HoldsOfInts m n) ∧
    (decide? rel r s = none ↔ (∃ m ∈ r, ∃ n ∈ s, rel.HoldsOfInts m n) ∧
      ∃ m ∈ r, ∃ n ∈ s, ¬ rel.HoldsOfInts m n) := by
  have hLeft := lo_mem hr
  have hRight := lo_mem hs
  cases hDecide : decide? rel r s with
  | none =>
    obtain ⟨m, hm, n, hn, hHolds⟩ := exists_related_of_open hr hs hNoTest hDecide
    obtain ⟨k, hk, l, hl, hFails⟩ := exists_fails_of_open hr hs hNoTest hDecide
    refine ⟨iff_of_false (by simp) fun hAll => hFails (hAll k hk l hl),
      iff_of_false (by simp) fun hNone => hNone m hm n hn hHolds, iff_of_true rfl ?_⟩
    exact ⟨⟨m, hm, n, hn, hHolds⟩, k, hk, l, hl, hFails⟩
  | some b =>
    cases b with
    | true =>
      have hAll : ∀ m ∈ r, ∀ n ∈ s, rel.HoldsOfInts m n := fun m hm n hn =>
        holds_of_decide? hNoTest hDecide hm hn
      refine ⟨iff_of_true rfl hAll, iff_of_false (by simp) fun hNone => ?_,
        iff_of_false (by simp) ?_⟩
      · exact hNone _ hLeft _ hRight (hAll _ hLeft _ hRight)
      · rintro ⟨-, m, hm, n, hn, hFails⟩
        exact hFails (hAll m hm n hn)
    | false =>
      have hNone : ∀ m ∈ r, ∀ n ∈ s, ¬ rel.HoldsOfInts m n := fun m hm n hn hHolds =>
        Bool.false_ne_true (eq_true_of_decide? hDecide hm hn hHolds)
      refine ⟨iff_of_false (by simp) fun hAll => ?_, iff_of_true rfl hNone,
        iff_of_false (by simp) ?_⟩
      · exact hNone _ hLeft _ hRight (hAll _ hLeft _ hRight)
      · rintro ⟨⟨m, hm, n, hn, hHolds⟩, -⟩
        exact hNone m hm n hn hHolds

/-- Ranges that touch: no member is greater than one of the other range, and one is not less. -/
theorem decide?_exact_touching :
    decide? .le (between 0 5) (between 5 9) = some true ∧
      decide? .gt (between 0 5) (between 5 9) = some false ∧
      decide? .lt (between 0 5) (between 5 9) = none := by
  have hr : (between 0 5).isEmpty = false := by decide
  have hs : (between 5 9).isEmpty = false := by decide
  have hOrdered : ∀ m ∈ between 0 5, ∀ n ∈ between 5 9, m ≤ n := by
    intro m hm n hn
    rw [mem_between] at hm hn
    omega
  refine ⟨(decide?_exact hr hs rfl).1.mpr hOrdered,
    (decide?_exact hr hs rfl).2.1.mpr fun m hm n hn => Int.not_lt.mpr (hOrdered m hm n hn),
    (decide?_exact hr hs rfl).2.2.mpr
      ⟨⟨0, by decide, 9, by decide, ?_⟩, 5, by decide, 5, by decide, ?_⟩⟩
  · exact (by decide : (0 : Int) < 9)
  · exact (by decide : ¬ (5 : Int) < 5)

-- ---------------------------------------------------------------------------
-- Images
-- ---------------------------------------------------------------------------

/-- **The image of a range** has every integer that is in relation to a member. -/
theorem mem_image (hm : m ∈ full) (hn : n ∈ r) (h : rel.HoldsOfInts m n) : m ∈ image rel r := by
  have hLong := mem_long hm
  have hLong' := mem_long hn
  have hn' := hn
  unfold image
  rw [isEmpty_eq_false hn, if_neg Bool.false_ne_true]
  rw [mem_def] at hn
  simp only [minLong, maxLong] at hLong hLong'
  cases rel with
  | eq => exact Eq.mpr (congrArg (· ∈ r) h) hn'
  | ne =>
    have hNe : m ≠ n := h
    dsimp only
    split
    · rename_i hSingle
      have hMin := eq_of_single? hSingle hn'
      simp only [mem_between, minLong, maxLong] at hMin ⊢
      omega
    · split
      · rename_i hSingle
        have hMax := eq_of_single? hSingle hn'
        simp only [mem_between, minLong, maxLong] at hMax ⊢
        omega
      · exact hm
  | instanceOf | notInstanceOf => exact h.elim
  | _ =>
    simp only [Relation.HoldsOfInts] at h
    simp only [mem_between, minLong, maxLong]
    omega

/-- **The integers that stray into an image.** No integer is below the least one of 64 bits, yet the
image of `<` keeps that one, and likewise at the other end. And a range cannot leave out an integer
between two others, as `≠` would. -/
def Strays (rel : Relation) (r : Range) (m : Int) : Prop :=
  match rel with
  | .lt => r = point minLong ∧ m = minLong
  | .gt => r = point maxLong ∧ m = maxLong
  | .ne => r = point m ∧ minLong < m ∧ m < maxLong
  | _ => False

theorem mem_image_of_strays (h : Strays rel r m) : m ∈ image rel r := by
  cases rel with
  | lt | gt =>
    obtain ⟨rfl, rfl⟩ := h
    decide
  | ne =>
    obtain ⟨rfl, hLeast, hGreatest⟩ := h
    have hFull : m ∈ full := mem_full (r := between minLong maxLong)
      (mem_between.mpr ⟨by omega, by omega⟩)
    have hPoint := mem_point hFull
    have hOnly : ∀ n, (point m).single? = some n → m = n := fun n hn => eq_of_single? hn hPoint
    unfold image
    rw [isEmpty_eq_false hPoint, if_neg Bool.false_ne_true]
    dsimp only
    rw [if_neg fun h => Int.ne_of_gt hLeast (hOnly _ h),
      if_neg fun h => Int.ne_of_lt hGreatest (hOnly _ h)]
    exact hFull
  | _ => exact h.elim

/-- **Whatever is in an image** is in relation to a member, or strays. For an order there is one end
of the range that an integer is in relation to if it is to any member. -/
theorem related_or_strays (hr : r.isEmpty = false) (hNoTest : rel.isTypeTest = false)
    (hm : m ∈ image rel r) : (∃ n ∈ r, rel.HoldsOfInts m n) ∨ Strays rel r m := by
  have hLo := lo_mem hr
  have hHi := hi_mem hr
  have hOrdered : r.lo ≤ r.hi := hLo.2
  have hLong := mem_long hLo
  have hLong' := mem_long hHi
  rw [or_iff_not_imp_left]
  intro hNone
  have hUnrelated : ∀ n ∈ r, ¬ rel.HoldsOfInts m n := fun n hn h => hNone ⟨n, hn, h⟩
  have hFirst := hUnrelated _ hLo
  have hLast := hUnrelated _ hHi
  unfold image at hm
  rw [hr, if_neg Bool.false_ne_true] at hm
  cases rel with
  | instanceOf | notInstanceOf => cases hNoTest
  | eq => exact absurd rfl (hUnrelated m hm)
  | lt =>
    simp only [mem_between] at hm
    simp only [Relation.HoldsOfInts] at hLast
    exact ⟨eq_point ⟨by omega, by omega⟩, by omega⟩
  | gt =>
    simp only [mem_between] at hm
    simp only [Relation.HoldsOfInts] at hFirst
    exact ⟨eq_point ⟨by omega, by omega⟩, by omega⟩
  | le | ge =>
    simp only [mem_between] at hm
    simp only [Relation.HoldsOfInts] at hFirst hLast
    omega
  | ne =>
    have hOnly : r.lo = m ∧ r.hi = m := ⟨(not_not.mp hFirst).symm, (not_not.mp hLast).symm⟩
    refine ⟨eq_point hOnly, ?_⟩
    -- only the extreme integers are taken off
    simp only [single?_eq_some_iff] at hm
    split at hm
    · rw [mem_between] at hm
      omega
    · split at hm
      · rw [mem_between] at hm
        omega
      · omega

/-- **The image of a range** under a comparison has exactly the integers that are in relation to a
member, and those that stray. -/
theorem image_exact (hr : r.isEmpty = false) (hNoTest : rel.isTypeTest = false) (hm : m ∈ full) :
    m ∈ image rel r ↔ (∃ n ∈ r, rel.HoldsOfInts m n) ∨ Strays rel r m := by
  constructor
  · exact related_or_strays hr hNoTest
  · rintro (⟨n, hn, h⟩ | hStrays)
    · exact mem_image hm hn h
    · exact mem_image_of_strays hStrays

/-- The least 64-bit integer is in the image of itself under `<`, and below nothing that is in it.
Of two integers the image has just what is below the greater one. -/
theorem image_exact_minLong :
    (minLong ∈ image .lt (point minLong) ∧ ¬ ∃ n ∈ point minLong, minLong < n) ∧
      minLong ∈ image .lt (between minLong 7) ∧ ¬ (7 : Int) ∈ image .lt (between minLong 7) := by
  have hPoint : (point minLong).isEmpty = false := by decide
  have hSome : (between minLong 7).isEmpty = false := by decide
  refine ⟨⟨(image_exact hPoint rfl (by decide)).mpr (Or.inr ⟨rfl, rfl⟩), ?_⟩,
    (image_exact hSome rfl (by decide)).mpr (Or.inl ⟨7, by decide, ?_⟩), ?_⟩
  · rintro ⟨n, hn, hLess⟩
    rw [(mem_point_iff (by decide)).mp hn] at hLess
    exact Int.lt_irrefl _ hLess
  · exact (by decide : minLong < 7)
  · rw [image_exact hSome rfl (by decide)]
    rintro (⟨n, hn, hLess⟩ | ⟨-, hLeast⟩)
    · exact Int.not_le.mpr hLess (mem_between.mp hn).1.2
    · exact absurd hLeast (by decide)

end Range

end Pathwise
