import Mathlib
import Pathwise.Proofs.Decisions
import Pathwise.Range.Arithmetic

/-!
# Arithmetic on ranges is exact up to overflow

The range of a sum, difference, product, quotient or negation runs from the least to the greatest
result that members of the operands have, as long as both fit the width. If one does not, the
machine wraps some results, and the range is the whole width. So it has what the machine computes in
any case.

Least and greatest results are looked for among a few only, the *ends*. That this is enough is clear
for sums, differences and negations. Products and quotients grow or shrink with each operand while
the other one is fixed, so that each of them lies between two corners. Quotients do so only as long
as the divisor keeps its sign. If it does not, it may be 1 and -1, and no quotient is further from
zero than the dividend is.

The ends are computed in 128 bits. None of them overflows there, as products of two 64-bit integers
do not.

## Results

* `exact_fitEnds`    — ranges from the ends of results.
* `corners_enclose`  — results between the corners.
* `exact_plus`, `exact_minus`, `exact_mul`, `exact_div`, `exact_negate` — the operations.
* `arithmetic_exact` — the operations are exact up to overflow, and have no result where there is none.
-/

namespace Pathwise

-- ---------------------------------------------------------------------------
-- Machine integers
-- ---------------------------------------------------------------------------

/-- The machine integer of a width that an integer wraps to. -/
def Width.wrap : Width → Int → Int
  | .int, n => n.bmod (2 ^ 32)
  | .long, n => n.bmod (2 ^ 64)

namespace Range

variable {w : Width} {r s t : Range} {m n x y : Int} {results : Set Int} {ends : List Int}
  {f : Int → Int → Int} {g : Int → Int}

theorem wrap_mem : w.wrap n ∈ ofWidth w := by
  cases w with
  | int =>
    have hLower := Int.le_bmod (x := n) (m := 2 ^ 32) (by decide)
    have hUpper := Int.bmod_lt (x := n) (m := 2 ^ 32) (by decide)
    refine mem_between.mpr ?_
    simp only [Width.wrap, minInt, maxInt, minLong, maxLong]
    omega
  | long =>
    have hLower := Int.le_bmod (x := n) (m := 2 ^ 64) (by decide)
    have hUpper := Int.bmod_lt (x := n) (m := 2 ^ 64) (by decide)
    refine mem_between.mpr ?_
    simp only [Width.wrap, minLong, maxLong]
    omega

/-- An integer that fits is not wrapped. -/
theorem wrap_of_mem (h : n ∈ ofWidth w) : w.wrap n = n := by
  cases w with
  | int =>
    have hFits := (mem_between.mp h).1
    simp only [minInt, maxInt] at hFits
    exact Int.bmod_eq_of_le (by omega) (by omega)
  | long =>
    have hFits := (mem_between.mp h).1
    simp only [minLong, maxLong] at hFits
    exact Int.bmod_eq_of_le (by omega) (by omega)

-- ---------------------------------------------------------------------------
-- Ranges of results
-- ---------------------------------------------------------------------------

/-- The members of a range. -/
def members (r : Range) : Set Int := {n | n ∈ r}

theorem members_eq_empty_iff : r.members = ∅ ↔ r = empty := by
  rw [← isEmpty_iff]
  constructor
  · intro h
    by_contra hSome
    have hMem : r.lo ∈ r.members := lo_mem (eq_false_of_ne_true hSome)
    rw [h] at hMem
    exact hMem
  · intro h
    rw [isEmpty_iff.mp h]
    exact Set.eq_empty_of_forall_notMem fun n => not_mem_empty

/-- **A range is exact for results**: it has none if there are none. It runs from the least to the
greatest one if both fit the width, and is the whole width if not. -/
inductive ExactFor (w : Width) (results : Set Int) (t : Range) : Prop where
  | none : results = ∅ → t = empty → ExactFor w results t
  | fits : IsLeast results t.lo → IsGreatest results t.hi → t.lo ∈ ofWidth w → t.hi ∈ ofWidth w →
      ExactFor w results t
  | overflows {lo hi : Int} : IsLeast results lo → IsGreatest results hi →
      ¬ (lo ∈ ofWidth w ∧ hi ∈ ofWidth w) → t = ofWidth w → ExactFor w results t

theorem ofWidth_isEmpty : (ofWidth w).isEmpty = false := by cases w <;> rfl

/-- A range that is exact has no members just if there are no results. -/
theorem ExactFor.eq_empty_iff (h : ExactFor w results t) : t = empty ↔ results = ∅ := by
  cases h with
  | none hNone hEmpty => exact iff_of_true hEmpty hNone
  | fits hLeast hGreatest _ _ =>
    refine iff_of_false ?_ (Set.nonempty_iff_ne_empty.mp ⟨_, hLeast.1⟩)
    rintro rfl
    exact absurd (hLeast.2 hGreatest.1) (by decide)
  | overflows hLeast _ _ hWhole =>
    refine iff_of_false ?_ (Set.nonempty_iff_ne_empty.mp ⟨_, hLeast.1⟩)
    intro hEmpty
    have hNone := isEmpty_iff.mpr hEmpty
    rw [hWhole, ofWidth_isEmpty] at hNone
    cases hNone

/-- **What the machine computes** is in a range that is exact. -/
theorem ExactFor.wrap_mem (h : ExactFor w results t) (hn : n ∈ results) : w.wrap n ∈ t := by
  cases h with
  | none hNone _ =>
    rw [hNone] at hn
    exact hn.elim
  | fits hLeast hGreatest hLower hUpper =>
    have hMem : n ∈ t := ⟨hLeast.2 hn, hGreatest.2 hn⟩
    have hFits : n ∈ ofWidth w := ⟨Int.le_trans hLower.1 hMem.1, Int.le_trans hMem.2 hUpper.2⟩
    rw [wrap_of_mem hFits]
    exact hMem
  | overflows _ _ _ hWhole =>
    rw [hWhole]
    exact Range.wrap_mem

/-- The range of the least to the greatest end, fitted to the width. -/
def fitEnds (w : Width) (ends : List Int) : Range :=
  match ends.min?, ends.max? with
  | some lo, some hi => fit w lo hi
  | _, _ => empty

/-- The results lie between ends, which are results. -/
structure Encloses (results : Set Int) (ends : List Int) : Prop where
  isResult : ∀ e ∈ ends, e ∈ results
  below    : ∀ n ∈ results, ∃ e ∈ ends, e ≤ n
  above    : ∀ n ∈ results, ∃ e ∈ ends, n ≤ e

theorem ends_between {lo hi : Int} (hOrdered : lo ≤ hi) (hLower : minLong ≤ lo) (hUpper : hi ≤ maxLong) :
    (between lo hi).lo = lo ∧ (between lo hi).hi = hi := by
  have hEnds : max lo minLong = lo ∧ min hi maxLong = hi := by omega
  unfold between
  rw [dif_pos (by rw [hEnds.1, hEnds.2]; exact hOrdered)]
  exact hEnds

theorem exact_fit {lo hi : Int} (hLeast : IsLeast results lo) (hGreatest : IsGreatest results hi) :
    ExactFor w results (fit w lo hi) := by
  have hOrdered : lo ≤ hi := hLeast.2 hGreatest.1
  unfold fit
  split
  · rename_i hOverflows
    refine .overflows hLeast hGreatest ?_ rfl
    rintro ⟨hLower, hUpper⟩
    exact hOverflows.elim (Int.not_lt.mpr hLower.1) (Int.not_lt.mpr hUpper.2)
  · rename_i hFits
    obtain ⟨hLower, hUpper⟩ := not_or.mp hFits
    have hLower : (ofWidth w).lo ≤ lo := Int.not_lt.mp hLower
    have hUpper : hi ≤ (ofWidth w).hi := Int.not_lt.mp hUpper
    have hLoFits : lo ∈ ofWidth w := ⟨hLower, Int.le_trans hOrdered hUpper⟩
    have hHiFits : hi ∈ ofWidth w := ⟨Int.le_trans hLower hOrdered, hUpper⟩
    obtain ⟨hLo, hHi⟩ := ends_between hOrdered (mem_long hLoFits).1 (mem_long hHiFits).2
    rw [← hLo] at hLeast hLoFits
    rw [← hHi] at hGreatest hHiFits
    exact .fits hLeast hGreatest hLoFits hHiFits

/-- **The range from the ends of results** is exact. -/
theorem exact_fitEnds (h : Encloses results ends) : ExactFor w results (fitEnds w ends) := by
  cases ends with
  | nil =>
    refine .none (Set.eq_empty_of_forall_notMem fun n hn => ?_) rfl
    obtain ⟨e, he, -⟩ := h.below n hn
    cases he
  | cons e es =>
    have hMin : (e :: es).min? = some (es.foldl min e) := List.min?_cons'
    have hMax : (e :: es).max? = some (es.foldl max e) := List.max?_cons'
    obtain ⟨hMinMem, hMinLe⟩ := List.min?_eq_some_iff.mp hMin
    obtain ⟨hMaxMem, hMaxGe⟩ := List.max?_eq_some_iff.mp hMax
    rw [fitEnds, hMin, hMax]
    refine exact_fit ⟨h.isResult _ hMinMem, fun n hn => ?_⟩ ⟨h.isResult _ hMaxMem, fun n hn => ?_⟩
    · obtain ⟨e', he, hBelow⟩ := h.below n hn
      exact Int.le_trans (hMinLe e' he) hBelow
    · obtain ⟨e', he, hAbove⟩ := h.above n hn
      exact Int.le_trans hAbove (hMaxGe e' he)

/-- **An operation is exact up to overflow**, and wide enough integers are used for its ends. -/
structure Exact (w : Width) (results : Set Int) (ends : List Int) (t : Range) : Prop where
  computed : t = fitEnds w ends
  exact    : ExactFor w results t
  wrapped  : ∀ n ∈ results, w.wrap n ∈ t
  wide     : ∀ e ∈ ends, -2 ^ 127 ≤ e ∧ e < 2 ^ 127

/-- An operation is exact if its results lie between ends that fit 128 bits. -/
theorem exact_of_encloses (hComputed : t = fitEnds w ends) (hEncloses : Encloses results ends)
    (hWide : ∀ n ∈ results, -2 ^ 127 ≤ n ∧ n < 2 ^ 127) : Exact w results ends t := by
  have hExact : ExactFor w results t := hComputed ▸ exact_fitEnds hEncloses
  exact ⟨hComputed, hExact, fun n hn => hExact.wrap_mem hn,
    fun e he => hWide e (hEncloses.isResult e he)⟩

-- ---------------------------------------------------------------------------
-- Corners
-- ---------------------------------------------------------------------------

/-- A function that only grows on a range, or only shrinks. -/
def Monotonic (g : Int → Int) (r : Range) : Prop :=
  MonotoneOn g r.members ∨ AntitoneOn g r.members

/-- The value at a member lies between those at the ends. -/
theorem Monotonic.between_ends (h : Monotonic g r) (hx : x ∈ r) :
    (g r.lo ≤ g x ∨ g r.hi ≤ g x) ∧ (g x ≤ g r.lo ∨ g x ≤ g r.hi) := by
  have hSome := isEmpty_eq_false hx
  have hLo : r.lo ∈ r.members := lo_mem hSome
  have hHi : r.hi ∈ r.members := hi_mem hSome
  rcases h with hGrows | hShrinks
  · exact ⟨Or.inl (hGrows hLo hx hx.1), Or.inr (hGrows hx hHi hx.2)⟩
  · exact ⟨Or.inr (hShrinks hx hHi hx.2), Or.inl (hShrinks hLo hx hx.1)⟩

/-- The values at the four pairs of ends. -/
def corners (f : Int → Int → Int) (r s : Range) : List Int :=
  [f r.lo s.lo, f r.lo s.hi, f r.hi s.lo, f r.hi s.hi]

/-- **Between the corners** lie all values of a function that grows or shrinks with each operand. -/
theorem corners_enclose (hr : r.isEmpty = false) (hs : s.isEmpty = false)
    (hLeft : ∀ y ∈ s, Monotonic (f · y) r) (hRight : ∀ x ∈ r, Monotonic (f x) s) :
    Encloses (Set.image2 f r.members s.members) (corners f r s) := by
  have hLoL := lo_mem hr
  have hHiL := hi_mem hr
  have hLoR := lo_mem hs
  have hHiR := hi_mem hs
  -- along an edge of the rectangle, values lie between the corners at its ends
  have hEdge : ∀ x ∈ [r.lo, r.hi], ∀ y ∈ s, (∃ e ∈ corners f r s, e ≤ f x y) ∧
      ∃ e ∈ corners f r s, f x y ≤ e := by
    intro x hx y hy
    have hMem : x ∈ r := by
      simp only [List.mem_cons, List.not_mem_nil, or_false] at hx
      rcases hx with rfl | rfl
      · exact hLoL
      · exact hHiL
    have hCorners : f x s.lo ∈ corners f r s ∧ f x s.hi ∈ corners f r s := by
      simp only [List.mem_cons, List.not_mem_nil, or_false] at hx
      rcases hx with rfl | rfl <;> simp [corners]
    obtain ⟨hBelow, hAbove⟩ := (hRight x hMem).between_ends hy
    refine ⟨?_, ?_⟩
    · exact hBelow.elim (⟨_, hCorners.1, ·⟩) (⟨_, hCorners.2, ·⟩)
    · exact hAbove.elim (⟨_, hCorners.1, ·⟩) (⟨_, hCorners.2, ·⟩)
  -- and each value lies between those on two edges
  have hAcross : ∀ x ∈ r, ∀ y ∈ s, (∃ e ∈ corners f r s, e ≤ f x y) ∧
      ∃ e ∈ corners f r s, f x y ≤ e := by
    intro x hx y hy
    obtain ⟨⟨e, he, hLow⟩, e', he', hHigh⟩ := hEdge r.lo (by simp) y hy
    obtain ⟨⟨d, hd, hLow'⟩, d', hd', hHigh'⟩ := hEdge r.hi (by simp) y hy
    obtain ⟨hBelow, hAbove⟩ := (hLeft y hy).between_ends hx
    refine ⟨?_, ?_⟩
    · rcases hBelow with hBelow | hBelow
      · exact ⟨e, he, Int.le_trans hLow hBelow⟩
      · exact ⟨d, hd, Int.le_trans hLow' hBelow⟩
    · rcases hAbove with hAbove | hAbove
      · exact ⟨e', he', Int.le_trans hAbove hHigh⟩
      · exact ⟨d', hd', Int.le_trans hAbove hHigh'⟩
  refine ⟨fun e he => ?_, ?_, ?_⟩
  · simp only [corners, List.mem_cons, List.not_mem_nil, or_false] at he
    rcases he with rfl | rfl | rfl | rfl
    · exact Set.mem_image2_of_mem hLoL hLoR
    · exact Set.mem_image2_of_mem hLoL hHiR
    · exact Set.mem_image2_of_mem hHiL hLoR
    · exact Set.mem_image2_of_mem hHiL hHiR
  · exact Set.forall_mem_image2.mpr fun x hx y hy => (hAcross x hx y hy).1
  · exact Set.forall_mem_image2.mpr fun x hx y hy => (hAcross x hx y hy).2

/-- The range around four results is that of them as ends. -/
theorem hull_eq {a b c d : Int} : hull w a b c d = fitEnds w [a, b, c, d] := by
  show fit w (min (min a b) (min c d)) (max (max a b) (max c d)) =
    fit w (min (min (min a b) c) d) (max (max (max a b) c) d)
  rw [min_assoc (min a b), max_assoc (max a b)]

-- ---------------------------------------------------------------------------
-- The operations
-- ---------------------------------------------------------------------------

/-- Ends, but none where an operand has no members. -/
def endsOf (r s : Range) (ends : List Int) : List Int := if r.isEmpty || s.isEmpty then [] else ends

/-- The ends of sums. -/
def sumEnds (r s : Range) : List Int := endsOf r s [r.lo + s.lo, r.hi + s.hi]

/-- The ends of differences. -/
def differenceEnds (r s : Range) : List Int := endsOf r s [r.lo - s.hi, r.hi - s.lo]

/-- The ends of products. -/
def productEnds (r s : Range) : List Int := endsOf r s (corners (· * ·) r s)

/-- The ends of quotients: those by -1 and 1 if the divisor may be either. -/
def quotientEnds (r s : Range) : List Int :=
  endsOf r (s.without 0)
    (if (s.without 0).contains 0 then [-r.magnitude, r.magnitude]
      else corners Int.tdiv r (s.without 0))

/-- The ends of negations. -/
def negationEnds (r : Range) : List Int := endsOf r r [-r.hi, -r.lo]

/-- An operation is exact if its results, where there are some, lie between ends that fit 128 bits. -/
theorem exact_of_endsOf (hNone : r = empty ∨ s = empty → results = ∅)
    (hComputed : t = if r.isEmpty || s.isEmpty then empty else fitEnds w ends)
    (hEncloses : r.isEmpty = false → s.isEmpty = false → Encloses results ends)
    (hWide : ∀ n ∈ results, -2 ^ 127 ≤ n ∧ n < 2 ^ 127) : Exact w results (endsOf r s ends) t := by
  unfold endsOf
  split at hComputed
  · rename_i hSome
    rw [if_pos hSome]
    rw [Bool.or_eq_true, isEmpty_iff, isEmpty_iff] at hSome
    refine exact_of_encloses hComputed ⟨nofun, ?_, ?_⟩ hWide <;> rw [hNone hSome] <;> exact nofun
  · rename_i hSome
    rw [if_neg hSome]
    rw [Bool.or_eq_true, not_or, Bool.not_eq_true, Bool.not_eq_true] at hSome
    exact exact_of_encloses hComputed (hEncloses hSome.1 hSome.2) hWide

theorem image2_eq_empty (h : r = empty ∨ s = empty) : Set.image2 f r.members s.members = ∅ :=
  Set.image2_eq_empty_iff.mpr (h.imp members_eq_empty_iff.mpr members_eq_empty_iff.mpr)

theorem fitEnds_pair {a b : Int} (h : a ≤ b) : fitEnds w [a, b] = fit w a b := by
  show fit w (min a b) (max a b) = fit w a b
  rw [min_eq_left h, max_eq_right h]

/-- The least and the greatest result enclose all. -/
theorem encloses_pair {a b : Int} (hLeast : IsLeast results a) (hGreatest : IsGreatest results b) :
    Encloses results [a, b] := by
  refine ⟨?_, fun n hn => ⟨a, by simp, hLeast.2 hn⟩, fun n hn => ⟨b, by simp, hGreatest.2 hn⟩⟩
  simp only [List.mem_cons, List.not_mem_nil, or_false]
  rintro e (rfl | rfl)
  · exact hLeast.1
  · exact hGreatest.1

/-- An operation is exact if its least and greatest result are known where there are some. -/
theorem exact_of_pair {a b : Int} (hNone : r = empty ∨ s = empty → results = ∅)
    (hComputed : t = if r.isEmpty || s.isEmpty then empty else fit w a b)
    (hLeast : r.isEmpty = false → s.isEmpty = false → IsLeast results a ∧ IsGreatest results b)
    (hWide : ∀ n ∈ results, -2 ^ 127 ≤ n ∧ n < 2 ^ 127) : Exact w results (endsOf r s [a, b]) t := by
  refine exact_of_endsOf hNone ?_ (fun hr hs => ?_) hWide
  · rw [hComputed]
    split
    · rfl
    · rename_i hSome
      rw [Bool.or_eq_true, not_or, Bool.not_eq_true, Bool.not_eq_true] at hSome
      obtain ⟨hLeast, hGreatest⟩ := hLeast hSome.1 hSome.2
      exact (fitEnds_pair (hLeast.2 hGreatest.1)).symm
  · exact encloses_pair (hLeast hr hs).1 (hLeast hr hs).2

/-- **Sums** are exact up to overflow. -/
theorem exact_plus :
    Exact w (Set.image2 (· + ·) r.members s.members) (sumEnds r s) (r.plus w s) := by
  refine exact_of_pair image2_eq_empty rfl (fun hr hs => ⟨⟨?_, ?_⟩, ?_, ?_⟩) ?_
  · exact Set.mem_image2_of_mem (lo_mem hr) (lo_mem hs)
  · exact Set.forall_mem_image2.mpr fun x hx y hy => Int.add_le_add hx.1 hy.1
  · exact Set.mem_image2_of_mem (hi_mem hr) (hi_mem hs)
  · exact Set.forall_mem_image2.mpr fun x hx y hy => Int.add_le_add hx.2 hy.2
  · refine Set.forall_mem_image2.mpr fun x hx y hy => ?_
    have hx := mem_long hx
    have hy := mem_long hy
    simp only [minLong, maxLong] at hx hy
    omega

/-- **Differences** are exact up to overflow. -/
theorem exact_minus :
    Exact w (Set.image2 (· - ·) r.members s.members) (differenceEnds r s) (r.minus w s) := by
  refine exact_of_pair image2_eq_empty rfl (fun hr hs => ⟨⟨?_, ?_⟩, ?_, ?_⟩) ?_
  · exact Set.mem_image2_of_mem (lo_mem hr) (hi_mem hs)
  · exact Set.forall_mem_image2.mpr fun x hx y hy => Int.sub_le_sub hx.1 hy.2
  · exact Set.mem_image2_of_mem (hi_mem hr) (lo_mem hs)
  · exact Set.forall_mem_image2.mpr fun x hx y hy => Int.sub_le_sub hx.2 hy.1
  · refine Set.forall_mem_image2.mpr fun x hx y hy => ?_
    have hx := mem_long hx
    have hy := mem_long hy
    simp only [minLong, maxLong] at hx hy
    omega

/-- **Negations** are exact up to overflow. -/
theorem exact_negate :
    Exact w ((fun x => -x) '' r.members) (negationEnds r) (r.negate w) := by
  refine exact_of_pair ?_ ?_ (fun hr _ => ⟨⟨?_, ?_⟩, ?_, ?_⟩) ?_
  · intro hNone
    rw [members_eq_empty_iff.mpr (or_self_iff.mp hNone), Set.image_empty]
  · rw [Bool.or_self]
    rfl
  · exact Set.mem_image_of_mem _ (hi_mem hr)
  · exact Set.forall_mem_image.mpr fun x hx => Int.neg_le_neg hx.2
  · exact Set.mem_image_of_mem _ (lo_mem hr)
  · exact Set.forall_mem_image.mpr fun x hx => Int.neg_le_neg hx.1
  · refine Set.forall_mem_image.mpr fun x hx => ?_
    have hx := mem_long hx
    simp only [minLong, maxLong] at hx
    omega

-- ---------------------------------------------------------------------------
-- Products
-- ---------------------------------------------------------------------------

theorem natAbs_le (h : n ∈ r) : n.natAbs ≤ 2 ^ 63 := by
  have hLong := mem_long h
  simp only [minLong, maxLong] at hLong
  omega

/-- Products grow or shrink with an operand as the sign of the other one tells. -/
theorem monotonic_mul : Monotonic (fun x => x * y) r := by
  rcases Int.le_total 0 y with hy | hy
  · exact Or.inl fun x _ x' _ h => Int.mul_le_mul_of_nonneg_right h hy
  · exact Or.inr fun x _ x' _ h => Int.mul_le_mul_of_nonpos_right h hy

/-- **Products** are exact up to overflow. -/
theorem exact_mul :
    Exact w (Set.image2 (· * ·) r.members s.members) (productEnds r s) (r.mul w s) := by
  refine exact_of_endsOf image2_eq_empty ?_ (fun hr hs => ?_) ?_
  · rw [corners, ← hull_eq]
    rfl
  · refine corners_enclose hr hs (fun y _ => monotonic_mul) fun x _ => ?_
    simp only [Int.mul_comm x]
    exact monotonic_mul
  · refine Set.forall_mem_image2.mpr fun x hx y hy => ?_
    have hProduct : (x * y).natAbs ≤ 2 ^ 63 * 2 ^ 63 := by
      rw [Int.natAbs_mul]
      exact Nat.mul_le_mul (natAbs_le hx) (natAbs_le hy)
    omega

-- ---------------------------------------------------------------------------
-- Quotients
-- ---------------------------------------------------------------------------

/-- A greater divisor makes a smaller quotient, if neither is negative. -/
theorem tdiv_le_of_divisor_le {c d : Int} (hx : 0 ≤ x) (hc : 0 < c) (h : c ≤ d) :
    x.tdiv d ≤ x.tdiv c := by
  obtain ⟨n, rfl⟩ := Int.eq_ofNat_of_zero_le hx
  obtain ⟨k, rfl⟩ := Int.eq_ofNat_of_zero_le (Int.le_of_lt hc)
  obtain ⟨m, rfl⟩ := Int.eq_ofNat_of_zero_le (Int.le_trans (Int.le_of_lt hc) h)
  rw [← Int.ofNat_tdiv, ← Int.ofNat_tdiv, Int.ofNat_le]
  exact Nat.div_le_div_left (Int.ofNat_le.mp h) (Int.natCast_pos.mp hc)

/-- Quotients grow or shrink with the dividend as the sign of the divisor tells. -/
theorem monotonic_dividend (hy : y ≠ 0) : Monotonic (fun x => x.tdiv y) r := by
  rcases Int.lt_or_gt_of_ne hy with hy | hy
  · refine Or.inr fun x _ x' _ h => ?_
    have hFlipped := Int.tdiv_le_tdiv (Int.neg_pos_of_neg hy) h
    rw [Int.tdiv_neg, Int.tdiv_neg] at hFlipped
    exact Int.le_of_neg_le_neg hFlipped
  · exact Or.inl fun x _ x' _ h => Int.tdiv_le_tdiv hy h

/-- Quotients grow or shrink with a divisor that keeps its sign, as the sign of the dividend tells. -/
theorem monotonic_divisor (hs : ¬ (0 : Int) ∈ s) : Monotonic (fun y => x.tdiv y) s := by
  have hSign : (∀ y ∈ s, 0 < y) ∨ ∀ y ∈ s, y < 0 := by
    rw [mem_def] at hs
    by_cases hLower : 0 < s.lo
    · exact Or.inl fun y hy => Int.lt_of_lt_of_le hLower hy.1
    · exact Or.inr fun y hy => by
        rw [mem_def] at hy
        omega
  rcases hSign with hPositive | hNegative
  · rcases Int.le_total 0 x with hx | hx
    · exact Or.inr fun y hy y' _ h => tdiv_le_of_divisor_le hx (hPositive y hy) h
    · refine Or.inl fun y hy y' _ h => ?_
      have hFlipped := tdiv_le_of_divisor_le (Int.neg_nonneg_of_nonpos hx) (hPositive y hy) h
      rw [Int.neg_tdiv, Int.neg_tdiv] at hFlipped
      exact Int.le_of_neg_le_neg hFlipped
  · rcases Int.le_total 0 x with hx | hx
    · refine Or.inr fun y _ y' hy' h => ?_
      have hFlipped := tdiv_le_of_divisor_le hx (Int.neg_pos_of_neg (hNegative y' hy'))
        (Int.neg_le_neg h)
      rw [Int.tdiv_neg, Int.tdiv_neg] at hFlipped
      exact Int.le_of_neg_le_neg hFlipped
    · refine Or.inl fun y _ y' hy' h => ?_
      have hFlipped := tdiv_le_of_divisor_le (Int.neg_nonneg_of_nonpos hx)
        (Int.neg_pos_of_neg (hNegative y' hy')) (Int.neg_le_neg h)
      rw [Int.neg_tdiv, Int.neg_tdiv, Int.tdiv_neg, Int.tdiv_neg, Int.neg_neg, Int.neg_neg] at hFlipped
      exact hFlipped

theorem contains_iff : r.contains n = true ↔ n ∈ r := decide_eq_true_iff

/-- Without zero a range has the divisors only, if zero can be taken off. -/
theorem members_without (h : ¬ (0 : Int) ∈ s.without 0) : (s.without 0).members = s.members \ {0} := by
  refine Set.ext fun y => ⟨fun hy => ⟨mem_of_mem_without hy, ?_⟩, fun hy => mem_without hy.1 hy.2⟩
  rintro rfl
  exact h hy

/-- If zero cannot be taken off, the numbers next to it are divisors. -/
theorem units_mem_of_without (h : (0 : Int) ∈ s.without 0) :
    (1 : Int) ∈ s.members \ {0} ∧ (-1 : Int) ∈ s.members \ {0} := by
  have hInside : s.lo < 0 ∧ 0 < s.hi := by
    unfold without at h
    split at h
    · exact absurd h not_mem_empty
    · split at h
      · rw [mem_between] at h
        omega
      · split at h
        · rw [mem_between] at h
          omega
        · rw [mem_def] at h
          omega
  have hMem : ∀ y : Int, y = 1 ∨ y = -1 → y ∈ s := by
    intro y hy
    rw [mem_def]
    omega
  exact ⟨⟨hMem 1 (Or.inl rfl), by decide⟩, hMem (-1) (Or.inr rfl), by decide⟩

/-- **By -1 and 1** the quotients are the furthest from zero. -/
theorem quotients_of_units (hr : r.isEmpty = false) (h : (0 : Int) ∈ s.without 0) :
    IsLeast (Set.image2 Int.tdiv r.members (s.members \ {0})) (-r.magnitude) ∧
      IsGreatest (Set.image2 Int.tdiv r.members (s.members \ {0})) r.magnitude := by
  obtain ⟨hOne, hMinusOne⟩ := units_mem_of_without h
  -- the end that is the further from zero, with both signs
  have hEnd : ∃ x ∈ r, r.magnitude = x ∨ r.magnitude = -x := by
    by_cases hMax : r.lo.natAbs ≤ r.hi.natAbs
    · exact ⟨r.hi, hi_mem hr, by rw [magnitude]; omega⟩
    · exact ⟨r.lo, lo_mem hr, by rw [magnitude]; omega⟩
  obtain ⟨x, hx, hMagnitude⟩ := hEnd
  have hUnits : x.tdiv 1 = x ∧ x.tdiv (-1) = -x := by
    rw [Int.tdiv_neg, Int.tdiv_one]
    exact ⟨rfl, rfl⟩
  have hMember : x ∈ r.members := hx
  have hFirst := Set.mem_image2_of_mem (f := Int.tdiv) hMember hOne
  have hSecond := Set.mem_image2_of_mem (f := Int.tdiv) hMember hMinusOne
  rw [hUnits.1] at hFirst
  rw [hUnits.2] at hSecond
  have hBound : ∀ n ∈ Set.image2 Int.tdiv r.members (s.members \ {0}),
      -r.magnitude ≤ n ∧ n ≤ r.magnitude := by
    refine Set.forall_mem_image2.mpr fun x hx y _ => ?_
    have hSmaller := Int.natAbs_tdiv_le_natAbs x y
    have hx : r.lo ≤ x ∧ x ≤ r.hi := hx
    rw [magnitude]
    omega
  refine ⟨⟨?_, fun n hn => (hBound n hn).1⟩, ?_, fun n hn => (hBound n hn).2⟩
  · rcases hMagnitude with hSame | hSame
    · rw [hSame]
      exact hSecond
    · rw [hSame, Int.neg_neg]
      exact hFirst
  · rcases hMagnitude with hSame | hSame
    · rw [hSame]
      exact hFirst
    · rw [hSame]
      exact hSecond

/-- **Quotients** by the divisors other than zero are exact up to overflow. -/
theorem exact_div : Exact w (Set.image2 Int.tdiv r.members (s.members \ {0})) (quotientEnds r s)
    (r.div w s) := by
  refine exact_of_endsOf ?_ ?_ (fun hr hs => ?_) ?_
  · rintro (rfl | hNone)
    · rw [members_eq_empty_iff.mpr rfl, Set.image2_empty_left]
    · have hNotMem : ¬ (0 : Int) ∈ s.without 0 := by
        rw [hNone]
        exact not_mem_empty
      rw [← members_without hNotMem, members_eq_empty_iff.mpr hNone, Set.image2_empty_right]
  · unfold div
    dsimp only
    split
    · rfl
    · rename_i hSome
      rw [Bool.or_eq_true, not_or, Bool.not_eq_true] at hSome
      split
      · rename_i hCrosses
        obtain ⟨hLeast, hGreatest⟩ := quotients_of_units hSome.1 (contains_iff.mp hCrosses)
        exact (fitEnds_pair (hLeast.2 hGreatest.1)).symm
      · exact hull_eq
  · split
    · rename_i hCrosses
      obtain ⟨hLeast, hGreatest⟩ := quotients_of_units hr (contains_iff.mp hCrosses)
      exact encloses_pair hLeast hGreatest
    · rename_i hApart
      have hApart : ¬ (0 : Int) ∈ s.without 0 := fun h => hApart (contains_iff.mpr h)
      rw [← members_without hApart]
      refine corners_enclose hr hs (fun y hy => monotonic_dividend ?_) fun x _ =>
        monotonic_divisor hApart
      rintro rfl
      exact hApart hy
  · refine Set.forall_mem_image2.mpr fun x hx y _ => ?_
    have hQuotient := Nat.le_trans (Int.natAbs_tdiv_le_natAbs x y) (natAbs_le hx)
    omega

/-- There are divisors other than zero, unless zero is the only one or there is none. -/
theorem divisors_eq_empty_iff : s.members \ {0} = ∅ ↔ s = empty ∨ s = point 0 := by
  have hZero : ∀ n, n ∈ point 0 ↔ n = 0 := fun n => mem_point_iff (by decide)
  constructor
  · intro h
    by_cases hNone : s.isEmpty = true
    · exact Or.inl (isEmpty_iff.mp hNone)
    · have hOnly : ∀ n ∈ s, n = 0 := fun n hn => by_contra fun hNe => by
        have hMem : n ∈ s.members \ {0} := ⟨hn, hNe⟩
        rw [h] at hMem
        exact hMem
      have hLo := lo_mem (eq_false_of_ne_true hNone)
      refine Or.inr (ext_mem fun n => ?_)
      rw [hZero]
      refine ⟨hOnly n, ?_⟩
      rintro rfl
      rw [← hOnly _ hLo]
      exact hLo
  · rintro (rfl | rfl)
    · rw [members_eq_empty_iff.mpr rfl, Set.empty_sdiff]
    · refine Set.eq_empty_of_forall_notMem fun n hn => hn.2 ?_
      exact (hZero n).mp hn.1

/-- **Arithmetic on ranges is exact up to overflow.** The ranges of sums, differences, products,
quotients and negations run from the least to the greatest result if the width has room for both,
and are the whole width if not. So they have what the machine computes. There is none just if an
operand has no members, or no divisor but zero. What is computed on the way fits 128 bits. -/
theorem arithmetic_exact (w : Width) (r s : Range) :
    (Exact w (Set.image2 (· + ·) r.members s.members) (sumEnds r s) (r.plus w s) ∧
      (r.plus w s = empty ↔ r = empty ∨ s = empty)) ∧
    (Exact w (Set.image2 (· - ·) r.members s.members) (differenceEnds r s) (r.minus w s) ∧
      (r.minus w s = empty ↔ r = empty ∨ s = empty)) ∧
    (Exact w (Set.image2 (· * ·) r.members s.members) (productEnds r s) (r.mul w s) ∧
      (r.mul w s = empty ↔ r = empty ∨ s = empty)) ∧
    (Exact w (Set.image2 Int.tdiv r.members (s.members \ {0})) (quotientEnds r s) (r.div w s) ∧
      (r.div w s = empty ↔ r = empty ∨ s = empty ∨ s = point 0)) ∧
    Exact w ((fun x => -x) '' r.members) (negationEnds r) (r.negate w) ∧
      (r.negate w = empty ↔ r = empty) := by
  have hOperands : ∀ f : Int → Int → Int,
      Set.image2 f r.members s.members = ∅ ↔ r = empty ∨ s = empty := by
    intro f
    rw [Set.image2_eq_empty_iff, members_eq_empty_iff, members_eq_empty_iff]
  refine ⟨⟨exact_plus, ?_⟩, ⟨exact_minus, ?_⟩, ⟨exact_mul, ?_⟩, ⟨exact_div, ?_⟩, exact_negate, ?_⟩
  · rw [exact_plus.exact.eq_empty_iff, hOperands]
  · rw [exact_minus.exact.eq_empty_iff, hOperands]
  · rw [exact_mul.exact.eq_empty_iff, hOperands]
  · rw [exact_div.exact.eq_empty_iff, Set.image2_eq_empty_iff, members_eq_empty_iff,
      divisors_eq_empty_iff]
  · rw [exact_negate.exact.eq_empty_iff, Set.image_eq_empty, members_eq_empty_iff]

/-- The least integer of a width has no negation there, and is its own quotient by -1. -/
example : (point minInt).negate .int = ofWidth .int ∧ (point minLong).div .long (point (-1)) =
    ofWidth .long ∧ Width.long.wrap (minLong.tdiv (-1)) = minLong := by
  decide +kernel

end Range

end Pathwise
