import Pathwise.Proofs.Arithmetic

/-!
# Remainders

The remainder of truncated division has the sign of the dividend and is nearer to zero than the
divisor. More is not used of ranges, unless both operands are known: remainders lie between zero
and the greatest magnitude of a divisor less one, below zero if a dividend is negative and above
zero if one is positive. So a range of remainders may have more members than there are
remainders, but each of them has a dividend of its sign and a divisor further from zero.

What is computed on the way is not always a 64-bit integer. The least one, -2 ^ 63, has a
magnitude that is no 64-bit integer with a sign, and no quotient by -1 either, for which a
machine of that width refuses the remainder. `Range.checkedRem?` computes in 128 bits and stops
at the first integer that overflows; it never does.

## Results

* `wrap_mem_fit`        — what the machine computes of an integer between two bounds.
* `wrap_tmod_mem_rem`   — the remainders are in their range.
* `exists_of_mem_rem`   — a member of the range has a dividend of its sign and a divisor beyond it.
* `checkedRem?_eq`      — no integer overflows.
* `remainders_enclosed` — all of it.
-/

namespace Pathwise.Range

variable {w : Width} {r s : Range} {a b lo hi m n x y : Int}

-- ---------------------------------------------------------------------------
-- Ranges fitted to a width
-- ---------------------------------------------------------------------------

/-- **What the machine computes** of an integer between two bounds is in the range of the bounds
that is fitted to the width. -/
theorem wrap_mem_fit (hLower : lo ≤ n) (hUpper : n ≤ hi) : w.wrap n ∈ fit w lo hi := by
  unfold fit
  split
  · exact wrap_mem
  · rename_i hFits
    obtain ⟨hLo, hHi⟩ := not_or.mp hFits
    have hMem : n ∈ ofWidth w :=
      ⟨Int.le_trans (Int.not_lt.mp hLo) hLower, Int.le_trans hUpper (Int.not_lt.mp hHi)⟩
    rw [wrap_of_mem hMem]
    exact mem_between.mpr ⟨⟨hLower, hUpper⟩, mem_long hMem⟩

/-- Bounds that fit the width stay as they are. -/
theorem mem_fit (hLo : lo ∈ ofWidth w) (hHi : hi ∈ ofWidth w) :
    n ∈ fit w lo hi ↔ lo ≤ n ∧ n ≤ hi := by
  have hLo' := mem_long hLo
  have hHi' := mem_long hHi
  rw [mem_def] at hLo hHi
  rw [fit, if_neg (by omega), mem_between]
  omega

/-- The integers of a width are the same distance below and above zero, but for one. -/
theorem ofWidth_mem (hy : y ∈ ofWidth w) (hn : n.natAbs < y.natAbs) : n ∈ ofWidth w := by
  cases w with
  | int =>
    have hBounds := (mem_between.mp hy).1
    refine mem_between.mpr ?_
    simp only [minInt, maxInt, minLong, maxLong] at hBounds ⊢
    omega
  | long =>
    have hBounds := (mem_between.mp hy).1
    refine mem_between.mpr ?_
    simp only [minLong, maxLong] at hBounds ⊢
    omega

-- ---------------------------------------------------------------------------
-- One remainder
-- ---------------------------------------------------------------------------

/-- A remainder is nearer to zero than the divisor. -/
theorem natAbs_tmod_lt (hy : y ≠ 0) : (x.tmod y).natAbs < y.natAbs := by
  rw [Int.natAbs_tmod]
  exact Nat.mod_lt _ (Int.natAbs_pos.mpr hy)

/-- A remainder has the sign of the dividend, or is zero. -/
theorem tmod_sign : (0 ≤ x → 0 ≤ x.tmod y) ∧ (x ≤ 0 → x.tmod y ≤ 0) := by
  refine ⟨Int.tmod_nonneg y, fun hx => ?_⟩
  have hFlipped := Int.tmod_nonneg y (Int.neg_nonneg_of_nonpos hx)
  rw [Int.neg_tmod] at hFlipped
  omega

-- ---------------------------------------------------------------------------
-- Magnitudes
-- ---------------------------------------------------------------------------

theorem natAbs_le_magnitude (hy : y ∈ s) : (y.natAbs : Int) ≤ s.magnitude := by
  rw [mem_def] at hy
  rw [magnitude]
  omega

/-- The magnitude of a range is that of an end. -/
theorem exists_magnitude (hs : s.isEmpty = false) : ∃ y ∈ s, s.magnitude = y.natAbs := by
  by_cases hMax : s.lo.natAbs ≤ s.hi.natAbs
  · exact ⟨s.hi, hi_mem hs, by rw [magnitude]; omega⟩
  · exact ⟨s.lo, lo_mem hs, by rw [magnitude]; omega⟩

-- ---------------------------------------------------------------------------
-- Ranges of remainders
-- ---------------------------------------------------------------------------

/-- How remainders are computed where both operands have members: of two integers that are known
exactly, and else from the greatest magnitude of a divisor. -/
theorem rem_cases (hr : r.isEmpty = false) (hs : s.isEmpty = false) :
    (∃ a b, r.single? = some a ∧ s.single? = some b ∧
      r.rem w s = if b = 0 then empty else fit w (a.tmod b) (a.tmod b)) ∨
    r.rem w s = if s.magnitude = 0 then empty
      else fit w (if r.lo < 0 then -(s.magnitude - 1) else 0)
        (if 0 < r.hi then s.magnitude - 1 else 0) := by
  unfold rem
  rw [hr, hs, Bool.or_false, if_neg Bool.false_ne_true]
  split
  · rename_i a b ha hb
    exact Or.inl ⟨a, b, ha, hb, rfl⟩
  · exact Or.inr rfl

/-- **The remainders** that the machine computes are in their range. -/
theorem wrap_tmod_mem_rem (hx : x ∈ r) (hy : y ∈ s) (hZero : y ≠ 0) :
    w.wrap (x.tmod y) ∈ r.rem w s := by
  rcases rem_cases (w := w) (isEmpty_eq_false hx) (isEmpty_eq_false hy) with
    ⟨a, b, ha, hb, hRem⟩ | hRem
  · have hxa : x = a := eq_of_single? ha hx
    have hyb : y = b := eq_of_single? hb hy
    subst hxa hyb
    rw [hRem, if_neg hZero]
    exact wrap_mem_fit (Int.le_refl _) (Int.le_refl _)
  · have hNear := natAbs_tmod_lt (x := x) hZero
    have hMagnitude := natAbs_le_magnitude hy
    obtain ⟨hPositive, hNegative⟩ := tmod_sign (x := x) (y := y)
    rw [mem_def] at hx
    rw [hRem, if_neg (by omega)]
    refine wrap_mem_fit ?_ ?_
    · split <;> omega
    · split <;> omega

/-- **A member of the range** has a dividend of its sign and a divisor further from zero, if the
divisors are integers of the width. -/
theorem exists_of_mem_rem (hWidth : ∀ y ∈ s, y ∈ ofWidth w) (hn : n ∈ r.rem w s) :
    ∃ x ∈ r, ∃ y ∈ s, n.natAbs < y.natAbs ∧ (n < 0 → x < 0) ∧ (0 < n → 0 < x) := by
  have hNone : r.isEmpty = false ∧ s.isEmpty = false := by
    unfold rem at hn
    split at hn
    · exact absurd hn not_mem_empty
    · rename_i hSome
      rwa [Bool.or_eq_true, not_or, Bool.not_eq_true, Bool.not_eq_true] at hSome
  obtain ⟨hr, hs⟩ := hNone
  rcases rem_cases (w := w) hr hs with ⟨a, b, ha, hb, hRem⟩ | hRem
  · rw [hRem] at hn
    split at hn
    · exact absurd hn not_mem_empty
    · rename_i hZero
      have haMem : a ∈ r := eq_of_single? ha (lo_mem hr) ▸ lo_mem hr
      have hbMem : b ∈ s := eq_of_single? hb (lo_mem hs) ▸ lo_mem hs
      have hNear := natAbs_tmod_lt (x := a) hZero
      have hFits := ofWidth_mem (hWidth b hbMem) hNear
      have hOnly := (mem_fit hFits hFits).mp hn
      obtain ⟨hPositive, hNegative⟩ := tmod_sign (x := a) (y := b)
      exact ⟨a, haMem, b, hbMem, by omega, by omega, by omega⟩
  · rw [hRem] at hn
    split at hn
    · exact absurd hn not_mem_empty
    · rename_i hZero
      obtain ⟨y, hy, hMagnitude⟩ := exists_magnitude hs
      have hFits : ∀ m : Int, m.natAbs < y.natAbs → m ∈ ofWidth w := fun m hm =>
        ofWidth_mem (hWidth y hy) hm
      rw [mem_fit (hFits _ (by split <;> omega)) (hFits _ (by split <;> omega))] at hn
      obtain ⟨hLower, hUpper⟩ := hn
      by_cases hNegative : n < 0
      · refine ⟨r.lo, lo_mem hr, y, hy, ?_⟩
        split at hLower
        · split at hUpper <;> omega
        · omega
      · refine ⟨r.hi, hi_mem hr, y, hy, ?_⟩
        split at hUpper
        · omega
        · omega

/-- There are remainders unless there is no dividend, or no divisor but zero. -/
theorem rem_eq_empty_iff : r.rem w s = empty ↔ r = empty ∨ s = empty ∨ s = point 0 := by
  constructor
  · intro hEmpty
    by_contra hSome
    obtain ⟨hr, hs⟩ := not_or.mp hSome
    have hDividends : r.isEmpty = false :=
      eq_false_of_ne_true fun h => hr (isEmpty_iff.mp h)
    obtain ⟨y, hy, hZero⟩ := Set.nonempty_iff_ne_empty.mpr (mt divisors_eq_empty_iff.mp hs)
    have hMem := wrap_tmod_mem_rem (w := w) (lo_mem hDividends) hy hZero
    rw [hEmpty] at hMem
    exact not_mem_empty hMem
  · rintro (rfl | rfl | rfl)
    · rfl
    · rw [rem, show empty.isEmpty = true from rfl, Bool.or_true, if_pos rfl]
    · by_cases hr : r.isEmpty = true
      · rw [rem, hr, Bool.true_or, if_pos rfl]
      · rcases rem_cases (w := w) (s := point 0) (eq_false_of_ne_true hr) rfl with
          ⟨a, b, -, hb, hRem⟩ | hRem
        · have hZero : b = 0 := (Option.some.inj hb).symm
          rw [hRem, if_pos hZero]
        · rw [hRem, if_pos (by decide)]

-- ---------------------------------------------------------------------------
-- Machine integers on the way
-- ---------------------------------------------------------------------------

/-- An integer that a machine integer of 128 bits can be. -/
def wide? (n : Int) : Option Int := if -2 ^ 127 ≤ n ∧ n < 2 ^ 127 then some n else none

/-- The magnitude of an integer, if a machine integer of 64 bits without a sign can be it. -/
def unsigned? (n : Int) : Option Int := if n.natAbs < 2 ^ 64 then some n.natAbs else none

/-- The remainder of two integers. The machine has none where it cannot have the quotient. -/
def wideTmod? (a b : Int) : Option Int := (wide? (a.tdiv b)).bind fun _ => wide? (a.tmod b)

/-- The range of the remainder of two integers that are known, as it is computed. -/
def checkedPoint? (w : Width) (a b : Int) : Option Range :=
  if b = 0 then some empty else (wideTmod? a b).map fun n => fit w n n

/-- The range of remainders from the greatest magnitude of a divisor, as it is computed. -/
def checkedBounds? (w : Width) (r s : Range) : Option Range := do
  let modulus ← wide? (max (← unsigned? s.lo) (← unsigned? s.hi))
  if modulus = 0 then some empty
  else
    let lo ← if r.lo < 0 then (wide? (modulus - 1)).bind fun n => wide? (-n) else some 0
    let hi ← if 0 < r.hi then wide? (modulus - 1) else some 0
    some (fit w lo hi)

/-- **The remainders as they are computed**, with a result if no integer on the way overflows. -/
def checkedRem? (w : Width) (r s : Range) : Option Range :=
  if r.isEmpty || s.isEmpty then some empty
  else
    match r.single?, s.single? with
    | some a, some b => checkedPoint? w a b
    | _, _ => checkedBounds? w r s

/-- Magnitudes of 64-bit integers and their negations fit 128 bits with a sign. -/
theorem wide?_of_natAbs_le (h : n.natAbs ≤ 2 ^ 63) : wide? n = some n := if_pos (by omega)

/-- The magnitude of a 64-bit integer fits 64 bits without a sign. -/
theorem unsigned?_of_natAbs_le (h : n.natAbs ≤ 2 ^ 63) : unsigned? n = some ↑n.natAbs :=
  if_pos (by omega)

/-- The ends of a range are 64-bit integers, even of one without members. -/
theorem natAbs_ends_le : s.lo.natAbs ≤ 2 ^ 63 ∧ s.hi.natAbs ≤ 2 ^ 63 := by
  have hLower := s.lo_ge
  have hUpper := s.hi_le
  have hOrdered := s.ordered
  simp only [minLong, maxLong] at hLower hUpper
  omega

theorem checkedPoint?_eq (ha : a ∈ r) (hb : b ∈ s) :
    checkedPoint? w a b = some (if b = 0 then empty else fit w (a.tmod b) (a.tmod b)) := by
  unfold checkedPoint?
  split
  · rfl
  · rename_i hZero
    have hDivisor := natAbs_le hb
    have hQuotient := Nat.le_trans (Int.natAbs_tdiv_le_natAbs a b) (natAbs_le ha)
    have hNear := natAbs_tmod_lt (x := a) hZero
    rw [wideTmod?, wide?_of_natAbs_le hQuotient, Option.bind_some,
      wide?_of_natAbs_le (by omega), Option.map_some]

theorem checkedBounds?_eq : checkedBounds? w r s = some (if s.magnitude = 0 then empty
    else fit w (if r.lo < 0 then -(s.magnitude - 1) else 0)
      (if 0 < r.hi then s.magnitude - 1 else 0)) := by
  obtain ⟨hLo, hHi⟩ := natAbs_ends_le (s := s)
  have hMagnitude : s.magnitude.natAbs ≤ 2 ^ 63 ∧ 0 ≤ s.magnitude := by
    rw [magnitude]
    omega
  have hModulus : (max s.lo.natAbs s.hi.natAbs : Int) = s.magnitude := rfl
  unfold checkedBounds?
  simp only [unsigned?_of_natAbs_le hLo, unsigned?_of_natAbs_le hHi, Option.bind_eq_bind,
    Option.bind_some, hModulus, wide?_of_natAbs_le hMagnitude.1]
  split
  · rfl
  · have hLess := wide?_of_natAbs_le (n := s.magnitude - 1) (by omega)
    have hNegated := wide?_of_natAbs_le (n := -(s.magnitude - 1)) (by omega)
    rw [hLess, Option.bind_some, hNegated]
    split <;> split <;> rfl

/-- **No integer on the way overflows**, whatever the ranges of 64-bit integers are. -/
theorem checkedRem?_eq : checkedRem? w r s = some (r.rem w s) := by
  unfold checkedRem? rem
  split
  · rfl
  · cases ha : r.single? with
    | none => exact checkedBounds?_eq
    | some a =>
      cases hb : s.single? with
      | none => exact checkedBounds?_eq
      | some b => exact checkedPoint?_eq (mem_of_single? ha) (mem_of_single? hb)

/-- **Remainders.** What the machine computes of a dividend and a divisor other than zero is in the
range of remainders. There is no remainder just if there is no dividend, or no divisor but zero. No
integer on the way overflows. And if the divisors are integers of the width, whatever is in the
range of remainders has a dividend of its sign and a divisor further from zero. -/
theorem remainders_enclosed (w : Width) (r s : Range) :
    (∀ x ∈ r, ∀ y ∈ s, y ≠ 0 → w.wrap (x.tmod y) ∈ r.rem w s) ∧
    (r.rem w s = empty ↔ r = empty ∨ s = empty ∨ s = point 0) ∧
    checkedRem? w r s = some (r.rem w s) ∧
    ((∀ y ∈ s, y ∈ ofWidth w) → ∀ n ∈ r.rem w s,
      ∃ x ∈ r, ∃ y ∈ s, n.natAbs < y.natAbs ∧ (n < 0 → x < 0) ∧ (0 < n → 0 < x)) :=
  ⟨fun _ hx _ hy hZero => wrap_tmod_mem_rem hx hy hZero, rem_eq_empty_iff, checkedRem?_eq,
    fun hWidth _ hn => exists_of_mem_rem hWidth hn⟩

/-- The least 64-bit integer by -1, for which 64 bits have no quotient, and by itself. -/
theorem remainders_enclosed_minLong :
    Width.long.wrap (minLong.tmod (-1)) ∈ (point minLong).rem .long (between minLong (-1)) ∧
      checkedRem? .long (point minLong) (between minLong (-1)) =
        some (between (-maxLong) 0) ∧
      ∃ x ∈ point minLong, ∃ y ∈ between minLong (-1), (-maxLong).natAbs < y.natAbs ∧ x < 0 := by
  obtain ⟨hMem, -, hChecked, hPrecise⟩ :=
    remainders_enclosed .long (point minLong) (between minLong (-1))
  have hWidth : ∀ y ∈ between minLong (-1), y ∈ ofWidth .long := fun y hy => mem_full hy
  obtain ⟨x, hx, y, hy, hNear, hNegative, -⟩ := hPrecise hWidth (-maxLong) (by decide)
  refine ⟨hMem minLong (by decide) (-1) (by decide) (by decide), hChecked.trans ?_,
    x, hx, y, hy, hNear, hNegative (by decide)⟩
  decide +kernel

end Pathwise.Range
