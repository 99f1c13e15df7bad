import Pathwise.Relation

/-!
# Ranges of integers

A range is a closed interval of 64-bit integers, or empty. The empty range has
one representation, so two ranges with the same members are equal
(`Range.ext_mem`). Every range is built by `Range.between`, which keeps the
64-bit integers between two bounds.

## Results

* `Range.mem_between` — the members of `between lo hi`.
* `Range.mem_meet` — the meet is the intersection.
* `Range.ext_mem` — ranges with the same members are equal.
-/

namespace Pathwise

/-- The least 64-bit integer. -/
def minLong : Int := -9223372036854775808

/-- The greatest 64-bit integer. -/
def maxLong : Int := 9223372036854775807

/-- The least 32-bit integer. -/
def minInt : Int := -2147483648

/-- The greatest 32-bit integer. -/
def maxInt : Int := 2147483647

/-- The width of an integer type. -/
inductive Width where
  /-- 32 bits. -/
  | int
  /-- 64 bits. -/
  | long
  deriving DecidableEq, Repr, Inhabited

/-- A closed interval of 64-bit integers; the empty one runs from 1 to 0. -/
structure Range where
  /-- The lower bound. -/
  lo : Int
  /-- The upper bound. -/
  hi : Int
  ordered : lo ≤ hi ∨ lo = 1 ∧ hi = 0
  lo_ge : minLong ≤ lo
  hi_le : hi ≤ maxLong
  deriving DecidableEq

namespace Range

/-- The range without members. -/
def empty : Range := ⟨1, 0, by simp, by decide, by decide⟩

instance : Inhabited Range := ⟨empty⟩

/-- The 64-bit integers from `lo` to `hi`. -/
def between (lo hi : Int) : Range :=
  if h : max lo minLong ≤ min hi maxLong then
    ⟨max lo minLong, min hi maxLong, .inl h, Int.le_max_right .., Int.min_le_right ..⟩
  else empty

/-- The range of one integer. -/
def point (n : Int) : Range := between n n

/-- All integers of a width. -/
def ofWidth : Width → Range
  | .int => between minInt maxInt
  | .long => between minLong maxLong

/-- All 64-bit integers. -/
def full : Range := ofWidth .long

/-- The lengths and indices of arrays and strings. -/
def lengths : Range := between 0 maxInt

/-- Whether the range has no members. -/
def isEmpty (r : Range) : Bool := decide (r.hi < r.lo)

/-- Whether an integer is a member. -/
def contains (r : Range) (n : Int) : Bool := decide (r.lo ≤ n ∧ n ≤ r.hi)

instance : Membership Int Range := ⟨fun r n => r.lo ≤ n ∧ n ≤ r.hi⟩

instance (n : Int) (r : Range) : Decidable (n ∈ r) :=
  inferInstanceAs (Decidable (r.lo ≤ n ∧ n ≤ r.hi))

/-- The member of a range that has exactly one. -/
def single? (r : Range) : Option Int := if r.lo = r.hi then some r.lo else none

/-- Whether every member of `r` is one of `s`. -/
def isSubsetOf (r s : Range) : Bool := r.isEmpty || decide (s.lo ≤ r.lo ∧ r.hi ≤ s.hi)

/-- The common members of two ranges. -/
def meet (r s : Range) : Range := between (max r.lo s.lo) (min r.hi s.hi)

/-- The least range with the members of both. -/
def join (r s : Range) : Range :=
  if r.isEmpty then s
  else if s.isEmpty then r
  else between (min r.lo s.lo) (max r.hi s.hi)

/-- The least range with the members of `r` other than `n`: only an end can be taken off. -/
def without (r : Range) (n : Int) : Range :=
  if r.lo = n ∧ r.hi = n then empty
  else if r.lo = n then between (n + 1) r.hi
  else if r.hi = n then between r.lo (n - 1)
  else r

/-! ## Membership -/

theorem mem_def {n : Int} {r : Range} : n ∈ r ↔ r.lo ≤ n ∧ n ≤ r.hi := Iff.rfl

@[simp] theorem not_mem_empty {n : Int} : ¬ n ∈ empty := by
  simp only [mem_def, empty]
  omega

/-- The members of `between lo hi` are the 64-bit integers from `lo` to `hi`. -/
theorem mem_between {lo hi n : Int} :
    n ∈ between lo hi ↔ (lo ≤ n ∧ n ≤ hi) ∧ minLong ≤ n ∧ n ≤ maxLong := by
  unfold between
  split
  · simp only [mem_def]
    omega
  · simp only [not_mem_empty, false_iff]
    omega

theorem isEmpty_iff {r : Range} : r.isEmpty = true ↔ r = empty := by
  obtain ⟨lo, hi, ho, h₁, h₂⟩ := r
  simp only [isEmpty, empty, decide_eq_true_eq, mk.injEq]
  omega

theorem mem_long {r : Range} {n : Int} (h : n ∈ r) : minLong ≤ n ∧ n ≤ maxLong :=
  ⟨Int.le_trans r.lo_ge h.1, Int.le_trans h.2 r.hi_le⟩

theorem mem_full {r : Range} {n : Int} (h : n ∈ r) : n ∈ full :=
  mem_between.mpr ⟨mem_long h, mem_long h⟩

theorem mem_point {n : Int} (h : n ∈ full) : n ∈ point n :=
  mem_between.mpr ⟨⟨Int.le_refl _, Int.le_refl _⟩, mem_long h⟩

/-- A length is an index of 32 bits. -/
theorem mem_lengths {n : Int} : n ∈ lengths ↔ 0 ≤ n ∧ n ≤ maxInt := by
  rw [lengths, mem_between]
  simp only [maxInt, minLong, maxLong]
  omega

@[simp] theorem mem_meet {r s : Range} {n : Int} : n ∈ r.meet s ↔ n ∈ r ∧ n ∈ s := by
  rw [meet, mem_between]
  constructor
  · simp only [mem_def]
    omega
  · intro h
    have := mem_long h.1
    simp only [mem_def] at h
    omega

theorem isEmpty_eq_false {r : Range} {n : Int} (h : n ∈ r) : r.isEmpty = false := by
  rw [mem_def] at h
  simp only [isEmpty, decide_eq_false_iff_not]
  omega

theorem lo_mem {r : Range} (h : r.isEmpty = false) : r.lo ∈ r := by
  simp only [isEmpty, decide_eq_false_iff_not] at h
  simp only [mem_def]
  omega

theorem hi_mem {r : Range} (h : r.isEmpty = false) : r.hi ∈ r := by
  simp only [isEmpty, decide_eq_false_iff_not] at h
  simp only [mem_def]
  omega

/-- Two ranges with the same members are equal. -/
theorem ext_mem {r s : Range} (h : ∀ n, n ∈ r ↔ n ∈ s) : r = s := by
  have key : r.lo = s.lo ∧ r.hi = s.hi := by
    have ho := r.ordered
    have ho' := s.ordered
    have h₁ := h r.lo
    have h₂ := h r.hi
    have h₃ := h s.lo
    have h₄ := h s.hi
    simp only [mem_def] at h₁ h₂ h₃ h₄
    omega
  cases r
  cases s
  simp_all

/-! ## Text -/

/-- A bound as it is printed: the extreme 64-bit integers stand for infinity. -/
def boundText (n : Int) : String :=
  if n = minLong then "-∞" else if n = maxLong then "+∞" else toString n

/-- A range as it is printed: its only member in braces, or its bounds in brackets. -/
def text (r : Range) : String :=
  if r.isEmpty then "\x7b\x7d"
  else
    match r.single? with
    | some n => "\x7b" ++ toString n ++ "\x7d"
    | none => "[" ++ boundText r.lo ++ ", " ++ boundText r.hi ++ "]"

end Range

end Pathwise
