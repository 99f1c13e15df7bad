import Pathwise.Range.Basic

/-!
# Comparing ranges

Two questions about a comparison of integers of which only the ranges are known:
does it hold for all pairs, or for none (`Range.decide?`), and which integers can
stand on its left (`Range.image`)?
-/

namespace Pathwise.Range

/-- Whether a comparison holds of every pair of members. -/
def always (rel : Relation) (r s : Range) : Bool :=
  match rel with
  | .eq => r.single?.isSome && r.single? == s.single?
  | .ne => (r.meet s).isEmpty
  | .lt => decide (r.hi < s.lo)
  | .le => decide (r.hi ≤ s.lo)
  | .gt => decide (s.hi < r.lo)
  | .ge => decide (s.hi ≤ r.lo)
  | .instanceOf | .notInstanceOf => false

/-- The outcome of a comparison that is the same for every pair of members. -/
def decide? (rel : Relation) (r s : Range) : Option Bool :=
  if r.isEmpty || s.isEmpty then none
  else if always rel r s then some true
  else if always rel.negated r s then some false
  else none

/-- The integers in relation to some member of `r`. Against a range of several
integers `≠` excludes nothing. -/
def image (rel : Relation) (r : Range) : Range :=
  if r.isEmpty then empty
  else
    match rel with
    | .eq => r
    | .lt => between minLong (max (r.hi - 1) minLong)
    | .le => between minLong r.hi
    | .gt => between (min (r.lo + 1) maxLong) maxLong
    | .ge => between r.lo maxLong
    | .ne =>
      if r.single? = some minLong then between (minLong + 1) maxLong
      else if r.single? = some maxLong then between minLong (maxLong - 1)
      else full
    | .instanceOf | .notInstanceOf => full

end Pathwise.Range
