import Pathwise.Range.Basic

/-!
# Arithmetic on ranges

An operation on two ranges yields the least range around all results. Machine
arithmetic wraps, so a result that leaves the operand width yields every integer
of that width (`Range.fit`). Division and remainder truncate toward zero and
leave out a zero divisor: no member of the divisor other than zero, no result.
-/

namespace Pathwise.Range

/-- The range from `lo` to `hi` if it fits the width, and else the whole width. -/
def fit (w : Width) (lo hi : Int) : Range :=
  if lo < (ofWidth w).lo ∨ (ofWidth w).hi < hi then ofWidth w else between lo hi

/-- The least range around four results, fitted to the width. -/
def hull (w : Width) (a b c d : Int) : Range :=
  fit w (min (min a b) (min c d)) (max (max a b) (max c d))

/-- The greatest absolute value of an end. -/
def magnitude (r : Range) : Int := max r.lo.natAbs r.hi.natAbs

/-- All sums. -/
def plus (w : Width) (r s : Range) : Range :=
  if r.isEmpty || s.isEmpty then empty else fit w (r.lo + s.lo) (r.hi + s.hi)

/-- All differences. -/
def minus (w : Width) (r s : Range) : Range :=
  if r.isEmpty || s.isEmpty then empty else fit w (r.lo - s.hi) (r.hi - s.lo)

/-- All products. -/
def mul (w : Width) (r s : Range) : Range :=
  if r.isEmpty || s.isEmpty then empty
  else hull w (r.lo * s.lo) (r.lo * s.hi) (r.hi * s.lo) (r.hi * s.hi)

/-- All quotients, truncated toward zero. A divisor range around zero has both
`1` and `-1`, so the dividend's magnitude bounds the quotients. -/
def div (w : Width) (r s : Range) : Range :=
  let d := s.without 0
  if r.isEmpty || d.isEmpty then empty
  -- zero lies inside, so the quotients by -1 and 1 are the extreme ones
  else if d.contains 0 then fit w (-r.magnitude) r.magnitude
  else hull w (r.lo.tdiv d.lo) (r.lo.tdiv d.hi) (r.hi.tdiv d.lo) (r.hi.tdiv d.hi)

/-- The remainders of truncated division, which have the sign of the dividend. -/
def rem (w : Width) (r s : Range) : Range :=
  if r.isEmpty || s.isEmpty then empty
  else
    match r.single?, s.single? with
    | some a, some b => if b = 0 then empty else fit w (a.tmod b) (a.tmod b)
    | _, _ =>
      if s.magnitude = 0 then empty
      else
        fit w (if r.lo < 0 then -(s.magnitude - 1) else 0) (if 0 < r.hi then s.magnitude - 1 else 0)

/-- All negations. -/
def negate (w : Width) (r : Range) : Range :=
  if r.isEmpty then empty else fit w (-r.hi) (-r.lo)

end Pathwise.Range
