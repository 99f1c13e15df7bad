/-!
# Shortest decimals

A binary floating-point number `m · 2^q` stands for an interval of reals: those
that round to it. This module finds a decimal inside the interval with as few
digits as possible, and among those one nearest to the number, all in exact
arithmetic on natural numbers.

On the grid of decimals with a given number of digits only the two neighbours of
the number matter: if any grid point lies in the interval, one of them does. The
search tries 1, 2, … 17 digits and takes the first grid with a hit.
-/

namespace Pathwise

/-- The decimal `digits · 10^exponent`. -/
structure Decimal where
  digits : Nat
  exponent : Int
  deriving DecidableEq, Repr, Inhabited

namespace Decimal

/-- The number of decimal digits of a number; zero has none. -/
def digitCount (n : Nat) : Nat := if n = 0 then 0 else (Nat.toDigits 10 n).length

/-- The positive rational `num / den`. -/
structure Ratio where
  num : Nat
  den : Nat
  deriving Repr

/-- The rational `n · 2^q`. -/
def Ratio.ofBinary (n : Nat) (q : Int) : Ratio := ⟨n <<< q.toNat, 1 <<< (-q).toNat⟩

/-- The rational divided by `10^k`. -/
def Ratio.scale (r : Ratio) (k : Int) : Ratio :=
  ⟨r.num * Nat.pow 10 (-k).toNat, r.den * Nat.pow 10 k.toNat⟩

/-- The exponent `d` with `10^(d-1) ≤ r < 10^d`. -/
def Ratio.magnitude (r : Ratio) : Int :=
  if r.den ≤ r.num then digitCount (r.num / r.den)
  else 1 - (digitCount ((r.den + r.num - 1) / r.num - 1) : Int)

/-- The decimal with the trailing zeros of its digits moved to the exponent. -/
def strip : Nat → Decimal → Decimal
  | 0, d => d
  | fuel + 1, d =>
    if d.digits % 10 = 0 ∧ d.digits ≠ 0 then strip fuel ⟨d.digits / 10, d.exponent + 1⟩ else d

/-- The interval of reals that round to `m · 2^q`, in units of `2^(q-2)`. -/
structure Rounding where
  /-- The number itself. -/
  mid : Nat
  lo : Nat
  hi : Nat
  /-- Whether the ends round to the number too. -/
  closed : Bool

/-- The interval around `m · 2^q`. Below the least number of its binade the
neighbour is at half the distance. -/
def Rounding.around (m : Nat) (leastOfBinade : Bool) : Rounding :=
  ⟨4 * m, if leastOfBinade then 4 * m - 1 else 4 * m - 2, 4 * m + 2, m % 2 = 0⟩

/-- Whether `n · 10^k` lies in the interval, for the unit `unit / 10^k`. -/
def Rounding.holds (r : Rounding) (unit : Ratio) (n : Nat) : Bool :=
  let x := n * unit.den
  if r.closed then decide (r.lo * unit.num ≤ x ∧ x ≤ r.hi * unit.num)
  else decide (r.lo * unit.num < x ∧ x < r.hi * unit.num)

/-- The grid point of `n` digits in the interval that is nearest to the number;
of two equally near the greater. -/
def Rounding.onGrid? (r : Rounding) (unit : Ratio) (magnitude : Int) (n : Nat) : Option Decimal :=
  let k := magnitude - n
  let u := unit.scale k
  let below := r.mid * u.num / u.den
  let rest := r.mid * u.num - below * u.den
  match r.holds u below, r.holds u (below + 1) with
  | true, true => some ⟨if 2 * rest < u.den then below else below + 1, k⟩
  | true, false => some ⟨below, k⟩
  | false, true => some ⟨below + 1, k⟩
  | false, false => none

/-- The shortest decimal that rounds to `m · 2^q`, for `0 < m`. -/
def shortest (m : Nat) (q : Int) (leastOfBinade : Bool) : Decimal :=
  let r := Rounding.around m leastOfBinade
  let unit := Ratio.ofBinary 1 (q - 2)
  let magnitude := (Ratio.ofBinary m q).magnitude
  let d := ((List.range 17).findSome? fun i => r.onGrid? unit magnitude (i + 1)).getD ⟨m, 0⟩
  d.strip 17

/-- A decimal written with all its digits and never with an exponent. -/
def positional (d : Decimal) : String :=
  let ds := Nat.toDigits 10 d.digits
  if 0 ≤ d.exponent then String.ofList (ds ++ List.replicate d.exponent.toNat '0')
  else
    let places := (-d.exponent).toNat
    let padded := List.replicate (places + 1 - ds.length) '0' ++ ds
    let whole := padded.length - places
    String.ofList (padded.take whole ++ '.' :: padded.drop whole)

end Decimal

end Pathwise
