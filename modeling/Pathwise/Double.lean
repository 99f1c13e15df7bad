import Pathwise.Relation
import Pathwise.Decimal.Shortest

/-!
# Double-precision numbers

A `Double` is the bit pattern of an IEEE 754 double other than NaN, with one
zero: the two zeros compare equal, so the negative one is replaced by the
positive one. On these the IEEE comparison is a linear order, that of the
integers `Double.key`; equality of patterns is equality of numbers.

Addition, subtraction, multiplication and division are those of the machine.
The remainder is computed exactly: the remainder of two doubles is a double.
-/

namespace Pathwise

/-! ## Bit patterns -/

namespace Bits

/-- The magnitude of positive infinity. -/
def infinity : Nat := 0x7ff0000000000000

/-- The pattern of the negative zero. -/
def negativeZero : Nat := 0x8000000000000000

/-- The pattern without its sign. -/
def magnitude (b : Nat) : Nat := b % negativeZero

/-- Whether the sign is negative. -/
def isNegative (b : Nat) : Bool := decide (negativeZero ≤ b)

/-- Whether the pattern is a NaN. -/
def isNaN (b : Nat) : Bool := decide (infinity < magnitude b)

end Bits

/-! ## Numbers -/

/-- A double other than NaN and negative zero. -/
structure Double where
  bits : UInt64
  notNaN : Bits.isNaN bits.toNat = false
  notNegativeZero : bits.toNat ≠ Bits.negativeZero
  deriving DecidableEq

namespace Double

/-- The double zero. -/
def zero : Double := ⟨0, by decide, by decide⟩

instance : Inhabited Double := ⟨zero⟩

/-- The number of a bit pattern, unless that is a NaN. -/
def ofBits? (b : UInt64) : Option Double :=
  if h : Bits.isNaN b.toNat = true then none
  else if h' : b.toNat = Bits.negativeZero then some zero
  else some ⟨b, by simpa using h, h'⟩

/-- The integer that orders a number among the doubles. -/
def key (d : Double) : Int :=
  if Bits.isNegative d.bits.toNat then -(Bits.magnitude d.bits.toNat : Int)
  else Bits.magnitude d.bits.toNat

/-- Whether a comparison holds of two numbers. A type test has no outcome. -/
def compare? (rel : Relation) (a b : Double) : Option Bool :=
  match rel with
  | .eq => some (decide (a.key = b.key))
  | .ne => some (decide (a.key ≠ b.key))
  | .lt => some (decide (a.key < b.key))
  | .le => some (decide (a.key ≤ b.key))
  | .gt => some (decide (b.key < a.key))
  | .ge => some (decide (b.key ≤ a.key))
  | .instanceOf | .notInstanceOf => none

/-! ## Arithmetic -/

/-- A finite magnitude as `m · 2^q`. -/
structure Binary where
  m : Nat
  q : Int
  deriving Repr

/-- The weight of the leading bit of a normal significand, which is not stored. -/
def leadingBit : Nat := 0x10000000000000

/-- The significand and exponent of a finite magnitude. -/
def binary (magnitude : Nat) : Binary :=
  let fraction := magnitude % leadingBit
  let exponent : Nat := magnitude / leadingBit
  if exponent = 0 then ⟨fraction, -1074⟩ else ⟨fraction + leadingBit, (exponent : Int) - 1075⟩

/-- The magnitude of `m · 2^q`, for a product that is a finite double. -/
def ofBinary (b : Binary) : Nat :=
  if b.m = 0 then 0
  else
    let up := min (52 - (Nat.log2 b.m : Int)) (b.q + 1074)
    let m := if 0 ≤ up then b.m <<< up.toNat else b.m >>> (-up).toNat
    let q := b.q - up
    if m < leadingBit then m else m - leadingBit + (q + 1075).toNat * leadingBit

/-- The remainder of two finite magnitudes, the divisor not zero. -/
def remainder (a b : Nat) : Nat :=
  let x := binary a
  let y := binary b
  let q := min x.q y.q
  ofBinary ⟨(x.m <<< (x.q - q).toNat) % (y.m <<< (y.q - q).toNat), q⟩

/-- The machine number of a double. -/
def toFloat (d : Double) : Float := Float.ofBits d.bits

/-- The sum; none for a NaN. -/
def add? (a b : Double) : Option Double := ofBits? (a.toFloat + b.toFloat).toBits

/-- The difference; none for a NaN. -/
def sub? (a b : Double) : Option Double := ofBits? (a.toFloat - b.toFloat).toBits

/-- The product; none for a NaN. -/
def mul? (a b : Double) : Option Double := ofBits? (a.toFloat * b.toFloat).toBits

/-- The quotient; none for a NaN. -/
def div? (a b : Double) : Option Double := ofBits? (a.toFloat / b.toFloat).toBits

/-- The remainder of truncated division, with the sign of the dividend. It is a
NaN for an infinite dividend or a zero divisor, and the dividend itself for an
infinite divisor. -/
def rem? (a b : Double) : Option Double :=
  let x := Bits.magnitude a.bits.toNat
  let y := Bits.magnitude b.bits.toNat
  if x = Bits.infinity ∨ y = 0 then none
  else if y = Bits.infinity then some a
  else
    let r := remainder x y
    ofBits? (UInt64.ofNat (if Bits.isNegative a.bits.toNat then r + Bits.negativeZero else r))

/-- The number with the other sign. -/
def neg (d : Double) : Double :=
  (ofBits? (d.bits ^^^ UInt64.ofNat Bits.negativeZero)).getD zero

/-! ## Text -/

/-- A number in the fewest digits that read back as it, without an exponent. -/
def text (d : Double) : String :=
  let x := Bits.magnitude d.bits.toNat
  let sign := if Bits.isNegative d.bits.toNat then "-" else ""
  if x = Bits.infinity then sign ++ "inf"
  else if x = 0 then "0"
  else
    let b := binary x
    let least := decide (x % leadingBit = 0 ∧ 2 * leadingBit ≤ x)
    sign ++ (Decimal.shortest b.m b.q least).positional

end Double

end Pathwise
