import GatedNetwork.Double
import GatedNetwork.Decimal.Rounding

/-!
# The double nearest to a rational number

`Double.ofRatio` rounds an exact quotient to the nearest double, a tie to the even fraction.
`Double.ofDecimal` does so for a decimal `coefficient * 10 ^ exponent`, whatever its size.
-/

namespace GatedNetwork

namespace Double

/-- Fraction and exponent of a finite double: its absolute value is `m * 2 ^ e`. -/
def decode (x : Double) : Nat × Int :=
  if x.exponentField = 0 then (x.fraction, -1074)
  else (0x10000000000000 + x.fraction, (x.exponentField : Int) - 1075)

/-- The absolute value of a finite double as a quotient. -/
def ratio (x : Double) : Nat × Nat :=
  let (m, e) := x.decode
  (m * Nat.pow 2 e.toNat, Nat.pow 2 (-e).toNat)

/-- The exponent at which a fraction of 53 bits has to be scaled to reach `num / den`, never below
the exponent of the subnormal numbers. -/
def binaryExponent (num den : Nat) : Int :=
  let e := (num.log2 : Int) - den.log2 - 52
  let e :=
    if num * Nat.pow 2 (-e).toNat < den * Nat.pow 2 e.toNat * 0x10000000000000 then e - 1
    else e
  max e (-1074)

/-- The double nearest to `num / den`, ties to the even fraction; infinity past the largest. -/
def ofRatio (num den : Nat) : Double :=
  if num = 0 ∨ den = 0 then 0
  else
    let e := binaryExponent num den
    let m := Decimal.roundQuotient (num * Nat.pow 2 (-e).toNat) (den * Nat.pow 2 e.toNat)
    let bits := (e + 1074).toNat * 0x10000000000000 + m
    if 0x7FF0000000000000 ≤ bits then infinity else ⟨UInt64.ofNat bits⟩

/-- Number of decimal digits of a natural number; zero has none. -/
def digitCount (n : Nat) : Nat :=
  if n = 0 then 0 else (Nat.toDigits 10 n).length

/-- The double nearest to `coefficient * 10 ^ exponent`.

Past 10 ^ 310 every value is infinite and below 10 ^ -330 every value is zero, so no power of ten
beyond those is ever formed. -/
def ofDecimal (coefficient : Nat) (exponent : Int) : Double :=
  let top := exponent + digitCount coefficient
  if coefficient = 0 then 0
  else if 310 < top then infinity
  else if top < -330 then 0
  else ofRatio (coefficient * Nat.pow 10 exponent.toNat) (Nat.pow 10 (-exponent).toNat)

end Double

end GatedNetwork
