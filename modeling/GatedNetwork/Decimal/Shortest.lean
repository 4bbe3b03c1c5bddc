import GatedNetwork.Decimal.Nearest

/-!
# The shortest decimal of a double

Among the decimals that read back as a given double, `Double.shortest` picks one with the fewest
digits and, of those, the nearest. A double is the nearest one to every real number in an interval
around it; the interval includes its ends exactly when the fraction is even. For 1, 2, … 17 digits
the two neighbours of the value on the decimal grid are tested, all in exact arithmetic. If any
point of a grid lies in the interval, one of the two neighbours does.
-/

namespace GatedNetwork

/-- The decimal `coefficient * 10 ^ exponent`. -/
structure Decimal where
  coefficient : Nat
  exponent : Int
deriving DecidableEq, Repr

namespace Decimal

/-- Drops zeros at the end of the coefficient. -/
def normalize (d : Decimal) : Decimal :=
  if h : d.coefficient = 0 then ⟨0, 0⟩
  else if d.coefficient % 10 = 0 then normalize ⟨d.coefficient / 10, d.exponent + 1⟩
  else d
termination_by d.coefficient
decreasing_by exact Nat.div_lt_self (Nat.pos_of_ne_zero h) (by decide)

/-- The exponent of the leading digit of `num / den`: the largest `e` with `10 ^ e ≤ num / den`.

The estimate from the binary logarithms is at most one off in either direction. -/
def leadingExponent (num den : Nat) : Int :=
  let estimate := ((num.log2 : Int) - den.log2) * 30103 / 100000
  let reaches (e : Int) : Bool := den * Nat.pow 10 e.toNat ≤ num * Nat.pow 10 (-e).toNat
  if reaches (estimate + 1) then estimate + 1
  else if reaches estimate then estimate
  else estimate - 1

end Decimal

namespace Double

/-- The positive reals that round to one double, in units of `unit`, a quotient. -/
structure Interval where
  low : Nat
  value : Nat
  high : Nat
  /-- Do the ends belong to it? -/
  closed : Bool
  unit : Nat × Nat

/-- The interval of a positive finite double, in quarters of its last binary place. Below a power of
two the neighbour is half as far away. -/
def interval (x : Double) : Interval :=
  let (m, e) := x.decode
  { low := if x.fraction = 0 ∧ 1 < x.exponentField then 4 * m - 1 else 4 * m - 2
    value := 4 * m
    high := 4 * m + 2
    closed := m % 2 == 0
    unit := (Nat.pow 2 (e - 2).toNat, Nat.pow 2 (2 - e).toNat) }

/-- Does `d` lie in the interval? -/
def Interval.contains (i : Interval) (d : Decimal) : Bool :=
  let x := d.coefficient * Nat.pow 10 d.exponent.toNat * i.unit.2
  let scale := i.unit.1 * Nat.pow 10 (-d.exponent).toNat
  if i.closed then i.low * scale ≤ x && x ≤ i.high * scale
  else i.low * scale < x && x < i.high * scale

/-- The decimal in the interval with the last digit at `10 ^ exponent` that is nearest to the value,
if there is one. -/
def Interval.nearestOn? (i : Interval) (exponent : Int) : Option Decimal :=
  let num := i.value * i.unit.1 * Nat.pow 10 (-exponent).toNat
  let den := i.unit.2 * Nat.pow 10 exponent.toNat
  let below : Decimal := ⟨num / den, exponent⟩
  let above : Decimal := ⟨num / den + 1, exponent⟩
  match i.contains below, i.contains above with
  | true, true => some ⟨Decimal.roundQuotient num den, exponent⟩
  | true, false => some below
  | false, true => some above
  | false, false => none

/-- Tries `count` digits more than those before. -/
def Interval.search (i : Interval) (exponent : Int) : Nat → Decimal
  | 0 => ⟨0, 0⟩
  | count + 1 => (i.nearestOn? exponent).getD (i.search (exponent - 1) count)

/-- The shortest decimal that reads back as the absolute value of a finite double. -/
def shortest (x : Double) : Decimal :=
  if x.decode.1 = 0 then ⟨0, 0⟩
  else
    let i := x.interval
    (i.search (Decimal.leadingExponent (i.value * i.unit.1) i.unit.2) 17).normalize

end Double

end GatedNetwork
