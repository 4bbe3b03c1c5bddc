import GatedNetwork.Decimal.Shortest

/-!
# Decimal text

Two ways to write a number. `Layout` says how the shortest decimal of a double is set out: where
positional notation ends and how the exponent is written. `Double.fixed` writes a fixed number of
places, correctly rounded from the exact value, ties to the even digit.
-/

namespace GatedNetwork

namespace Decimal

/-- How a shortest decimal is set out. -/
structure Layout where
  /-- Leading exponents from `lowest` to `highest` are written without an exponent. -/
  lowest : Int
  highest : Int
  /-- Is a positive exponent written with a plus sign? -/
  plus : Bool

/-- `count` zeros. -/
def zeros (count : Nat) : String := String.ofList (List.replicate count '0')

/-- The digits of a coefficient. -/
def digits (d : Decimal) : List Char := Nat.toDigits 10 d.coefficient

/-- The exponent of the leading digit. -/
def leading (d : Decimal) : Int := d.exponent + d.digits.length - 1

/-- Positional notation. A whole number ends in `.0`. -/
def positional (d : Decimal) : String :=
  let ds := d.digits
  if 0 ≤ d.exponent then String.ofList ds ++ zeros d.exponent.toNat ++ ".0"
  else if 0 ≤ d.leading then
    let whole := ds.take (d.leading + 1).toNat
    let rest := ds.drop (d.leading + 1).toNat
    String.ofList whole ++ "." ++ String.ofList rest
  else "0." ++ zeros (-d.leading - 1).toNat ++ String.ofList ds

/-- One digit, the others after a point if there are any, and the exponent. -/
def scientific (plus : Bool) (d : Decimal) : String :=
  let mantissa := match d.digits with
    | [] => "0"
    | [c] => String.ofList [c]
    | c :: rest => String.ofList [c] ++ "." ++ String.ofList rest
  let e := d.leading
  mantissa ++ "e" ++ (if 0 ≤ e then (if plus then "+" else "") else "-") ++ toString e.natAbs

/-- A decimal set out as `layout` says. -/
def text (layout : Layout) (d : Decimal) : String :=
  if layout.lowest ≤ d.leading ∧ d.leading ≤ layout.highest then d.positional
  else d.scientific layout.plus

end Decimal

namespace Double

def signText (x : Double) : String := if x.isNegative then "-" else ""

/-- Text for a number that is not finite. -/
def specialText (x : Double) : String :=
  if x.isNaN then "NaN" else x.signText ++ "inf"

/-- The shortest decimal of a finite double, with its sign. -/
def text (layout : Decimal.Layout) (x : Double) : String :=
  if x.isFinite then x.signText ++ x.shortest.text layout else x.specialText

/-- Always one digit before the point, and an exponent without a plus sign. -/
def scientific (x : Double) : String :=
  if x.isFinite then x.signText ++ x.shortest.scientific false else x.specialText

/-- A fixed number of places. A negative zero keeps its sign. -/
def fixed (places : Nat) (x : Double) : String :=
  if x.isFinite then
    let (num, den) := x.ratio
    let n := Decimal.roundQuotient (num * Nat.pow 10 places) den
    let ds := Nat.toDigits 10 n
    let ds := List.replicate (places + 1 - ds.length) '0' ++ ds
    let whole := ds.take (ds.length - places)
    let rest := ds.drop (ds.length - places)
    x.signText ++ String.ofList whole ++ (if places = 0 then "" else "." ++ String.ofList rest)
  else x.specialText

end Double

end GatedNetwork
