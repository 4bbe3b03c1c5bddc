import GatedNetwork.Decimal.Nearest
import GatedNetwork.Decimal.Read

/-!
# Numbers in documents

A number literal and the double it is read as. The reading is fast rather than exact: the digits are
gathered in one 64-bit significand, which is then scaled by one power of ten, so a literal of many
digits may be read as a neighbour of the nearest double.
-/

namespace GatedNetwork.Json

/-- A number as it is written. -/
structure Numeral where
  negative : Bool
  whole : List Char
  /-- The digits after the point; empty without a point. -/
  places : List Char
  /-- The exponent, if one is written. -/
  exponent : Option Int
deriving DecidableEq, Repr

namespace Numeral

/-- The largest significand. -/
def maxSignificand : Nat := 0xFFFFFFFFFFFFFFFF

def digitValue (c : Char) : Nat := c.toNat - '0'.toNat

/-- Is the literal written without a point and an exponent? -/
def isWhole (n : Numeral) : Bool := n.places.isEmpty && n.exponent.isNone

/-- A significand and the power of ten it is scaled by. -/
structure Scaled where
  significand : Nat
  exponent : Int
deriving DecidableEq, Repr

/-- Gathers the digits before the point. The first digit that does not fit and all after it only
raise the exponent. -/
def gatherWhole (significand : Nat) : List Char → Scaled
  | [] => ⟨significand, 0⟩
  | c :: cs =>
    let next := 10 * significand + digitValue c
    if next ≤ maxSignificand then gatherWhole next cs
    else ⟨significand, cs.length + 1⟩

/-- Gathers the digits after the point. The first digit that does not fit and all after it are
ignored. -/
def gatherPlaces (s : Scaled) : List Char → Scaled
  | [] => s
  | c :: cs =>
    let next := 10 * s.significand + digitValue c
    if next ≤ maxSignificand then gatherPlaces ⟨next, s.exponent - 1⟩ cs else s

/-- Ten to the power `n`, rounded to nearest. -/
def powerOfTen (n : Nat) : Double := .ofDecimal 1 n

/-- Divides by 10 ^ 308 until the exponent is at least -308 or the number is zero. -/
def scaleDown (f : Double) (exponent : Int) : Double × Int :=
  if h : -308 ≤ exponent then (f, exponent)
  else if f.equals 0 then (f, exponent)
  else scaleDown (f / powerOfTen 308) (exponent + 308)
termination_by (-exponent).toNat
decreasing_by omega

/-- Scales a significand by a power of ten. There is no answer if the number is too large. -/
def scale? (s : Scaled) : Option Double :=
  let f := Double.ofWord (UInt64.ofNat s.significand)
  if 308 < s.exponent then
    if f.equals 0 then some f else none
  else
    let (f, e) := scaleDown f s.exponent
    if e < -308 then some f
    else if 0 ≤ e then
      let g := f * powerOfTen e.toNat
      if g.isInfinite then none else some g
    else some (f / powerOfTen (-e).toNat)

/-- The largest exponent that can be written. -/
def maxExponent : Int := 0x7FFFFFFF

/-- The absolute value of a literal. -/
def magnitude? (n : Numeral) : Option Double :=
  let whole := Decimal.digitsValue n.whole
  if n.isWhole && whole ≤ maxSignificand then some (.ofWord (UInt64.ofNat whole))
  else
    let s := gatherPlaces (gatherWhole 0 n.whole) n.places
    let e := n.exponent.getD 0
    if maxExponent < e then if s.significand = 0 then some 0 else none
    else if e < -maxExponent then some 0
    else scale? ⟨s.significand, s.exponent + e⟩

/-- The double that a literal is read as. The sign comes last. -/
def toDouble? (n : Numeral) : Option Double :=
  n.magnitude?.map fun x => if n.negative then -x else x

/-- The value of a literal that is an index: a whole number without a sign, below `2 ^ 64`. -/
def toIndex? (n : Numeral) : Option Nat :=
  let value := Decimal.digitsValue n.whole
  if n.isWhole && !n.negative && value ≤ maxSignificand then some value else none

end Numeral

end GatedNetwork.Json
