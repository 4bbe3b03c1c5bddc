import GatedNetwork.Decimal.Nearest

/-!
# Reading a number

The free form of a number: an optional sign, then `inf`, `infinity` or `nan` in any case, or digits
with at most one point among or around them and at least one digit, and an optional exponent. The
value is the nearest double.
-/

namespace GatedNetwork.Decimal

/-- The value of a run of ASCII digits. -/
def digitsValue (cs : List Char) : Nat :=
  cs.foldl (fun n c => 10 * n + (c.toNat - '0'.toNat)) 0

def isDigit (c : Char) : Bool := '0' ≤ c && c ≤ '9'

/-- The digits in front, and the rest. -/
def spanDigits (cs : List Char) : List Char × List Char :=
  (cs.takeWhile isDigit, cs.dropWhile isDigit)

/-- A sign in front: is it a minus, and what follows. -/
def takeSign : List Char → Bool × List Char
  | '-' :: cs => (true, cs)
  | '+' :: cs => (false, cs)
  | cs => (false, cs)

/-- The whole of `cs` as an exponent: nothing, or a mark, an optional sign and digits. -/
def readExponent? : List Char → Option Int
  | [] => some 0
  | c :: cs =>
    if c = 'e' ∨ c = 'E' then
      let (negative, cs) := takeSign cs
      let (ds, rest) := spanDigits cs
      if ds.isEmpty || !rest.isEmpty then none
      else some (if negative then -(digitsValue ds : Int) else digitsValue ds)
    else none

/-- A point in front is dropped. -/
def dropPoint : List Char → List Char
  | '.' :: cs => cs
  | cs => cs

/-- An unsigned number in digits. -/
def readDigits? (cs : List Char) : Option Double := do
  let (whole, rest) := spanDigits cs
  let (places, rest) := if rest.head? = some '.' then spanDigits (dropPoint rest) else ([], rest)
  if whole.isEmpty && places.isEmpty then none
  let exponent ← readExponent? rest
  some (Double.ofDecimal (digitsValue (whole ++ places)) (exponent - places.length))

/-- An unsigned number, `inf`, `infinity` or `nan`. -/
def readUnsigned? (cs : List Char) : Option Double :=
  let lower := cs.map Char.toLower
  if lower = "inf".toList ∨ lower = "infinity".toList then some .infinity
  else if lower = "nan".toList then some .nan
  else readDigits? cs

/-- A number in free form. -/
def read? (s : String) : Option Double :=
  let (negative, cs) := takeSign s.toList
  (readUnsigned? cs).map fun x => if negative then -x else x

/-- An unsigned whole number with an optional plus sign, below `2 ^ 64`. -/
def readWord? (s : String) : Option UInt64 :=
  let cs := match s.toList with
    | '+' :: cs => cs
    | cs => cs
  if cs.isEmpty || !cs.all isDigit then none
  else if digitsValue cs < 0x10000000000000000 then some (UInt64.ofNat (digitsValue cs)) else none

end GatedNetwork.Decimal
