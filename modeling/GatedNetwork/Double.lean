import GatedNetwork.Arithmetic

/-!
# Double precision numbers

A number is kept as its 64 bits, so a copy keeps every bit of it, those of a NaN included, and
equality is equality of bits. Arithmetic goes through the hardware's double precision: one rounding
per operation, to nearest, and nothing fused.
-/

namespace GatedNetwork

/-- A double precision number, as its bit pattern. -/
structure Double where
  bits : UInt64
deriving DecidableEq, Inhabited, Repr

namespace Double

@[inline] def toFloat (x : Double) : Float := Float.ofBits x.bits

@[inline] def ofFloat (x : Float) : Double := ⟨x.toBits⟩

/-- The biased exponent field. -/
def exponentField (x : Double) : Nat := (x.bits >>> 52).toNat % 2048

/-- The 52 bits below the exponent. -/
def fraction (x : Double) : Nat := x.bits.toNat % 0x10000000000000

def isNegative (x : Double) : Bool := x.bits >>> 63 == 1

def isFinite (x : Double) : Bool := x.exponentField != 2047

def isNaN (x : Double) : Bool := x.exponentField == 2047 && x.fraction != 0

def isInfinite (x : Double) : Bool := x.exponentField == 2047 && x.fraction == 0

/-- The number with its sign flipped. -/
def negate (x : Double) : Double := ⟨x.bits ^^^ 0x8000000000000000⟩

def infinity : Double := ⟨0x7FF0000000000000⟩

def nan : Double := ⟨0x7FF8000000000000⟩

/-- Comparison of numbers: the two zeros are equal, and a NaN equals nothing. -/
def equals (x y : Double) : Bool := x.toFloat == y.toFloat

def lessThan (x y : Double) : Bool := x.toFloat < y.toFloat

@[inline] def add (x y : Double) : Double := ofFloat (x.toFloat + y.toFloat)

@[inline] def sub (x y : Double) : Double := ofFloat (x.toFloat - y.toFloat)

@[inline] def mul (x y : Double) : Double := ofFloat (x.toFloat * y.toFloat)

@[inline] def div (x y : Double) : Double := ofFloat (x.toFloat / y.toFloat)

/-- The nearest double of a 64-bit word read as a whole number. -/
def ofWord (n : UInt64) : Double := ofFloat n.toFloat

instance : Zero Double := ⟨⟨0⟩⟩
instance : One Double := ⟨⟨0x3FF0000000000000⟩⟩
instance : Add Double := ⟨add⟩
instance : Sub Double := ⟨sub⟩
instance : Mul Double := ⟨mul⟩
instance : Div Double := ⟨div⟩
instance : Neg Double := ⟨negate⟩

def half : Double := ⟨0x3FE0000000000000⟩

def two : Double := ⟨0x4000000000000000⟩

/-- A tenth, rounded to nearest. -/
def tenth : Double := ⟨0x3FB999999999999A⟩

def exp (x : Double) : Double := ofFloat x.toFloat.exp

def tanh (x : Double) : Double := ofFloat x.toFloat.tanh

def log (x : Double) : Double := ofFloat x.toFloat.log

/-- Activation and derivative of a squashing function.

The step has derivative 1 everywhere, so that error still flows through it. -/
def squash : Transfer → Double → Double × Double
  | .logistic, x =>
    let y := 1 / (1 + (-x).exp)
    (y, y * (1 - y))
  | .tanh, x =>
    let y := x.tanh
    (y, 1 - y * y)
  | .identity, x => (x, 1)
  | .hardLimit, x => (if lessThan 0 x then 1 else 0, 1)
  | .relu, x => if lessThan 0 x then (x, 1) else (0, 0)

/-- The point of the open interval from 0 to 1 that a random word stands for.

The top 52 bits count steps of size 2^-52, and half a step is added, so neither end is reached. -/
def uniform (word : UInt64) : Double :=
  (ofWord (word >>> 12) + half) / ofWord 0x10000000000000

/-- The point of the open interval from -1 to 1 that a random word stands for. -/
def spread (word : UInt64) : Double := two * uniform word - 1

instance : Arithmetic Double where
  isZero x := x.equals 0
  isOne x := x.equals 1
  squash := squash
  spread := spread

end Double

end GatedNetwork
