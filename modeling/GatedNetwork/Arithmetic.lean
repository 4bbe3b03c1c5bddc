/-!
# The arithmetic a network runs on

Everything that happens in a circuit is a fixed sequence of additions, subtractions and
multiplications in a fixed order, of squashing functions, of two tests on numbers and of random
factors. `Arithmetic` names those operations and assumes no law about them. The circuit, its
compiled programs and its snapshots are defined over any `Arithmetic`; a network that is run uses
`GatedNetwork.Double`.

No sum and no product is ever reassociated, so a statement about an arbitrary `Arithmetic` is a
statement about floating point, too.

Squashing functions are kept as names; what each one computes is part of the arithmetic. So is the
factor that a random word stands for. The words come from a xorshift generator with a multiplied output,
which seeds weights and biases and draws them again on a reset; it is no source of secrets.
-/

namespace GatedNetwork

/-! ## Squashing functions -/

/-- The squashing function of a neuron. -/
inductive Transfer where
  | logistic
  | tanh
  | identity
  /-- A step from 0 to 1 at zero. -/
  | hardLimit
  | relu
deriving DecidableEq, Inhabited, Repr

namespace Transfer

/-- All transfer functions, in the order of their declaration. -/
def all : List Transfer := [logistic, tanh, identity, hardLimit, relu]

/-- The name a transfer function has in snapshots and listings. -/
def name : Transfer → String
  | logistic => "LOGISTIC"
  | tanh => "TANH"
  | identity => "IDENTITY"
  | hardLimit => "HLIM"
  | relu => "RELU"

/-- The transfer function of exactly this name. -/
def ofName? (s : String) : Option Transfer :=
  all.find? fun t => t.name == s

/-- Every transfer function is found under its own name. -/
theorem ofName?_name (t : Transfer) : ofName? t.name = some t := by
  cases t <;> decide

end Transfer

/-! ## Random words -/

/-- The state of the generator: one word. -/
structure Generator where
  state : UInt64
deriving DecidableEq, Inhabited, Repr

namespace Generator

/-- A generator started from `seed`. The zero state would stay zero for ever, so a fixed odd
constant stands in for it. -/
def ofSeed (seed : UInt64) : Generator :=
  ⟨if seed = 0 then 0x9E3779B97F4A7C15 else seed⟩

/-- One step of the state: three shifts, each folded back by exclusive or. -/
def scramble (x : UInt64) : UInt64 :=
  let x := x ^^^ (x >>> 12)
  let x := x ^^^ (x <<< 25)
  x ^^^ (x >>> 27)

/-- The next word and the generator after it. -/
def next (g : Generator) : UInt64 × Generator :=
  let x := scramble g.state
  (x * 0x2545F4914F6CDD1D, ⟨x⟩)

end Generator

/-! ## Operations -/

/-- The operations a network performs on its numbers. -/
class Arithmetic (α : Type) extends Zero α, One α, Add α, Sub α, Mul α where
  /-- Is this number equal to zero? A self loop whose weight is zero counts as absent. -/
  isZero : α → Bool
  /-- Is this number equal to one? A constant gain of one is left out of compiled products. -/
  isOne : α → Bool
  /-- Activation and derivative of a squashing function at a state. -/
  squash : Transfer → α → α × α
  /-- The factor between -1 and 1 that a word from the generator stands for. -/
  spread : UInt64 → α

end GatedNetwork
