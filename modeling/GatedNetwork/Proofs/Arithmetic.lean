import GatedNetwork.Double

/-!
# Laws of arithmetic

`NeutralOne` holds what compiling relies on: multiplying by one changes nothing, and only one is taken
for one. Sums and products stay uninterpreted otherwise, so nothing may be reassociated or commuted.
Double precision multiplication behaves like this up to the bits of a NaN: it turns every NaN into the
standard one, so one is neutral for `Float`, which has no other, but not for `Double`.

`SoundZero` holds what snapshots rely on: zero, which is the weight of a new loop, is taken for zero.

Whole numbers are an arithmetic with a neutral one, too. They are exact and can be evaluated, so they
serve as the numbers of concrete circuits.
-/

namespace GatedNetwork

/-- Multiplying by one changes nothing, on either side, and the test for one is exact. -/
class NeutralOne (α : Type) [Arithmetic α] : Prop where
  one_mul : ∀ x : α, 1 * x = x
  mul_one : ∀ x : α, x * 1 = x
  eq_one : ∀ x : α, Arithmetic.isOne x = true → x = 1

/-- Zero passes the test for zero. Other numbers may pass it, too. -/
class SoundZero (α : Type) [Arithmetic α] : Prop where
  isZero_zero : Arithmetic.isZero (0 : α) = true

/-- Whole numbers. The smooth squashing functions have no values among them and are taken for the
identity. -/
instance : Arithmetic Int where
  zero := 0
  one := 1
  isZero x := x == 0
  isOne x := x == 1
  squash
    | .hardLimit, x => (if 0 < x then 1 else 0, 1)
    | .relu, x => if 0 < x then (x, 1) else (0, 0)
    | _, x => (x, 1)
  spread word := (word % 7).toNat - 3

instance : NeutralOne Int where
  one_mul := Int.one_mul
  mul_one := Int.mul_one
  eq_one := fun _ h => eq_of_beq h

instance : SoundZero Int := ⟨rfl⟩

instance : SoundZero Double := ⟨by decide +kernel⟩

end GatedNetwork
