import Mathlib.Algebra.BigOperators.Group.Finset.Basic
import Mathlib.Algebra.Order.Field.Basic
import Mathlib.Algebra.Order.Field.Rat
import Mathlib.Algebra.Ring.Int.Defs
import Mathlib.Tactic.Linarith
import GatedNetwork.Proofs.Arithmetic

/-!
# Exact arithmetic

Statements about sums that a network takes in some order, as if the order did not matter, need a ring.
Statements about the size of random numbers need an order, too. The squashing functions stay
uninterpreted.
-/

namespace GatedNetwork

/-- A commutative ring in which only one is taken for one. -/
class ExactArithmetic (α : Type) extends CommRing α, Arithmetic α where
  eq_one : ∀ x : α, isOne x = true → x = 1

instance {α : Type} [ExactArithmetic α] : NeutralOne α where
  one_mul := one_mul
  mul_one := mul_one
  eq_one := ExactArithmetic.eq_one

instance : ExactArithmetic Int :=
  { (inferInstance : Arithmetic Int), (inferInstance : CommRing Int) with
    eq_one := fun _ h => eq_of_beq h }

variable {α ι : Type} [ExactArithmetic α]

/-- A running total. -/
theorem foldl_add (ls : List ι) (f : ι → α) (z : α) :
    ls.foldl (fun sum l => sum + f l) z = z + (ls.map f).sum := by
  induction ls generalizing z with
  | nil => rw [List.foldl_nil, List.map_nil, List.sum_nil, add_zero]
  | cons l ls ih => rw [List.foldl_cons, ih, List.map_cons, List.sum_cons, add_assoc]

theorem foldl_add_toFinset [DecidableEq ι] {ls : List ι} (hls : ls.Nodup) (f : ι → α) (z : α) :
    ls.foldl (fun sum l => sum + f l) z = z + ∑ l ∈ ls.toFinset, f l := by
  rw [foldl_add, List.sum_toFinset f hls]

/-! ## Random factors -/

/-- An ordered field in which a word stands for a random factor without rounding: its top 52 bits count
steps across the open interval from -1 to 1, and half a step is added. -/
class FractionArithmetic (α : Type) extends Field α, LinearOrder α, IsStrictOrderedRing α,
    Arithmetic α where
  spread_eq : ∀ word, spread word = 2 * ((((word >>> 12).toNat : α) + 1 / 2) / 2 ^ 52) - 1

/-- Fractions. The smooth squashing functions are taken for the identity here, too. -/
instance : FractionArithmetic ℚ where
  isZero x := x == 0
  isOne x := x == 1
  squash
    | .hardLimit, x => (if 0 < x then 1 else 0, 1)
    | .relu, x => if 0 < x then (x, 1) else (0, 0)
    | _, x => (x, 1)
  spread word := 2 * ((((word >>> 12).toNat : ℚ) + 1 / 2) / 2 ^ 52) - 1
  spread_eq _ := rfl

/-- The top 52 bits of a word. -/
theorem toNat_shiftRight_twelve_lt (word : UInt64) : (word >>> 12).toNat < 2 ^ 52 := by
  have hword := word.toNat_lt
  simp only [UInt64.toNat_shiftRight, Nat.shiftRight_eq_div_pow]
  simp
  omega

section Fractions

variable {α : Type} [FractionArithmetic α]

theorem spread_eq_steps (word : UInt64) : Arithmetic.spread (α := α) word =
    2 * ((((word >>> 12).toNat : α) + 1 / 2) / 2 ^ 52) - 1 :=
  FractionArithmetic.spread_eq word

/-- Random factors lie between -1 and 1. -/
theorem spread_bounds (word : UInt64) :
    -1 < Arithmetic.spread (α := α) word ∧ Arithmetic.spread (α := α) word < 1 := by
  have hcast : ((word >>> 12).toNat : α) + 1 ≤ 2 ^ 52 := by
    exact_mod_cast toNat_shiftRight_twelve_lt word
  have hnonneg : (0 : α) ≤ ((word >>> 12).toNat : α) := Nat.cast_nonneg _
  rw [spread_eq_steps]
  have hsteps : (0 : α) < 2 ^ 52 := pow_pos two_pos 52
  constructor
  · have hpos : (0 : α) < (((word >>> 12).toNat : α) + 1 / 2) / 2 ^ 52 :=
      div_pos (by linarith) hsteps
    linarith
  · have hone : (((word >>> 12).toNat : α) + 1 / 2) / 2 ^ 52 < 1 :=
      (div_lt_one hsteps).mpr (by linarith)
    linarith

/-- So a number drawn from a range lies within it. -/
theorem range_mul_spread {range : α} (h : 0 < range) (word : UInt64) :
    -range < range * Arithmetic.spread word ∧ range * Arithmetic.spread word < range := by
  obtain ⟨hlow, hhigh⟩ := spread_bounds (α := α) word
  have h₁ := mul_lt_mul_of_pos_left hlow h
  have h₂ := mul_lt_mul_of_pos_left hhigh h
  rw [mul_neg, mul_one] at h₁
  rw [mul_one] at h₂
  exact ⟨h₁, h₂⟩

/-- An odd number of half steps never reaches the middle. -/
theorem spread_ne_zero (word : UInt64) : Arithmetic.spread (α := α) word ≠ 0 := by
  intro hzero
  rw [spread_eq_steps] at hzero
  have hmiddle : ((2 * (word >>> 12).toNat + 1 : ℕ) : α) = (2 ^ 52 : ℕ) := by
    push_cast
    linarith
  have hmiddle : 2 * (word >>> 12).toNat + 1 = 2 ^ 52 := by exact_mod_cast hmiddle
  omega

end Fractions

end GatedNetwork
