import GatedNetwork.Proofs.Double.Exact
import GatedNetwork.Proofs.ExactArithmetic
import GatedNetwork.Proofs.Generator

/-!
# Random numbers

A drawn word becomes a sample between 0 and 1, and the sample a factor between -1 and 1. The top 52 bits
of the word count whole steps, half a step is added, and no operation on the way has more than 53 binary
places to keep, so none of them rounds.

* `denotes_spread` — a network draws the factors that exact arithmetic does
* `sampled` — what a word stands for, at every stage
* `draws_exact` — the generator never degenerates, and whatever it draws is exact
-/

namespace GatedNetwork

namespace Double

/-- Whole steps of size `2 ^ -52` that a word counts. -/
def steps (word : UInt64) : ℕ := (word >>> 12).toNat

theorem steps_lt (word : UInt64) : steps word < 2 ^ 52 := toNat_shiftRight_twelve_lt word

/-! ## Numbers of few places -/

/-- Fewer than `2 ^ 53` steps at an exponent within range. -/
theorem representable_of_eq {q : ℚ} {k e : ℤ} (hq : q = k * 2 ^ e) (hk : k.natAbs < 2 ^ 53)
    (hlow : -1074 ≤ e) (hhigh : e ≤ 971) : Representable q := by
  refine ⟨k.natAbs, e, hk, hlow, hhigh, ?_⟩
  rw [hq, abs_mul, abs_of_pos (two_zpow_pos e), Nat.cast_natAbs, Int.cast_abs]

theorem denotes_half : half.Denotes (1 / 2) :=
  denotes_of_decode (m := 2 ^ 52) (e := -53) (by decide) (by decide) (by decide) (by norm_num)

theorem denotes_two : two.Denotes 2 :=
  denotes_of_decode (m := 2 ^ 52) (e := -51) (by decide) (by decide) (by decide) (by norm_num)

theorem denotes_unit : (ofWord 0x10000000000000).Denotes (2 ^ 52) := by
  have hword : ((0x10000000000000 : UInt64).toNat : ℚ) = 2 ^ 52 := by
    rw [show (0x10000000000000 : UInt64).toNat = 2 ^ 52 from rfl]
    norm_num
  rw [← hword]
  exact denotes_ofWord
    (representable_of_eq (k := 2 ^ 52) (e := 0) (by rw [hword]; norm_num) (by decide) (by decide)
      (by decide))

/-! ## The stages of a draw -/

/-- The number of whole steps is a double. -/
theorem denotes_steps (word : UInt64) : (ofWord (word >>> 12)).Denotes (steps word) := by
  have hlt := steps_lt word
  refine denotes_ofWord (representable_of_eq (k := steps word) (e := 0) ?_ (by omega) ?_ ?_)
  · rw [zpow_zero, mul_one, Int.cast_natCast, steps]
  · decide
  · decide

/-- Half a step more takes one more place. -/
theorem denotes_steps_add_half (word : UInt64) :
    (ofWord (word >>> 12) + half).Denotes (steps word + 1 / 2) := by
  have hlt := steps_lt word
  refine (denotes_steps word).add denotes_half
    (representable_of_eq (k := 2 * steps word + 1) (e := -1) ?_ (by omega) (by decide) (by decide))
  push_cast
  ring

theorem denotes_uniform (word : UInt64) :
    (uniform word).Denotes ((steps word + 1 / 2) / 2 ^ 52) := by
  have hlt := steps_lt word
  refine (denotes_steps_add_half word).div denotes_unit (by norm_num)
    (representable_of_eq (k := 2 * steps word + 1) (e := -53) ?_ (by omega) (by decide) (by decide))
  push_cast
  ring

theorem denotes_two_mul_uniform (word : UInt64) :
    (two * uniform word).Denotes (2 * ((steps word + 1 / 2) / 2 ^ 52)) := by
  have hlt := steps_lt word
  refine denotes_two.mul (denotes_uniform word)
    (representable_of_eq (k := 2 * steps word + 1) (e := -52) ?_ (by omega) (by decide) (by decide))
  push_cast
  ring

/-- Taking one off cancels places and needs no more of them: doubles draw the factors that fractions do. -/
theorem denotes_spread (word : UInt64) : (spread word).Denotes (Arithmetic.spread word) := by
  have hlt := steps_lt word
  refine (denotes_two_mul_uniform word).sub denotes_one
    (representable_of_eq (k := 2 * steps word + 1 - 2 ^ 52) (e := -52) ?_ (by omega) (by decide)
      (by decide))
  push_cast
  ring

/-- What becomes of a word that counts `k` whole steps. At each stage the double at hand denotes the exact
result of the operation, so no operation rounds. -/
structure Sampled (word : UInt64) (k : ℕ) : Prop where
  steps_lt : k < 2 ^ 52
  /-- The numerator of the sample has at most 53 binary places. -/
  numerator_lt : 2 * k + 1 < 2 ^ 53
  whole : (ofWord (word >>> 12)).Denotes k
  shifted : (ofWord (word >>> 12) + half).Denotes (k + 1 / 2)
  sample : (uniform word).Denotes ((2 * k + 1) / 2 ^ 53)
  sample_pos : 0 < (uniform word).number
  sample_lt_one : (uniform word).number < 1
  doubled : (two * uniform word).Denotes (2 * (uniform word).number)
  factor : (spread word).Denotes (2 * (uniform word).number - 1)
  factor_ne_zero : (spread word).number ≠ 0
  neg_one_lt_factor : -1 < (spread word).number
  factor_lt_one : (spread word).number < 1

theorem sampled (word : UInt64) : Sampled word (steps word) := by
  have hlt := steps_lt word
  obtain ⟨hlow, hhigh⟩ := spread_bounds (α := ℚ) word
  have hne := spread_ne_zero (α := ℚ) word
  obtain ⟨hfinite, hsample⟩ := denotes_uniform word
  obtain ⟨hfiniteFactor, hspread⟩ := denotes_spread word
  have hfactor : (spread word).number = 2 * (uniform word).number - 1 := by
    rw [hspread, hsample]
    exact spread_eq_steps word
  rw [← hspread] at hlow hhigh hne
  exact
    { steps_lt := hlt
      numerator_lt := by omega
      whole := denotes_steps word
      shifted := denotes_steps_add_half word
      sample := ⟨hfinite, by rw [hsample]; ring⟩
      sample_pos := by linarith
      sample_lt_one := by linarith
      doubled := by
        rw [hsample]
        exact denotes_two_mul_uniform word
      factor := ⟨hfiniteFactor, hfactor⟩
      factor_ne_zero := hne
      neg_one_lt_factor := hlow
      factor_lt_one := hhigh }

/-- The samples next to the ends. -/
example : uniform 0 = ⟨0x3CA0000000000000⟩ ∧ uniform 0xFFFFFFFFFFFFFFFF = ⟨0x3FEFFFFFFFFFFFFF⟩ := by
  decide +kernel

end Double

namespace Generator

/-- No seed ever leads to the zero state. A step is a bijection of the states, so generators in different
states are in different states after any number of draws. And whatever word is drawn, the sample and the
factor it becomes are exact; they lie strictly between 0 and 1 and between -1 and 1, and no factor is zero. -/
theorem draws_exact :
    (∀ seed n, ((ofSeed seed).after n).state ≠ 0) ∧
      Function.Bijective scramble ∧
      (∀ (g h : Generator) n, g.after n = h.after n ↔ g = h) ∧
      ∀ word, ∃ k, Double.Sampled word k :=
  ⟨state_after_ofSeed, scramble_bijective, fun _ _ n => after_inj n,
    fun word => ⟨Double.steps word, Double.sampled word⟩⟩

end Generator

end GatedNetwork
