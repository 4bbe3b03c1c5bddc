import GatedNetwork.Json.Number
import GatedNetwork.Proofs.Decimal.Digits
import GatedNetwork.Proofs.Decimal.Shortest

/-!
# Literals that are read as numbers

Reading a literal gathers its digits in one word and multiplies that by a power of ten. The word, the
power and the product are each rounded, so a literal just below the limit of the doubles might be refused.
One of at most seventeen digits is not, as long as it is at most the shortest decimal of the largest
double.

* `gather_eq` — what is gathered is the exact value, if the digits fit in a word
* `isSome_scale?` — the product is not too large
* `isSome_toDouble?` — the literal is read
-/

namespace GatedNetwork

namespace Json.Numeral

variable {n : Numeral} {c : Nat} {e : Int}

/-! ## Gathering digits -/

theorem gatherWhole_eq {significand : Nat} {cs : List Char}
    (h : Nat.ofDigitChars 10 cs significand ≤ maxSignificand) :
    gatherWhole significand cs = ⟨Nat.ofDigitChars 10 cs significand, 0⟩ := by
  induction cs generalizing significand with
  | nil => rfl
  | cons c cs ih =>
    have hnext : 10 * significand + digitValue c ≤ maxSignificand :=
      (Decimal.le_ofDigitChars cs _).trans h
    rw [gatherWhole]
    simp only [if_pos hnext]
    exact ih h

theorem gatherPlaces_eq {s : Scaled} {cs : List Char}
    (h : Nat.ofDigitChars 10 cs s.significand ≤ maxSignificand) :
    gatherPlaces s cs = ⟨Nat.ofDigitChars 10 cs s.significand, s.exponent - cs.length⟩ := by
  induction cs generalizing s with
  | nil =>
    rw [gatherPlaces, List.length_nil, Nat.cast_zero, sub_zero]
    rfl
  | cons c cs ih =>
    have hnext : 10 * s.significand + digitValue c ≤ maxSignificand :=
      (Decimal.le_ofDigitChars cs _).trans h
    rw [gatherPlaces]
    simp only [if_pos hnext]
    refine (ih (s := ⟨10 * s.significand + digitValue c, s.exponent - 1⟩) h).trans ?_
    rw [List.length_cons, Scaled.mk.injEq]
    exact ⟨rfl, by push_cast; ring⟩

/-- Digits that fit in a word are gathered without loss. -/
theorem gather_eq {whole places : List Char}
    (h : Decimal.digitsValue (whole ++ places) ≤ maxSignificand) :
    gatherPlaces (gatherWhole 0 whole) places =
      ⟨Decimal.digitsValue (whole ++ places), -places.length⟩ := by
  rw [Decimal.digitsValue_eq, Nat.ofDigitChars_append] at h ⊢
  rw [gatherWhole_eq ((Decimal.le_ofDigitChars places _).trans h), gatherPlaces_eq h, zero_sub]

/-! ## Scaling -/

theorem scaleDown_neg {f : Double} (he : e < 0) : (scaleDown f e).2 < 0 := by
  induction f, e using scaleDown.induct with
  | case1 f e hsmall =>
    rw [scaleDown, dif_pos hsmall]
    exact he
  | case2 f e hlarge hzero =>
    rw [scaleDown, dif_neg hlarge, if_pos hzero]
    exact he
  | case3 f e hlarge hzero ih =>
    rw [scaleDown, dif_neg hlarge, if_neg hzero]
    exact ih (by omega)

/-- Scaling down always has a result. -/
theorem isSome_scale?_of_neg {s : Scaled} (h : s.exponent < 0) : (scale? s).isSome = true := by
  have hneg := scaleDown_neg (f := .ofWord (UInt64.ofNat s.significand)) h
  rw [scale?, if_neg (by omega)]
  simp only
  split
  · rfl
  · rw [if_neg (by omega)]
    rfl

open Double (value limit largestDecimal)

/-- A significand as a double. -/
theorem value_ofWord_ofNat (hc : c < 2 ^ 64) :
    (Double.ofWord (UInt64.ofNat c)).isFinite = true ∧
      (Double.ofWord (UInt64.ofNat c)).value =
        ((Decimal.roundQuotient c (2 ^ (c.log2 - 52)) * 2 ^ (c.log2 - 52) : ℕ) : ℚ) := by
  obtain ⟨hfinite, hvalue⟩ := Double.value_ofWord (UInt64.ofNat c)
  rw [UInt64.toNat_ofNat_of_lt' hc] at hvalue
  refine ⟨hfinite, hvalue.trans ?_⟩
  push_cast
  rfl

/-- Up to 53 places there is nothing to round. -/
theorem value_ofWord_of_lt (hc : c < 2 ^ 53) : (Double.ofWord (UInt64.ofNat c)).value = c := by
  have hlog : c.log2 - 52 = 0 := by
    by_cases hz : c = 0
    · subst hz
      decide
    · have hlt := (Nat.log2_lt hz).mpr hc
      omega
  rw [(value_ofWord_ofNat (hc.trans (by decide))).2, hlog, pow_zero, Decimal.roundQuotient_one,
    mul_one]

/-- Seventeen digits have at most 57 places, so the last three of them may be lost, and half of a fourth. -/
theorem value_ofWord_le (hc : c ≤ 10 ^ 17) :
    (Double.ofWord (UInt64.ofNat c)).value ≤ ((10 ^ 17 + 8 : ℕ) : ℚ) := by
  rw [(value_ofWord_ofNat (lt_of_le_of_lt hc (by decide))).2, Nat.cast_le]
  have hlog : c.log2 - 52 ≤ 4 := by
    by_cases hz : c = 0
    · subst hz
      decide
    · have hlt := (Nat.log2_lt hz).mpr (lt_of_le_of_lt hc (by decide : 10 ^ 17 < 2 ^ 57))
      omega
  have hunit : 2 ^ (c.log2 - 52) ≤ 2 ^ 4 := Nat.pow_le_pow_right two_pos hlog
  have hnear := (Decimal.roundQuotient_near c (Nat.two_pow_pos (c.log2 - 52))).2
  rw [mul_assoc] at hnear
  rw [mul_comm]
  omega

/-- The significand of the largest double is odd and just past 53 places: it is rounded down. -/
theorem value_ofWord_le_largest (hc : c ≤ largestDecimal.coefficient) :
    (Double.ofWord (UInt64.ofNat c)).value ≤ ((17976931348623156 : ℕ) : ℚ) := by
  have hc : c ≤ 17976931348623157 := hc
  rcases Nat.lt_or_ge c (2 ^ 53) with hsmall | hlarge
  · rw [value_ofWord_of_lt hsmall, Nat.cast_le]
    omega
  · have hlog : c.log2 - 52 = 1 := by
      have hlow := (Nat.le_log2 (by omega)).mpr hlarge
      have hhigh := (Nat.log2_lt (by omega)).mpr (by omega : c < 2 ^ 54)
      omega
    rw [(value_ofWord_ofNat (by omega)).2, hlog, Nat.cast_le, pow_one, Decimal.roundQuotient]
    split
    · omega
    · split
      · omega
      · omega

/-- Comparison with the largest decimal in whole numbers. -/
theorem value_le_largest_iff (c i : Nat) :
    (⟨c, i⟩ : Decimal).value ≤ largestDecimal.value ↔
      c * 10 ^ i ≤ 17976931348623157 * 10 ^ 292 := by
  rw [← Nat.cast_le (α := ℚ), Nat.cast_mul, Nat.cast_mul, Nat.cast_pow, Nat.cast_pow]
  simp only [Decimal.value, largestDecimal, zpow_natCast]
  exact Iff.rfl

/-! ## Powers of ten -/

/-- The powers of ten among the doubles. Each is rounded by at most half of its last place. -/
theorem powerOfTen_near : ∀ i < 309, (powerOfTen i).isFinite = true ∧
    (powerOfTen i).decode.1 * 2 ^ (powerOfTen i).decode.2.toNat * 2 ^ 53 ≤
      10 ^ i * (2 ^ 53 + 1) * 2 ^ (-(powerOfTen i).decode.2).toNat := by
  decide +kernel

theorem value_powerOfTen_le {i : Nat} (hi : i < 309) :
    (powerOfTen i).value * 2 ^ 53 ≤ 10 ^ i * (2 ^ 53 + 1) := by
  have hnear := (powerOfTen_near i hi).2
  rw [value, zpow_eq_div, ← mul_div_assoc, div_mul_eq_mul_div, div_le_iff₀ (by positivity)]
  exact_mod_cast hnear

/-- A rounded significand times an exact power of ten. What is too large for a rounded power is lost by
rounding the significand, or because there are zeros at its end. -/
theorem value_ofWord_mul_le {i : Nat} (hc : c ≤ 10 ^ 17)
    (hle : (⟨c, i⟩ : Decimal).value ≤ largestDecimal.value) :
    (Double.ofWord (UInt64.ofNat c)).value * 10 ^ i ≤ ((17976931348623156 * 10 ^ 292 : ℕ) : ℚ) := by
  have hbound : ∀ q : Nat, (Double.ofWord (UInt64.ofNat c)).value ≤ (q : ℚ) →
      q * 10 ^ i ≤ 17976931348623156 * 10 ^ 292 →
      (Double.ofWord (UInt64.ofNat c)).value * 10 ^ i ≤
        ((17976931348623156 * 10 ^ 292 : ℕ) : ℚ) := by
    intro q hq hmul
    refine (mul_le_mul_of_nonneg_right hq (by positivity)).trans ?_
    exact_mod_cast hmul
  have hnat := (value_le_largest_iff c i).mp hle
  have hpos : 0 < 10 ^ 292 := by positivity
  rcases Nat.lt_or_ge i 292 with hsmall | hlarge
  · refine hbound _ (value_ofWord_le hc) ?_
    have hpower : 10 ^ i ≤ 10 ^ 291 := pow_le_pow_right₀ (by decide) (by omega)
    have hroom : (10 ^ 17 + 8) * 10 ^ 291 ≤ 17976931348623156 * 10 ^ 292 := by decide +kernel
    exact (Nat.mul_le_mul_left _ hpower).trans hroom
  · obtain ⟨k, rfl⟩ := Nat.exists_eq_add_of_le hlarge
    rw [pow_add, mul_comm (10 ^ 292), ← mul_assoc] at hnat
    have hdigits : c * 10 ^ k ≤ 17976931348623157 := Nat.le_of_mul_le_mul_right hnat hpos
    rcases Nat.eq_zero_or_pos k with rfl | hk
    · rw [pow_zero, mul_one] at hdigits
      exact hbound _ (value_ofWord_le_largest hdigits) (by rw [Nat.add_zero])
    · obtain ⟨j, rfl⟩ : ∃ j, k = j + 1 := ⟨k - 1, by omega⟩
      have hzero : c * 10 ^ (j + 1) = 10 * (c * 10 ^ j) := by ring
      have hten : c ≤ c * 10 ^ j := Nat.le_mul_of_pos_right c (by positivity)
      refine hbound c (value_ofWord_of_lt (by omega)).le ?_
      rw [pow_add, mul_comm (10 ^ 292), ← mul_assoc]
      exact Nat.mul_le_mul_right _ (by omega)

/-- Seventeen digits and a power of ten have a product below the limit. -/
theorem mul_powerOfTen_lt {i : Nat} (hi : i < 309) (hc : c ≤ 10 ^ 17)
    (hle : (⟨c, i⟩ : Decimal).value ≤ largestDecimal.value) :
    (Double.ofWord (UInt64.ofNat c)).value * (powerOfTen i).value < limit := by
  have hroom : 17976931348623156 * 10 ^ 292 * (2 ^ 53 + 1) < limit * 2 ^ 53 := by decide +kernel
  have hroom : ((17976931348623156 * 10 ^ 292 : ℕ) : ℚ) * (2 ^ 53 + 1) < limit * 2 ^ 53 := by
    exact_mod_cast hroom
  have hscaled : (Double.ofWord (UInt64.ofNat c)).value * (powerOfTen i).value * 2 ^ 53 <
      limit * 2 ^ 53 :=
    calc (Double.ofWord (UInt64.ofNat c)).value * (powerOfTen i).value * 2 ^ 53
        = (Double.ofWord (UInt64.ofNat c)).value * ((powerOfTen i).value * 2 ^ 53) := mul_assoc _ _ _
      _ ≤ (Double.ofWord (UInt64.ofNat c)).value * (10 ^ i * (2 ^ 53 + 1)) :=
          mul_le_mul_of_nonneg_left (value_powerOfTen_le hi) (Double.value_nonneg _)
      _ = (Double.ofWord (UInt64.ofNat c)).value * 10 ^ i * (2 ^ 53 + 1) := (mul_assoc _ _ _).symm
      _ ≤ ((17976931348623156 * 10 ^ 292 : ℕ) : ℚ) * (2 ^ 53 + 1) :=
          mul_le_mul_of_nonneg_right (value_ofWord_mul_le hc hle) (by positivity)
      _ < limit * 2 ^ 53 := hroom
  exact lt_of_mul_lt_mul_right hscaled (by positivity)

/-- A number up to the shortest decimal of the largest double is not too large. -/
theorem isSome_scale? (hc : c ≤ 10 ^ 17)
    (hle : (⟨c, e⟩ : Decimal).value ≤ largestDecimal.value) : (scale? ⟨c, e⟩).isSome = true := by
  rcases lt_or_ge e 0 with hneg | hpos
  · exact isSome_scale?_of_neg hneg
  · obtain ⟨i, rfl⟩ := Int.eq_ofNat_of_zero_le hpos
    rcases Nat.lt_or_ge i 309 with hi | hi
    · have hfinite := Double.isFinite_mul (value_ofWord_ofNat (lt_of_le_of_lt hc (by decide))).1
        (powerOfTen_near i hi).1 (mul_powerOfTen_lt hi hc hle)
      rw [Double.isFinite, bne_iff_ne] at hfinite
      rw [scale?, if_neg (by simp only; omega)]
      simp only
      rw [scaleDown, dif_pos (by omega)]
      simp only
      rw [if_neg (by omega), if_pos (by omega), Int.toNat_natCast, Double.isInfinite,
        beq_false_of_ne hfinite]
      rfl
    · -- nothing but zero is so small that this power does not carry it past the largest double
      have hzero : c = 0 := by
        by_contra hne
        have hpower : 10 ^ 309 ≤ 10 ^ i := pow_le_pow_right₀ (by decide) hi
        have hbeyond := (hpower.trans (Nat.le_mul_of_pos_left _ (Nat.pos_of_ne_zero hne))).trans
          ((value_le_largest_iff c i).mp hle)
        have hlt : 17976931348623157 * 10 ^ 292 < 10 ^ 309 := by decide +kernel
        exact absurd hbeyond (Nat.not_le_of_lt hlt)
      subst hzero
      rw [scale?, if_pos (by simp only; omega)]
      have hequals : (Double.ofWord (UInt64.ofNat 0)).equals 0 = true := by decide +kernel
      simp only [hequals, if_true, Option.isSome_some]

/-! ## Literals -/

/-- The exact absolute value of a literal. -/
def decimal (n : Numeral) : Decimal :=
  ⟨Decimal.digitsValue (n.whole ++ n.places), n.exponent.getD 0 - n.places.length⟩

/-- Literals of few digits and up to the shortest decimal of the largest double are read. -/
theorem isSome_toDouble? (hdigits : n.decimal.coefficient ≤ 10 ^ 17)
    (hexponent : n.exponent.getD 0 ≤ maxExponent)
    (hle : n.decimal.value ≤ largestDecimal.value) : n.toDouble?.isSome = true := by
  rw [toDouble?, Option.isSome_map, magnitude?]
  have hfits : Decimal.digitsValue (n.whole ++ n.places) ≤ maxSignificand :=
    hdigits.trans (by decide)
  simp only [gather_eq hfits]
  split
  · rfl
  · rw [if_neg (not_lt.mpr hexponent)]
    split
    · rfl
    · rw [neg_add_eq_sub]
      exact isSome_scale? hdigits hle

end Json.Numeral

end GatedNetwork
