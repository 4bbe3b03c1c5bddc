/-!
# Rounding a quotient

A quotient of natural numbers, rounded to the nearest whole number. A quotient that lies exactly
half way goes to the even neighbour.
-/

namespace GatedNetwork.Decimal

/-- `num / den` rounded to nearest, ties to even. -/
def roundQuotient (num den : Nat) : Nat :=
  let q := num / den
  let r := num % den
  if 2 * r < den then q
  else if den < 2 * r then q + 1
  else q + q % 2

/-- The rounded quotient is within half a unit of the quotient. -/
theorem roundQuotient_near (num : Nat) {den : Nat} (h : 0 < den) :
    2 * num ≤ 2 * den * roundQuotient num den + den ∧
      2 * den * roundQuotient num den ≤ 2 * num + den := by
  have hdiv := Nat.div_add_mod num den
  have hlt := Nat.mod_lt num h
  have hmul : ∀ k, 2 * den * (num / den + k) = 2 * (den * (num / den)) + 2 * den * k := by
    intro k; rw [Nat.mul_add, Nat.mul_assoc]
  unfold roundQuotient
  simp only
  split
  · have := hmul 0
    simp only [Nat.add_zero, Nat.mul_zero] at this
    omega
  · split
    · have := hmul 1
      omega
    · rcases Nat.mod_two_eq_zero_or_one (num / den) with he | he
      · rw [he]
        have := hmul 0
        simp only [Nat.mul_zero] at this
        omega
      · rw [he]
        have := hmul 1
        omega

/-- Division without a remainder is exact. -/
theorem roundQuotient_mul (q : Nat) {den : Nat} (h : 0 < den) : roundQuotient (q * den) den = q := by
  simp [roundQuotient, Nat.mul_div_cancel _ h, h]

theorem roundQuotient_one (num : Nat) : roundQuotient num 1 = num := by
  have h := roundQuotient_mul num Nat.one_pos
  rwa [Nat.mul_one] at h

/-- The quotient is rounded to one of its neighbours. -/
theorem roundQuotient_eq_or (num den : Nat) :
    roundQuotient num den = num / den ∨ roundQuotient num den = num / den + 1 := by
  have hparity := Nat.mod_two_eq_zero_or_one (num / den)
  unfold roundQuotient
  grind

theorem le_roundQuotient (num den : Nat) : num / den ≤ roundQuotient num den := by
  rcases roundQuotient_eq_or num den with h | h
  · exact Nat.le_of_eq h.symm
  · rw [h]
    exact Nat.le_succ _

theorem roundQuotient_le {num den q : Nat} (hden : 0 < den) (h : num < q * den) :
    roundQuotient num den ≤ q := by
  have hdiv : num / den < q := (Nat.div_lt_iff_lt_mul hden).mpr h
  rcases roundQuotient_eq_or num den with h | h
  · rw [h]
    exact Nat.le_of_lt hdiv
  · rw [h]
    exact hdiv

end GatedNetwork.Decimal
