import GatedNetwork.Decimal.Shortest
import GatedNetwork.Proofs.Double

/-!
# How large shortest decimals are

The shortest decimal of a double has at most seventeen digits, and it lies in the interval of the
numbers that round to the double. No shortest decimal is larger than that of the largest double.

* `lt_leadingExponent` — the estimate of the leading exponent is never too low
* `shortest_spec` — bounds on coefficient and value of a shortest decimal
* `value_shortest_le` — one bound for all of them
-/

namespace GatedNetwork

/-- A power with a whole exponent as a quotient of powers with natural ones. -/
theorem zpow_eq_div (b : ℚ) (z : Int) : b ^ z = b ^ z.toNat / b ^ (-z).toNat := by
  rcases Int.le_total 0 z with hz | hz
  · obtain ⟨n, rfl⟩ := Int.eq_ofNat_of_zero_le hz
    simp
  · obtain ⟨n, hn⟩ := Int.eq_ofNat_of_zero_le (Int.neg_nonneg_of_nonpos hz)
    obtain rfl : z = -n := by omega
    simp

namespace Decimal

/-- The number a decimal stands for. -/
def value (d : Decimal) : ℚ := d.coefficient * 10 ^ d.exponent

theorem normalize_spec (d : Decimal) :
    d.normalize.value = d.value ∧ d.normalize.coefficient ≤ d.coefficient := by
  induction d using normalize.induct with
  | case1 d hz =>
    rw [normalize, dif_pos hz]
    simp [value, hz]
  | case2 d hz hten ih =>
    rw [normalize, dif_neg hz, if_pos hten]
    obtain ⟨hvalue, hle⟩ := ih
    refine ⟨hvalue.trans ?_, hle.trans (Nat.div_le_self _ _)⟩
    have hdiv : d.coefficient / 10 * 10 = d.coefficient := by omega
    unfold value
    conv_rhs => rw [← hdiv]
    rw [zpow_add_one₀ (by norm_num)]
    push_cast
    ring
  | case3 d hz hten =>
    rw [normalize, dif_neg hz, if_neg hten]
    exact ⟨rfl, le_rfl⟩

/-! ## The leading exponent -/

theorem reaches_iff {num den : Nat} (hden : 0 < den) (e : Int) :
    den * Nat.pow 10 e.toNat ≤ num * Nat.pow 10 (-e).toNat ↔ (10 : ℚ) ^ e ≤ num / den := by
  have hden : (0 : ℚ) < den := by exact_mod_cast hden
  rw [zpow_eq_div, div_le_div_iff₀ (by positivity) hden]
  simp only [Nat.pow_eq]
  rw [mul_comm den]
  exact_mod_cast Iff.rfl

/-- The estimate by binary logarithms is at most one too low. -/
theorem two_zpow_le_estimate {a : Int} (hlow : -1100 ≤ a) (hhigh : a < 1100) :
    (2 : ℚ) ^ (a + 1) ≤ 10 ^ (a * 30103 / 100000 + 2) := by
  -- of all logarithms with one estimate, the largest decides
  have hall : ∀ i : Nat, i < 663 →
      2 ^ ((((i : Int) - 331) * 100000 - 1) / 30103 + 1).toNat *
        10 ^ (-((i : Int) - 330)).toNat ≤
      10 ^ ((i : Int) - 330).toNat *
        2 ^ (-((((i : Int) - 331) * 100000 - 1) / 30103 + 1)).toNat := by
    decide +kernel
  have hlargest := hall (a * 30103 / 100000 + 332).toNat (by omega)
  have hi : (((a * 30103 / 100000 + 332).toNat : ℕ) : Int) = a * 30103 / 100000 + 332 := by omega
  have hestimate : a * 30103 / 100000 + 332 - 330 = a * 30103 / 100000 + 2 := by omega
  rw [hi, hestimate] at hlargest
  have hle : a ≤ ((a * 30103 / 100000 + 332 - 331) * 100000 - 1) / 30103 := by omega
  refine (zpow_le_zpow_right₀ one_le_two (Int.add_le_add_right hle 1)).trans ?_
  rw [zpow_eq_div 2, zpow_eq_div 10, div_le_div_iff₀ (by positivity) (by positivity)]
  exact_mod_cast hlargest

/-- The leading exponent is not too low. -/
theorem lt_leadingExponent {num den : Nat} (hden : 0 < den)
    (hlow : -1100 ≤ (num.log2 : Int) - den.log2) (hhigh : (num.log2 : Int) - den.log2 < 1100) :
    (num : ℚ) / den < 10 ^ (leadingExponent num den + 1) := by
  have hden' : (0 : ℚ) < den := by exact_mod_cast hden
  have hbinary : (num : ℚ) / den < 2 ^ ((num.log2 : Int) - den.log2 + 1) := by
    rw [div_lt_iff₀ hden', show (num.log2 : Int) - den.log2 + 1 = (num.log2 : Int) + 1 - den.log2 by
      omega, zpow_sub₀ two_ne_zero, div_mul_eq_mul_div, lt_div_iff₀ (by positivity)]
    have hnum := Nat.lt_log2_self (n := num)
    have hself := Nat.log2_self_le hden.ne'
    have hmul : num * 2 ^ den.log2 < 2 ^ (num.log2 + 1) * den :=
      Nat.mul_lt_mul_of_lt_of_le hnum hself hden
    exact_mod_cast hmul
  have hestimate := two_zpow_le_estimate hlow hhigh
  unfold leadingExponent
  simp only [decide_eq_true_eq, reaches_iff hden]
  split
  · rw [add_assoc]
    exact hbinary.trans_le hestimate
  · next hnext =>
    split
    · exact lt_of_not_ge hnext
    · next hnot =>
      rw [sub_add_cancel]
      exact lt_of_not_ge hnot

end Decimal

namespace Double

/-! ## Decimals in an interval -/

variable {i : Interval} {d : Decimal} {e : Int} {x : Double}

/-- What lies in an interval is not beyond its end. -/
theorem Interval.value_le_of_contains (hunit : 0 < i.unit.2) (h : i.contains d = true) :
    d.value ≤ i.high * (i.unit.1 / i.unit.2) := by
  have hnat : d.coefficient * 10 ^ d.exponent.toNat * i.unit.2 ≤
      i.high * (i.unit.1 * 10 ^ (-d.exponent).toNat) := by
    simp only [Interval.contains, Nat.pow_eq] at h
    split at h
    · rw [Bool.and_eq_true, decide_eq_true_eq, decide_eq_true_eq] at h
      exact h.2
    · rw [Bool.and_eq_true, decide_eq_true_eq, decide_eq_true_eq] at h
      exact h.2.le
  have hunit : (0 : ℚ) < i.unit.2 := by exact_mod_cast hunit
  rw [Decimal.value, zpow_eq_div, ← mul_div_assoc, ← mul_div_assoc,
    div_le_div_iff₀ (by positivity) hunit, mul_assoc _ _ ((10 : ℚ) ^ _)]
  exact_mod_cast hnat

/-- The decimal found on a grid is in the interval, and at most one step above the value. -/
theorem Interval.nearestOn?_eq_some (h : i.nearestOn? e = some d) :
    i.contains d = true ∧ d.exponent = e ∧
      d.coefficient ≤ i.value * i.unit.1 * 10 ^ (-e).toNat / (i.unit.2 * 10 ^ e.toNat) + 1 := by
  simp only [Interval.nearestOn?, Nat.pow_eq] at h
  split at h
  · next hbelow habove =>
    cases h
    rcases Decimal.roundQuotient_eq_or (i.value * i.unit.1 * 10 ^ (-e).toNat)
      (i.unit.2 * 10 ^ e.toNat) with hq | hq
    · rw [hq]
      exact ⟨hbelow, rfl, Nat.le_succ _⟩
    · rw [hq]
      exact ⟨habove, rfl, le_rfl⟩
  · next hbelow _ =>
    cases h
    exact ⟨hbelow, rfl, Nat.le_succ _⟩
  · next _ habove =>
    cases h
    exact ⟨habove, rfl, le_rfl⟩
  · cases h

/-- The search ends on one of its grids, or with nothing. -/
theorem Interval.search_eq_or (i : Interval) (e : Int) (count : Nat) :
    i.search e count = ⟨0, 0⟩ ∨
      ∃ k < count, i.nearestOn? (e - k) = some (i.search e count) := by
  induction count generalizing e with
  | zero => exact .inl rfl
  | succ count ih =>
    rw [Interval.search]
    cases hd : i.nearestOn? e with
    | some d =>
      refine .inr ⟨0, Nat.succ_pos _, ?_⟩
      rw [Nat.cast_zero, sub_zero, hd]
      rfl
    | none =>
      rw [Option.getD_none]
      refine (ih (e - 1)).imp_right fun ⟨k, hk, hfound⟩ => ⟨k + 1, Nat.succ_lt_succ hk, ?_⟩
      rw [← hfound]
      congr 1
      omega

/-- What a search finds that starts at the leading digit or above. -/
theorem Interval.search_spec (hunit : 0 < i.unit.2)
    (hlead : (i.value : ℚ) * i.unit.1 / i.unit.2 < 10 ^ (e + 1)) :
    (i.search e 17).coefficient ≤ 10 ^ 17 ∧
      (i.search e 17).value ≤ i.high * (i.unit.1 / i.unit.2) := by
  rcases i.search_eq_or e 17 with hnone | ⟨k, hk, hfound⟩
  · rw [hnone]
    refine ⟨Nat.zero_le _, ?_⟩
    rw [Decimal.value, Nat.cast_zero, zero_mul]
    exact mul_nonneg (Nat.cast_nonneg _) (div_nonneg (Nat.cast_nonneg _) (Nat.cast_nonneg _))
  · obtain ⟨hcontains, -, hle⟩ := nearestOn?_eq_some hfound
    refine ⟨hle.trans (Nat.succ_le_of_lt ?_), value_le_of_contains hunit hcontains⟩
    have hunit' : (0 : ℚ) < i.unit.2 := by exact_mod_cast hunit
    rw [Nat.div_lt_iff_lt_mul (by positivity)]
    -- the grid is at most sixteen places below the leading digit
    have hgrid : (10 : ℚ) ^ (e + 1) ≤ 10 ^ (e - k) * 10 ^ 17 := by
      rw [← zpow_natCast (10 : ℚ) 17, ← zpow_add₀ (by norm_num)]
      exact zpow_le_zpow_right₀ (by norm_num) (by omega)
    have hvalue := hlead.trans_le hgrid
    rw [zpow_eq_div, div_mul_eq_mul_div, div_lt_div_iff₀ hunit' (by positivity)] at hvalue
    have hnat : i.value * i.unit.1 * 10 ^ (-(e - k)).toNat <
        10 ^ (e - k).toNat * 10 ^ 17 * i.unit.2 := by exact_mod_cast hvalue
    refine hnat.trans_eq ?_
    ring

/-! ## Shortest decimals -/

/-- The unit of an interval is a quarter of the last binary place. -/
theorem unit_interval (x : Double) :
    0 < x.interval.unit.2 ∧
      (x.interval.unit.1 : ℚ) / x.interval.unit.2 = 2 ^ (x.decode.2 - 2) := by
  refine ⟨Nat.pow_pos two_pos, ?_⟩
  rw [zpow_eq_div, neg_sub]
  simp only [interval, Nat.pow_eq]
  push_cast
  rfl

/-- The value is within the range of the estimate. -/
theorem lt_leadingExponent_interval (hx : x.isFinite = true) (hm : x.decode.1 ≠ 0) :
    (x.interval.value : ℚ) * x.interval.unit.1 / x.interval.unit.2 <
      10 ^ (Decimal.leadingExponent (x.interval.value * x.interval.unit.1) x.interval.unit.2
        + 1) := by
  obtain ⟨hlt, hleast, hmost, -⟩ := fits_decode hx
  have hlog : (x.interval.value * x.interval.unit.1).log2 =
      x.decode.1.log2 + 2 + (x.decode.2 - 2).toNat := by
    have hpow : x.interval.value * x.interval.unit.1 =
        x.decode.1 * 2 ^ (2 + (x.decode.2 - 2).toNat) := by
      rw [Nat.pow_add]
      simp only [interval, Nat.pow_eq]
      ring
    rw [hpow, log2_mul_two_pow hm, Nat.add_assoc]
  have hunit : x.interval.unit.2.log2 = (2 - x.decode.2).toNat := Nat.log2_two_pow
  have hbits : x.decode.1.log2 < 53 := (Nat.log2_lt hm).mpr hlt
  rw [← Nat.cast_mul]
  refine Decimal.lt_leadingExponent (unit_interval x).1 ?_ ?_
  · rw [hlog, hunit]
    omega
  · rw [hlog, hunit]
    omega

/-- A shortest decimal has few digits, and is not above the numbers that round to its double. -/
theorem shortest_spec (hx : x.isFinite = true) :
    x.shortest.coefficient ≤ 10 ^ 17 ∧
      x.shortest.value ≤ (2 * x.decode.1 + 1) * 2 ^ (x.decode.2 - 1) := by
  unfold shortest
  split
  · refine ⟨Nat.zero_le _, ?_⟩
    rw [Decimal.value, Nat.cast_zero, zero_mul]
    positivity
  · next hm =>
    obtain ⟨hpos, hunit⟩ := unit_interval x
    obtain ⟨hcoefficient, hvalue⟩ :=
      Interval.search_spec hpos (lt_leadingExponent_interval hx hm)
    obtain ⟨hnormalize, hle⟩ := Decimal.normalize_spec (x.interval.search
      (Decimal.leadingExponent (x.interval.value * x.interval.unit.1) x.interval.unit.2) 17)
    refine ⟨hle.trans hcoefficient, hnormalize.trans_le (hvalue.trans_eq ?_)⟩
    have hhigh : (x.interval.high : ℚ) = 4 * x.decode.1 + 2 := by
      simp only [interval]
      push_cast
      rfl
    rw [hunit, hhigh, show x.decode.2 - 1 = x.decode.2 - 2 + 1 by omega,
      zpow_add_one₀ two_ne_zero]
    ring

/-- The shortest decimal of the largest double. -/
def largestDecimal : Decimal := ⟨17976931348623157, 292⟩

/-- Only the bits below the sign matter for the shortest decimal. -/
theorem shortest_congr {y : Double} (hfraction : x.fraction = y.fraction)
    (hexponent : x.exponentField = y.exponentField) : x.shortest = y.shortest := by
  have hdecode : x.decode = y.decode := by rw [decode, decode, hfraction, hexponent]
  have hinterval : x.interval = y.interval := by
    rw [interval, interval, hdecode, hfraction, hexponent]
  rw [shortest, shortest, hdecode, hinterval]

/-- No shortest decimal is larger than that of the largest double. -/
theorem value_shortest_le (hx : x.isFinite = true) :
    x.shortest.value ≤ largestDecimal.value := by
  have hlargest : largestDecimal.value = ((17976931348623157 * 10 ^ 292 : ℕ) : ℚ) := by
    rw [Decimal.value, largestDecimal, Nat.cast_mul, Nat.cast_pow]
    rfl
  obtain ⟨hlt, -, hmost, -⟩ := fits_decode hx
  by_cases htop : x.decode = (2 ^ 53 - 1, 971)
  · have hfields : x.fraction = 2 ^ 52 - 1 ∧ x.exponentField = 2046 := by
      have hfraction : x.fraction < 2 ^ 52 := Nat.mod_lt _ (by decide)
      unfold decode at htop
      split at htop
      · simp at htop
      · rw [Prod.mk.injEq] at htop
        omega
    have hsame : x.shortest = largestDecimal :=
      (shortest_congr (y := ⟨0x7FEFFFFFFFFFFFFF⟩) hfields.1 hfields.2).trans (by decide +kernel)
    rw [hsame]
  · refine (shortest_spec hx).2.trans ?_
    have hnat : (2 ^ 54 - 3) * 2 ^ 970 ≤ 17976931348623157 * 10 ^ 292 := by decide +kernel
    have hbound : (2 * x.decode.1 + 1 : ℚ) * 2 ^ (x.decode.2 - 1) ≤
        ((2 ^ 54 - 3 : ℕ) : ℚ) * 2 ^ (970 : ℤ) := by
      rcases Nat.lt_or_ge x.decode.1 (2 ^ 53 - 1) with hsmall | hfull
      · refine mul_le_mul ?_ (zpow_le_zpow_right₀ one_le_two (by omega)) (by positivity)
          (by positivity)
        exact_mod_cast (by omega : 2 * x.decode.1 + 1 ≤ 2 ^ 54 - 3)
      · -- the mantissa is the largest one, so the exponent is not
        have hexponent : x.decode.2 - 1 ≤ 969 := by
          by_contra hlast
          exact htop (Prod.ext (by simp; omega) (by simp; omega))
        have hmantissa : (2 * x.decode.1 + 1 : ℚ) ≤ ((2 * (2 ^ 54 - 3) : ℕ) : ℚ) := by
          exact_mod_cast (by omega : 2 * x.decode.1 + 1 ≤ 2 * (2 ^ 54 - 3))
        refine (mul_le_mul hmantissa (zpow_le_zpow_right₀ one_le_two hexponent) (by positivity)
          (by positivity)).trans_eq ?_
        rw [show (970 : ℤ) = 969 + 1 from rfl, zpow_add_one₀ two_ne_zero, Nat.cast_mul]
        generalize (2 : ℚ) ^ (969 : ℤ) = p
        rw [Nat.cast_ofNat]
        ring
    refine hbound.trans ?_
    rw [hlargest, show (970 : ℤ) = ((970 : ℕ) : ℤ) from rfl, zpow_natCast]
    exact_mod_cast hnat

end Double

end GatedNetwork
