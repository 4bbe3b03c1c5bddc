import GatedNetwork.Proofs.Double

/-!
# Operations that do not round

A sum, difference, product or quotient whose exact value has at most 53 binary places is computed without
rounding: the result stands for the exact value, sign included.

* `Denotes` — a finite double stands for a rational number
* `Representable` — some double stands for the number
* `Denotes.add`, `Denotes.sub`, `Denotes.mul`, `Denotes.div`, `denotes_ofWord` — the operations
-/

namespace GatedNetwork

open Float.Model Float.Model.UnpackedFloat

namespace Double

/-! ## Numbers with a sign -/

/-- A number from its sign and its absolute value. -/
def signed : Sign → ℚ → ℚ
  | .negative, q => -q
  | .positive, q => q

theorem signed_zero (s : Sign) : signed s 0 = 0 := by
  cases s
  · exact neg_zero
  · rfl

theorem signed_neg (s : Sign) (q : ℚ) : signed (-s) q = -signed s q := by
  cases s
  · exact (neg_neg q).symm
  · rfl

theorem signed_mul (s t : Sign) (p q : ℚ) : signed (s * t) (p * q) = signed s p * signed t q := by
  cases s <;> cases t
  · exact (neg_mul_neg p q).symm
  · exact (neg_mul p q).symm
  · exact (mul_neg p q).symm
  · rfl

theorem signed_div (s t : Sign) (p q : ℚ) : signed (s / t) (p / q) = signed s p / signed t q := by
  cases s <;> cases t
  · exact (neg_div_neg_eq p q).symm
  · exact (neg_div q p).symm
  · exact (div_neg p).symm
  · rfl

theorem abs_signed (s : Sign) {q : ℚ} (h : 0 ≤ q) : |signed s q| = q := by
  cases s
  · exact (abs_neg q).trans (abs_of_nonneg h)
  · exact abs_of_nonneg h

theorem signed_eq_apply (s : Sign) (m : Nat) (e : Int) :
    signed s (m * 2 ^ e) = (s.apply m : ℤ) * 2 ^ e := by
  cases s <;> simp [signed, Sign.apply]

/-- The number that a finite double stands for. -/
def number (x : Double) : ℚ := signed x.sign x.value

/-- A finite double stands for the number `q`. -/
def Denotes (x : Double) (q : ℚ) : Prop := x.isFinite = true ∧ x.number = q

/-- A number in the form of doubles is packed into a double that stands for it. -/
theorem denotes_ofMantissa {s : Sign} {m : Nat} {e : Int} (h : Fits m e) :
    (ofUnpacked (ofMantissa s m e)).Denotes (signed s (m * 2 ^ e)) := by
  obtain ⟨hfinite, hvalue⟩ := value_ofMantissa (s := s) h
  refine ⟨hfinite, ?_⟩
  rw [number, sign_ofMantissa, hvalue]

theorem denotes_zero (s : Sign) : (ofUnpacked (.zero s)).Denotes 0 := by
  have h := denotes_ofMantissa (s := s) (m := 0) (e := -1074)
    ⟨by decide, le_rfl, by decide, .inr rfl⟩
  rwa [Nat.cast_zero, zero_mul, signed_zero] at h

/-- A double without a sign stands for what is decoded from it. -/
theorem denotes_of_decode {x : Double} {q : ℚ} {m : ℕ} {e : ℤ} (hfinite : x.isFinite = true)
    (hpositive : x.isNegative = false) (hdecode : x.decode = (m, e)) (hq : (m : ℚ) * 2 ^ e = q) :
    x.Denotes q := by
  refine ⟨hfinite, ?_⟩
  rw [number, sign, hpositive, value, hdecode]
  exact hq

theorem denotes_one : (1 : Double).Denotes 1 :=
  denotes_of_decode (m := 2 ^ 52) (e := -52) (by decide) (by decide) (by decide) (by norm_num)

/-! ## Rounding a number that has a double -/

/-- Numbers that a double stands for: 53 binary places at an exponent within range. -/
def Representable (q : ℚ) : Prop :=
  ∃ (m : ℕ) (e : ℤ), m < 2 ^ 53 ∧ -1074 ≤ e ∧ e ≤ 971 ∧ |q| = m * 2 ^ e

theorem representable_signed {s : Sign} {q : ℚ} (h : 0 ≤ q) :
    Representable (signed s q) ↔ Representable q := by
  unfold Representable
  rw [abs_signed s h, abs_of_nonneg h]

/-- A number that a double stands for is not rounded to infinity. -/
theorem Representable.lt_limit {q : ℚ} (h : Representable q) : |q| < limit := by
  obtain ⟨m, e, hm, -, he, hq⟩ := h
  have hm : (m : ℚ) + 1 ≤ 2 ^ 53 := by exact_mod_cast hm
  have hpow : (2 : ℚ) ^ e ≤ 2 ^ (971 : ℤ) := zpow_le_zpow_right₀ one_le_two he
  have hpos : (0 : ℚ) < 2 ^ 970 := by positivity
  calc |q| = m * 2 ^ e := hq
    _ ≤ (2 ^ 53 - 1) * 2 ^ (971 : ℤ) := by
      refine mul_le_mul (by linarith) hpow (two_zpow_pos e).le ?_
      linarith [m.cast_nonneg (α := ℚ)]
    _ < (2 ^ 54 - 1) * 2 ^ 970 := by
      rw [two_zpow_971]
      generalize (2 : ℚ) ^ 970 = p at hpos
      linarith
    _ = limit := limit_eq.symm

/-- Steps at one exponent, counted in steps at a lower one. -/
theorem two_zpow_of_le {a b : ℤ} (h : a ≤ b) :
    (2 : ℚ) ^ b = ((2 ^ (b - a).toNat : ℕ) : ℚ) * 2 ^ a := by
  rw [Nat.cast_pow, Nat.cast_ofNat, ← zpow_natCast, ← zpow_add₀ two_ne_zero,
    Int.toNat_of_nonneg (by omega), sub_add_cancel]

/-- The places that rounding drops from such a number are zeros. -/
theorem roundedAt_of_representable {m : Nat} {e : Int} (hwide : e ≤ placesExponent m e)
    (h : Representable (m * 2 ^ e)) :
    (roundedAt m e : ℚ) * 2 ^ placesExponent m e = m * 2 ^ e := by
  obtain ⟨k, f, hk, hf, -, heq⟩ := h
  rw [abs_of_nonneg (mul_nonneg m.cast_nonneg (two_zpow_pos e).le)] at heq
  rcases Nat.eq_zero_or_pos m with rfl | hm
  · rw [roundedAt, Decimal.roundQuotient]
    simp
  · have hbound : (m : ℚ) * 2 ^ e < 2 ^ (53 + f) := by
      rw [heq, zpow_add₀ two_ne_zero]
      refine mul_lt_mul_of_pos_right ?_ (two_zpow_pos f)
      exact_mod_cast hk
    have hplaces : placesExponent m e ≤ f := by
      have := placesExponent_le hm.ne' (by omega) hbound
      omega
    rw [two_zpow_of_le hplaces, ← mul_assoc] at heq
    have hm : m = k * 2 ^ (f - placesExponent m e).toNat * 2 ^ (placesExponent m e - e).toNat := by
      rw [two_zpow_of_le hwide, ← mul_assoc] at heq
      exact_mod_cast mul_right_cancel₀ (two_zpow_pos e).ne' heq
    have hrounded : roundedAt m e = k * 2 ^ (f - placesExponent m e).toNat := by
      rw [roundedAt]
      nth_rewrite 1 [hm]
      exact Decimal.roundQuotient_mul _ (Nat.two_pow_pos _)
    rw [hrounded, heq, Nat.cast_mul]

/-- Rounding finds the double that stands for a number, if there is one. -/
theorem denotes_roundWithAccuracy (s : Sign) {m : Nat} {e : Int} (hwide : e ≤ placesExponent m e)
    (h : Representable (m * 2 ^ e)) :
    (ofUnpacked (roundWithAccuracy Format.binary64 s m e .exact)).Denotes
      (signed s (m * 2 ^ e)) := by
  have hlt := h.lt_limit
  rw [abs_of_nonneg (mul_nonneg m.cast_nonneg (two_zpow_pos e).le)] at hlt
  obtain ⟨hfinite, hvalue⟩ := value_round s hwide hlt
  have hsign : (ofUnpacked (roundWithAccuracy Format.binary64 s m e .exact)).sign = s := by
    rw [roundWithAccuracy_eq]
    split <;> exact sign_ofMantissa s _ _
  refine ⟨hfinite, ?_⟩
  rw [number, hsign, hvalue, roundedAt_of_representable hwide h]

theorem denotes_round (s : Sign) {m : Nat} {e : Int} (hm : 0 < m) (h : Representable (m * 2 ^ e)) :
    (ofUnpacked (UnpackedFloat.round Format.binary64 s m e)).Denotes (signed s (m * 2 ^ e)) := by
  rw [round_eq]
  obtain ⟨k, hk⟩ : ∃ k, (e - placesExponent m e).toNat = k := ⟨_, rfl⟩
  rw [hk]
  have hsame : ((m * 2 ^ k : ℕ) : ℚ) * 2 ^ (e - k) = m * 2 ^ e := by
    rw [two_zpow_of_le (show e - k ≤ e by omega), ← mul_assoc, Nat.cast_mul, sub_sub_cancel,
      Int.toNat_natCast]
  have hwide : e - k ≤ placesExponent (m * 2 ^ k) (e - k) := by
    unfold placesExponent at hk ⊢
    rw [log2_mul_two_pow hm.ne']
    omega
  rw [← hsame]
  exact denotes_roundWithAccuracy s hwide (hsame ▸ h)

/-- A whole number of steps is packed into a double that stands for it, if there is one. -/
theorem denotes_normalize {k : Int} {e : Int} (h : Representable (k * 2 ^ e)) :
    (ofUnpacked (UnpackedFloat.normalize Format.binary64 k e .positive)).Denotes (k * 2 ^ e) := by
  rw [UnpackedFloat.normalize]
  rcases lt_trichotomy k 0 with hneg | rfl | hpos
  · obtain ⟨m, hm⟩ := Int.eq_ofNat_of_zero_le (Int.neg_nonneg_of_nonpos hneg.le)
    have hsigned : (k : ℚ) * 2 ^ e = signed .negative (m * 2 ^ e) := by
      rw [signed_eq_apply, Sign.apply, ← hm, neg_neg]
    rw [compare_lt_iff_lt.mpr hneg, hm, Int.toNat_natCast]
    rw [hsigned] at h ⊢
    exact denotes_round .negative (by omega) ((representable_signed (by positivity)).mp h)
  · rw [compare_eq_iff_eq.mpr rfl, Int.cast_zero, zero_mul]
    exact denotes_zero .positive
  · obtain ⟨m, rfl⟩ := Int.eq_ofNat_of_zero_le hpos.le
    rw [compare_gt_iff_gt.mpr hpos, Int.toNat_natCast]
    exact denotes_round .positive (by omega) h

/-! ## Sums and differences -/

/-- A number in steps at a lower exponent. -/
theorem signed_eq_shiftLeft (s : Sign) (m : Nat) {a e : Int} (h : a ≤ e) :
    signed s (m * 2 ^ e) = (s.apply (m <<< (e - a).toNat : ℕ) : ℤ) * 2 ^ a := by
  rw [← signed_eq_apply, Nat.shiftLeft_eq, Nat.cast_mul, mul_assoc, ← two_zpow_of_le h]

theorem denotes_addUnpacked {s t : Sign} {m m' : Nat} {e e' : Int} (h : Fits m e) (h' : Fits m' e')
    (hsum : Representable (signed s (m * 2 ^ e) + signed t (m' * 2 ^ e'))) :
    (ofUnpacked (UnpackedFloat.add Format.binary64 (ofMantissa s m e) (ofMantissa t m' e'))).Denotes
      (signed s (m * 2 ^ e) + signed t (m' * 2 ^ e')) := by
  have hx := denotes_ofMantissa (s := s) h
  have hy := denotes_ofMantissa (s := t) h'
  by_cases hm : m = 0
  · subst hm
    rw [Nat.cast_zero, zero_mul, signed_zero, zero_add, ofMantissa_zero]
    by_cases hm' : m' = 0
    · subst hm'
      rw [Nat.cast_zero, zero_mul, signed_zero, ofMantissa_zero]
      show (ofUnpacked (if s == t then .zero s else .zero .positive)).Denotes 0
      split <;> exact denotes_zero _
    · rw [ofMantissa_of_ne_zero t hm'] at hy ⊢
      exact hy
  · by_cases hm' : m' = 0
    · subst hm'
      rw [Nat.cast_zero, zero_mul, signed_zero, add_zero, ofMantissa_zero]
      rw [ofMantissa_of_ne_zero s hm] at hx ⊢
      exact hx
    · have hadd : UnpackedFloat.add Format.binary64 (ofMantissa s m e) (ofMantissa t m' e') =
          UnpackedFloat.normalize Format.binary64 (s.apply (m <<< (e - min e e').toNat : ℕ) +
            t.apply (m' <<< (e' - min e e').toNat : ℕ)) (min e e') .positive := by
        rw [ofMantissa_of_ne_zero s hm, ofMantissa_of_ne_zero t hm']
        rfl
      rw [signed_eq_shiftLeft s m (min_le_left e e'), signed_eq_shiftLeft t m' (min_le_right e e'),
        ← add_mul, ← Int.cast_add] at hsum ⊢
      rw [hadd]
      exact denotes_normalize hsum

/-- A sum that some double stands for is computed without rounding. -/
theorem Denotes.add {x y : Double} {p q : ℚ} (hx : x.Denotes p) (hy : y.Denotes q)
    (h : Representable (p + q)) : (x + y).Denotes (p + q) := by
  obtain ⟨hx, rfl⟩ := hx
  obtain ⟨hy, rfl⟩ := hy
  have hadd : x + y = ofUnpacked (UnpackedFloat.add Format.binary64 x.toFloat.toModel.unpack
    y.toFloat.toModel.unpack) := rfl
  rw [hadd, unpack_toFloat hx, unpack_toFloat hy]
  exact denotes_addUnpacked (fits_decode hx) (fits_decode hy) h

/-- Subtracting is adding with the other sign. -/
theorem subUnpacked_eq (u v : UnpackedFloat) :
    UnpackedFloat.sub Format.binary64 u v = UnpackedFloat.add Format.binary64 u v.neg := by
  cases u <;> cases v <;> try rfl
  next s m e hm t m' e' hm' =>
    refine congrArg (fun k => UnpackedFloat.normalize Format.binary64 k (min e e') .positive) ?_
    cases t
    · exact Int.sub_neg _ _
    · exact Int.sub_eq_add_neg

theorem neg_ofMantissa (s : Sign) (m : Nat) (e : Int) :
    (ofMantissa s m e).neg = ofMantissa (-s) m e := by
  by_cases hm : m = 0
  · rw [hm, ofMantissa_zero, ofMantissa_zero]
    rfl
  · rw [ofMantissa_of_ne_zero s hm, ofMantissa_of_ne_zero (-s) hm]
    rfl

/-- A difference that some double stands for is computed without rounding. -/
theorem Denotes.sub {x y : Double} {p q : ℚ} (hx : x.Denotes p) (hy : y.Denotes q)
    (h : Representable (p - q)) : (x - y).Denotes (p - q) := by
  obtain ⟨hx, rfl⟩ := hx
  obtain ⟨hy, rfl⟩ := hy
  have hsub : x - y = ofUnpacked (UnpackedFloat.sub Format.binary64 x.toFloat.toModel.unpack
    y.toFloat.toModel.unpack) := rfl
  have hneg : x.number - y.number = signed x.sign x.value + signed (-y.sign) y.value := by
    rw [signed_neg, ← sub_eq_add_neg]
    rfl
  rw [hsub, unpack_toFloat hx, unpack_toFloat hy, subUnpacked_eq, neg_ofMantissa]
  rw [hneg] at h ⊢
  exact denotes_addUnpacked (fits_decode hx) (fits_decode hy) h

/-! ## Products and quotients -/

theorem denotes_mulUnpacked {s t : Sign} {m m' : Nat} {e e' : Int} (h : Fits m e) (h' : Fits m' e')
    (hproduct : Representable (m * 2 ^ e * (m' * 2 ^ e'))) :
    (ofUnpacked (UnpackedFloat.mul Format.binary64 (ofMantissa s m e) (ofMantissa t m' e'))).Denotes
      (signed s (m * 2 ^ e) * signed t (m' * 2 ^ e')) := by
  have hvalue : (m : ℚ) * 2 ^ e * (m' * 2 ^ e') = (m * m' : ℕ) * 2 ^ (e + e') := by
    rw [zpow_add₀ two_ne_zero, Nat.cast_mul, mul_mul_mul_comm]
  rw [← signed_mul, mul_ofMantissa]
  rw [hvalue] at hproduct ⊢
  split
  · next hzero =>
    rw [hzero, Nat.cast_zero, zero_mul, signed_zero]
    exact denotes_zero (s * t)
  · next hne =>
    obtain ⟨hm, hm'⟩ := Nat.mul_ne_zero_iff.mp hne
    exact denotes_roundWithAccuracy (s * t) (h.mul h' hm hm') hproduct

/-- A product that some double stands for is computed without rounding. -/
theorem Denotes.mul {x y : Double} {p q : ℚ} (hx : x.Denotes p) (hy : y.Denotes q)
    (h : Representable (p * q)) : (x * y).Denotes (p * q) := by
  obtain ⟨hx, rfl⟩ := hx
  obtain ⟨hy, rfl⟩ := hy
  have hmul : x * y = ofUnpacked (UnpackedFloat.mul Format.binary64 x.toFloat.toModel.unpack
    y.toFloat.toModel.unpack) := rfl
  rw [number, number, ← signed_mul,
    representable_signed (mul_nonneg x.value_nonneg y.value_nonneg)] at h
  rw [hmul, unpack_toFloat hx, unpack_toFloat hy]
  exact denotes_mulUnpacked (fits_decode hx) (fits_decode hy) h

/-- The exponent at which a quotient is truncated. -/
def quotientExponent (m : Nat) (e : Int) (m' : Nat) (e' : Int) : Int :=
  min (e - e') (max ((m.log2 : Int) + e - (m'.log2 + e') - 53) (-1074))

/-- A quotient without a remainder. -/
theorem divCore_of_mul_eq {m m' n : Nat} {e e' : Int} (hm' : 0 < m')
    (h : m * 2 ^ (e - e' - quotientExponent m e m' e').toNat = n * m') :
    divCore Format.binary64 m e m' e' = (n, quotientExponent m e m' e', .exact) := by
  have htarget : min (e - e')
      (Format.binary64.targetExponent (totalExponent m e - totalExponent m' e')) =
        quotientExponent m e m' e' := by
    have hbits : (Format.binary64.mantissaBits : Int) = 53 := rfl
    have hmin : Format.binary64.minExponent = -1074 := rfl
    unfold Format.targetExponent totalExponent quotientExponent
    rw [hbits, hmin]
    omega
  rw [divCore, htarget, Nat.shiftLeft_eq, h, Nat.mul_div_cancel n hm', Nat.mul_mod_left,
    accuracyOfFraction, if_pos rfl]

theorem two_zpow_log2_le {m : Nat} (hm : 0 < m) (e : Int) :
    (2 : ℚ) ^ ((m.log2 : Int) + e) ≤ m * 2 ^ e := by
  rw [zpow_add₀ two_ne_zero, zpow_natCast]
  exact mul_le_mul_of_nonneg_right (by exact_mod_cast Nat.log2_self_le hm.ne') (two_zpow_pos e).le

/-- A number of 53 places cannot lie far below a quotient. -/
theorem le_of_eq_mul {m m' k : Nat} {e e' f : Int} (hm : 0 < m) (hm' : 0 < m') (hk : k < 2 ^ 53)
    (h : (m : ℚ) * 2 ^ e = k * 2 ^ f * (m' * 2 ^ e')) :
    (m.log2 : Int) + e - (m'.log2 + e') - 53 ≤ f := by
  have hlt : (2 : ℚ) ^ ((m.log2 : Int) + e) < 2 ^ (53 + f + (m'.log2 + 1 + e')) := by
    refine (two_zpow_log2_le hm e).trans_lt ?_
    have hk : (k : ℚ) < 2 ^ (53 : ℤ) := by exact_mod_cast hk
    have hm' : (m' : ℚ) < 2 ^ ((m'.log2 : ℤ) + 1) := by exact_mod_cast Nat.lt_log2_self (n := m')
    rw [h, zpow_add₀ two_ne_zero, zpow_add₀ two_ne_zero 53, zpow_add₀ two_ne_zero _ e']
    have hf := two_zpow_pos f
    have he' := two_zpow_pos e'
    exact mul_lt_mul'' (mul_lt_mul_of_pos_right hk hf) (mul_lt_mul_of_pos_right hm' he')
      (by positivity) (by positivity)
  have hexponents := (zpow_lt_zpow_iff_right₀ one_lt_two).mp hlt
  omega

/-- A quotient that has enough places before its division has 53 places after it. -/
theorem log2_of_mul_eq {m m' n j : Nat} (hm : 0 < m) (h : m * 2 ^ j = n * m')
    (hj : m'.log2 + 53 ≤ m.log2 + j) : 52 ≤ n.log2 := by
  have hn : n ≠ 0 := by
    rintro rfl
    rw [Nat.zero_mul] at h
    exact (Nat.mul_pos hm (Nat.two_pow_pos j)).ne' h
  have hlt : 2 ^ 52 * 2 ^ (m'.log2 + 1) < n * 2 ^ (m'.log2 + 1) :=
    calc 2 ^ 52 * 2 ^ (m'.log2 + 1) = 2 ^ (m'.log2 + 53) := by
          rw [← Nat.pow_add]
          congr 1
          omega
      _ ≤ 2 ^ (m.log2 + j) := Nat.pow_le_pow_right (by decide) hj
      _ ≤ m * 2 ^ j := by
          rw [Nat.pow_add]
          exact Nat.mul_le_mul_right _ (Nat.log2_self_le hm.ne')
      _ = n * m' := h
      _ < n * 2 ^ (m'.log2 + 1) :=
          Nat.mul_lt_mul_of_pos_left Nat.lt_log2_self (Nat.pos_of_ne_zero hn)
  exact (Nat.le_log2 hn).mpr (Nat.lt_of_mul_lt_mul_right hlt).le

/-- Truncating drops nothing of a quotient that has a double, and keeps enough places. -/
theorem quotient_exact {m m' : Nat} {e e' a : Int} (hm : 0 < m) (hm' : 0 < m')
    (h : Representable (m * 2 ^ e / (m' * 2 ^ e'))) (ha : quotientExponent m e m' e' = a) :
    ∃ n : ℕ, m * 2 ^ (e - e' - a).toNat = n * m' ∧ a ≤ placesExponent n a ∧
      (n : ℚ) * 2 ^ a = m * 2 ^ e / (m' * 2 ^ e') := by
  obtain ⟨k, f, hk, hf, -, heq⟩ := h
  have hdivisor : (0 : ℚ) < m' * 2 ^ e' := mul_pos (by exact_mod_cast hm') (two_zpow_pos e')
  rw [abs_of_nonneg (div_nonneg (by positivity) hdivisor.le)] at heq
  have hproduct := (div_eq_iff hdivisor.ne').mp heq
  have hlow := le_of_eq_mul hm hm' hk hproduct
  unfold quotientExponent at ha
  have hnumber : ((k * 2 ^ (f - a).toNat : ℕ) : ℚ) * 2 ^ a = k * 2 ^ f := by
    rw [two_zpow_of_le (show a ≤ f by omega), ← mul_assoc, Nat.cast_mul]
  have hwhole : m * 2 ^ (e - e' - a).toNat = k * 2 ^ (f - a).toNat * m' := by
    have hshift : (2 : ℚ) ^ e = ((2 ^ (e - e' - a).toNat : ℕ) : ℚ) * 2 ^ a * 2 ^ e' := by
      rw [← two_zpow_of_le (show a ≤ e - e' by omega), ← zpow_add₀ two_ne_zero, sub_add_cancel]
    have hunit : (2 : ℚ) ^ a * 2 ^ e' ≠ 0 := (mul_pos (two_zpow_pos a) (two_zpow_pos e')).ne'
    have hcancel : ((m * 2 ^ (e - e' - a).toNat : ℕ) : ℚ) = (k * 2 ^ (f - a).toNat * m' : ℕ) := by
      refine mul_right_cancel₀ hunit ?_
      calc ((m * 2 ^ (e - e' - a).toNat : ℕ) : ℚ) * (2 ^ a * 2 ^ e') = m * 2 ^ e := by
            rw [hshift]
            push_cast
            ring
        _ = (k * 2 ^ (f - a).toNat : ℕ) * 2 ^ a * (m' * 2 ^ e') := by rw [hnumber, hproduct]
        _ = (k * 2 ^ (f - a).toNat * m' : ℕ) * (2 ^ a * 2 ^ e') := by
            push_cast
            ring
    exact_mod_cast hcancel
  refine ⟨k * 2 ^ (f - a).toNat, hwhole, ?_, hnumber.trans heq.symm⟩
  unfold placesExponent
  rcases le_or_gt a (-1074) with htiny | htiny
  · exact htiny.trans (le_max_right _ _)
  · have hlog := log2_of_mul_eq hm hwhole (by omega)
    omega

theorem denotes_divUnpacked {s t : Sign} {m m' : Nat} {e e' : Int} (hm' : m' ≠ 0)
    (hquotient : Representable (m * 2 ^ e / (m' * 2 ^ e'))) :
    (ofUnpacked (UnpackedFloat.div Format.binary64 (ofMantissa s m e) (ofMantissa t m' e'))).Denotes
      (signed s (m * 2 ^ e) / signed t (m' * 2 ^ e')) := by
  rw [← signed_div]
  by_cases hm : m = 0
  · subst hm
    rw [Nat.cast_zero, zero_mul, zero_div, signed_zero, ofMantissa_zero, ofMantissa_of_ne_zero t hm']
    exact denotes_zero _
  · have hpos := Nat.pos_of_ne_zero hm'
    obtain ⟨n, hwhole, hwide, hvalue⟩ := quotient_exact (Nat.pos_of_ne_zero hm) hpos hquotient rfl
    have hdiv : ∀ r, divCore Format.binary64 m e m' e' = r →
        UnpackedFloat.div Format.binary64 (ofMantissa s m e) (ofMantissa t m' e') =
          roundWithAccuracy Format.binary64 (s / t) r.1 r.2.1 r.2.2 := by
      rintro _ rfl
      rw [ofMantissa_of_ne_zero s hm, ofMantissa_of_ne_zero t hm']
      rfl
    rw [hdiv _ (divCore_of_mul_eq hpos hwhole)]
    rw [← hvalue] at hquotient ⊢
    exact denotes_roundWithAccuracy (s / t) hwide hquotient

/-- A quotient that some double stands for is computed without rounding. -/
theorem Denotes.div {x y : Double} {p q : ℚ} (hx : x.Denotes p) (hy : y.Denotes q) (hq : q ≠ 0)
    (h : Representable (p / q)) : (x / y).Denotes (p / q) := by
  obtain ⟨hx, rfl⟩ := hx
  obtain ⟨hy, rfl⟩ := hy
  have hdiv : x / y = ofUnpacked (UnpackedFloat.div Format.binary64 x.toFloat.toModel.unpack
    y.toFloat.toModel.unpack) := rfl
  have hmantissa : y.decode.1 ≠ 0 := by
    intro hzero
    rw [number, value, hzero, Nat.cast_zero, zero_mul, signed_zero] at hq
    exact hq rfl
  rw [number, number, ← signed_div,
    representable_signed (div_nonneg x.value_nonneg y.value_nonneg)] at h
  rw [hdiv, unpack_toFloat hx, unpack_toFloat hy]
  exact denotes_divUnpacked hmantissa h

/-! ## Whole numbers -/

/-- A word of at most 53 places is kept. -/
theorem denotes_ofWord {n : UInt64} (h : Representable n.toNat) : (ofWord n).Denotes n.toNat := by
  have hword : ofWord n =
      ofUnpacked (UnpackedFloat.normalize Format.binary64 (n.toNat : Int) 0 .positive) := rfl
  have hnumber : ((n.toNat : Int) : ℚ) * 2 ^ (0 : Int) = n.toNat := by
    rw [zpow_zero, mul_one, Int.cast_natCast]
  rw [← hnumber] at h ⊢
  rw [hword]
  exact denotes_normalize h

end Double

end GatedNetwork
