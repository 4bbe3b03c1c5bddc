import Mathlib.Algebra.Order.Field.Rat
import Mathlib.Algebra.Order.Field.Power
import Mathlib.Tactic.FieldSimp
import Mathlib.Tactic.Linarith
import Mathlib.Tactic.NormNum
import Mathlib.Tactic.Ring
import GatedNetwork.Decimal.Nearest

/-!
# Values of doubles

A finite double stands for a rational number, up to its sign. A product of doubles and a whole number
as a double are found by rounding a value to 53 binary places, to nearest.
-/

namespace GatedNetwork

open Float.Model Float.Model.UnpackedFloat

/-! ## Rounding to 53 binary places -/

/-- Shifting keeps what the bits that are lost amount to: at least a half or not, and whether the rest of
them is zero. -/
theorem shiftRight_exact (m n : Nat) :
    (⟨m, false, false⟩ : ExtendedMantissa) >>> n =
      ⟨m / 2 ^ n, decide (2 ^ n ≤ 2 * (m % 2 ^ n)),
        decide (m % 2 ^ n ≠ 0 ∧ 2 * (m % 2 ^ n) ≠ 2 ^ n)⟩ := by
  induction n with
  | zero => simp [HShiftRight.hShiftRight, Nat.repeat, Nat.mod_one]
  | succ n ih =>
    show ((⟨m, false, false⟩ : ExtendedMantissa) >>> n).shiftRightOne = _
    have hpos : 0 < 2 ^ n := Nat.two_pow_pos n
    have hlt := Nat.mod_lt m hpos
    rw [ih, ExtendedMantissa.shiftRightOne, Nat.mod_pow_succ, Nat.pow_succ,
      ← Nat.div_div_eq_div_mul]
    generalize m % 2 ^ n = r at hlt
    generalize m / 2 ^ n = q
    generalize 2 ^ n = p at hpos hlt
    rcases Nat.mod_two_eq_zero_or_one q with hq | hq
    · congr 1
      · simp [hq]
        omega
      · rw [Bool.eq_iff_iff]
        simp [hq]
        omega
    · congr 1
      · simp [hq]
        omega
      · rw [Bool.eq_iff_iff]
        simp [hq]
        omega

/-- Dropping places rounds to nearest, a tie to the even number. -/
theorem roundedMantissa_shiftRight (m n : Nat) :
    ((⟨m, false, false⟩ : ExtendedMantissa) >>> n).roundedMantissa =
      Decimal.roundQuotient m (2 ^ n) := by
  have hlt := Nat.mod_lt m (Nat.two_pow_pos n)
  rw [shiftRight_exact, Decimal.roundQuotient]
  generalize m % 2 ^ n = r at hlt
  generalize m / 2 ^ n = q
  generalize 2 ^ n = p at hlt
  by_cases hhalf : p ≤ 2 * r
  · by_cases hmore : 2 * r = p
    · rw [if_neg (by omega), if_neg (by omega)]
      simp [hmore, ExtendedMantissa.roundedMantissa, ExtendedMantissa.accuracy,
        Accuracy.roundToNearestEven]
    · rw [if_neg (by omega), if_pos (by omega)]
      have hr : r ≠ 0 := by omega
      simp [hhalf, hmore, hr, ExtendedMantissa.roundedMantissa, ExtendedMantissa.accuracy,
        Accuracy.roundToNearestEven]
  · rw [if_pos (by omega)]
    have hmore : 2 * r ≠ p := by omega
    by_cases hr : r = 0
    · have hp : p ≠ 0 := by omega
      simp [hr, hp, ExtendedMantissa.roundedMantissa, ExtendedMantissa.accuracy,
        Accuracy.roundToNearestEven]
    · simp [hhalf, hmore, hr, ExtendedMantissa.roundedMantissa, ExtendedMantissa.accuracy,
        Accuracy.roundToNearestEven]

/-- The exponent at which a number keeps 53 binary places, or the least one. -/
def placesExponent (m : Nat) (e : Int) : Int := max ((m.log2 : Int) + e - 52) (-1074)

theorem targetExponent_eq (m : Nat) (e : Int) :
    Format.binary64.targetExponent (totalExponent m e) = placesExponent m e := by
  have hbits : (Format.binary64.mantissaBits : Int) = 53 := rfl
  have hmin : Format.binary64.minExponent = -1074 := rfl
  unfold Format.targetExponent totalExponent placesExponent
  rw [hbits, hmin]
  omega

theorem shiftToTargetExponent_eq (m : Nat) (e : Int) :
    shiftToTargetExponent Format.binary64 m e .exact =
      ((⟨m, false, false⟩ : ExtendedMantissa) >>> (placesExponent m e - e).toNat,
        e + (placesExponent m e - e).toNat) := by
  rw [shiftToTargetExponent, targetExponent_eq]
  rfl

/-- A number of at most 53 places is shifted no further. -/
theorem shiftToTargetExponent_of_lt {m : Nat} {e : Int} (hm : m < 2 ^ 53) (he : -1074 ≤ e) :
    shiftToTargetExponent Format.binary64 m e .exact = (⟨m, false, false⟩, e) := by
  have hlog : m.log2 ≤ 52 := by
    by_cases hz : m = 0
    · rw [hz]
      decide
    · exact Nat.le_of_lt_succ ((Nat.log2_lt hz).mpr hm)
  have hshift : (placesExponent m e - e).toNat = 0 := by
    unfold placesExponent
    omega
  rw [shiftToTargetExponent_eq, hshift]
  simp [HShiftRight.hShiftRight, Nat.repeat]

/-- Rounding may carry into a 54th place. -/
theorem shiftToTargetExponent_carry {e : Int} (he : -1074 ≤ e) :
    shiftToTargetExponent Format.binary64 (2 ^ 53) e .exact =
      ((⟨2 ^ 53, false, false⟩ : ExtendedMantissa) >>> 1, e + 1) := by
  have hshift : placesExponent (2 ^ 53) e = e + 1 := by
    unfold placesExponent
    rw [Nat.log2_two_pow]
    omega
  rw [shiftToTargetExponent_eq, hshift, add_sub_cancel_left]
  rfl

/-- The mantissa of a number after rounding, at `placesExponent`. -/
def roundedAt (m : Nat) (e : Int) : Nat :=
  Decimal.roundQuotient m (2 ^ (placesExponent m e - e).toNat)

/-- Rounding to 53 places gives the first number of 54 at most. -/
theorem roundedAt_le (m : Nat) (e : Int) : roundedAt m e ≤ 2 ^ 53 := by
  refine Decimal.roundQuotient_le (Nat.two_pow_pos _) ?_
  have hlog := Nat.lt_log2_self (n := m)
  rw [← Nat.pow_add]
  refine Nat.lt_of_lt_of_le hlog (Nat.pow_le_pow_right (by decide) ?_)
  unfold placesExponent
  omega

/-- The number with a mantissa that may be zero. -/
def ofMantissa (s : Sign) (m : Nat) (e : Int) : UnpackedFloat :=
  if h : m = 0 then .zero s else .finite s m e (Nat.pos_of_ne_zero h)

theorem ofMantissa_zero (s : Sign) (e : Int) : ofMantissa s 0 e = .zero s := dif_pos rfl

theorem ofMantissa_of_ne_zero (s : Sign) {m : Nat} (hm : m ≠ 0) (e : Int) :
    ofMantissa s m e = .finite s m e (Nat.pos_of_ne_zero hm) := dif_neg hm

/-- What rounding gives. -/
theorem roundWithAccuracy_eq (s : Sign) (m : Nat) (e : Int) :
    roundWithAccuracy Format.binary64 s m e .exact =
      if roundedAt m e < 2 ^ 53 then
        ofMantissa s (roundedAt m e) (max e (placesExponent m e))
      else ofMantissa s (2 ^ 52) (max e (placesExponent m e) + 1) := by
  have hexponent : e + (placesExponent m e - e).toNat = max e (placesExponent m e) := by omega
  have hlow : -1074 ≤ max e (placesExponent m e) := by
    unfold placesExponent
    omega
  have hrounded : ((⟨m, false, false⟩ : ExtendedMantissa) >>>
      (placesExponent m e - e).toNat).roundedMantissa = roundedAt m e :=
    roundedMantissa_shiftRight _ _
  have hround : ∀ p q, shiftToTargetExponent Format.binary64 m e .exact = p →
      shiftToTargetExponent Format.binary64 p.1.roundedMantissa p.2 .exact = q →
      roundWithAccuracy Format.binary64 s m e .exact = ofMantissa s q.1.mantissa q.2 := by
    rintro _ _ rfl rfl
    rfl
  have hsecond := hround _ _ (shiftToTargetExponent_eq m e) rfl
  rw [hrounded, hexponent] at hsecond
  by_cases hlt : roundedAt m e < 2 ^ 53
  · rw [hsecond, shiftToTargetExponent_of_lt hlt hlow, if_pos hlt]
  · have hcarry : roundedAt m e = 2 ^ 53 :=
      Nat.le_antisymm (roundedAt_le m e) (Nat.le_of_not_lt hlt)
    rw [hcarry, shiftToTargetExponent_carry hlow] at hsecond
    rw [hsecond, if_neg hlt]
    rfl

namespace Double

/-! ## Fields of packed numbers -/

/-- The double of an unpacked number. -/
def ofUnpacked (u : UnpackedFloat) : Double := ⟨UInt64.ofBitVec (UnpackedFloat.pack Format.binary64 u)⟩

theorem toNat_unpackExponent (x : Double) :
    (@unpackExponent Format.binary64 x.bits.toBitVec).toNat = x.exponentField := by
  simp [unpackExponent, exponentField, Nat.shiftRight_eq_div_pow]

theorem toNat_unpackMantissa (x : Double) :
    (@unpackMantissa Format.binary64 x.bits.toBitVec).toNat = x.fraction := by
  simp [unpackMantissa, fraction]

/-- Packed fields are found again. -/
theorem fields_packComponents (s : Sign) (e : BitVec 11) (m : BitVec 52) :
    (⟨UInt64.ofBitVec (packComponents Format.binary64 s e m)⟩ : Double).exponentField = e.toNat ∧
      (⟨UInt64.ofBitVec (packComponents Format.binary64 s e m)⟩ : Double).fraction = m.toNat := by
  rw [← toNat_unpackExponent, ← toNat_unpackMantissa]
  simp

/-- The sign of a double. -/
def sign (x : Double) : Sign := if x.isNegative then .negative else .positive

theorem unpackSign_eq (b : BitVec 64) : @unpackSign Format.binary64 b = b.extractLsb 63 63 := rfl

theorem unpackSign_eq_zero_iff (x : Double) :
    @unpackSign Format.binary64 x.bits.toBitVec = 0#1 ↔ ¬ x.isNegative = true := by
  have hlt := x.bits.toNat_lt
  rw [unpackSign_eq, isNegative, beq_iff_eq, ← BitVec.toNat_inj, ← UInt64.toNat_inj]
  simp [Nat.shiftRight_eq_div_pow]
  omega

theorem ofBitVec_unpackSign (x : Double) :
    Sign.ofBitVec (@unpackSign Format.binary64 x.bits.toBitVec) = x.sign := by
  unfold Sign.ofBitVec sign
  by_cases hneg : x.isNegative = true
  · rw [if_neg (mt (unpackSign_eq_zero_iff x).mp (not_not_intro hneg)), if_pos hneg]
  · rw [if_pos ((unpackSign_eq_zero_iff x).mpr hneg), if_neg hneg]

theorem sign_packComponents (s : Sign) (e : BitVec 11) (m : BitVec 52) :
    (⟨UInt64.ofBitVec (packComponents Format.binary64 s e m)⟩ : Double).sign = s := by
  have htop : @unpackSign Format.binary64 (packComponents Format.binary64 s e m) = s.toBitVec := by
    rw [unpackSign_eq, packComponents, BitVec.extractLsb, BitVec.extractLsb'_append_eq_of_le (by decide),
      BitVec.extractLsb'_append_eq_of_le (by decide)]
    cases s <;> rfl
  rw [← ofBitVec_unpackSign, htop]
  cases s <;> rfl

/-- Packing keeps the sign, even of a number that is too large. -/
theorem sign_ofMantissa (s : Sign) (m : Nat) (e : Int) :
    (ofUnpacked (ofMantissa s m e)).sign = s := by
  by_cases hm : m = 0
  · rw [hm, ofMantissa_zero]
    exact sign_packComponents s _ _
  · rw [ofMantissa_of_ne_zero s hm]
    unfold ofUnpacked UnpackedFloat.pack
    dsimp only
    split
    · exact sign_packComponents s _ _
    · split <;> exact sign_packComponents s _ _

/-- A mantissa and an exponent in the form in which doubles are kept. -/
structure Fits (m : Nat) (e : Int) : Prop where
  mantissa_lt : m < 2 ^ 53
  least : -1074 ≤ e
  most : e ≤ 971
  full : 2 ^ 52 ≤ m ∨ e = -1074

/-- Packing keeps mantissa and exponent. -/
theorem decode_ofUnpacked {s : Sign} {m : Nat} {e : Int} {hm : 0 < m} (h : Fits m e) :
    (ofUnpacked (.finite s m e hm)).isFinite = true ∧
      (ofUnpacked (.finite s m e hm)).decode = (m, e) := by
  obtain ⟨hlt, hleast, hmost, hfull⟩ := h
  have hpack : UnpackedFloat.pack Format.binary64 (.finite s m e hm) =
      if 2 ^ 11 ≤ (e + 1023 + 52).toNat + 1 then packedInfinity Format.binary64 s
      else if m.log2 + 1 = 53 then
        packComponents Format.binary64 s (BitVec.ofNat 11 (e + 1023 + 52).toNat) (BitVec.ofNat 52 m)
      else packComponents Format.binary64 s 0#11 (BitVec.ofNat 52 m) := rfl
  rw [ofUnpacked, hpack, if_neg (by omega)]
  by_cases hnormal : 2 ^ 52 ≤ m
  · have hlog : m.log2 + 1 = 53 := by
      have hlow := (Nat.le_log2 hm.ne').mpr hnormal
      have hhigh := (Nat.log2_lt hm.ne').mpr hlt
      omega
    rw [if_pos hlog, isFinite, decode]
    obtain ⟨hexponent, hfraction⟩ := fields_packComponents s
      (BitVec.ofNat 11 (e + 1023 + 52).toNat) (BitVec.ofNat 52 m)
    rw [BitVec.toNat_ofNat, Nat.mod_eq_of_lt (by omega)] at hexponent
    rw [BitVec.toNat_ofNat] at hfraction
    rw [hexponent, hfraction, if_neg (by omega)]
    refine ⟨by simp; omega, ?_⟩
    rw [Prod.mk.injEq]
    omega
  · have hlog : ¬m.log2 + 1 = 53 := by
      have hhigh := (Nat.log2_lt hm.ne').mpr (Nat.lt_of_not_le hnormal)
      omega
    rw [if_neg hlog, isFinite, decode]
    obtain ⟨hexponent, hfraction⟩ := fields_packComponents s 0#11 (BitVec.ofNat 52 m)
    rw [BitVec.toNat_ofNat, Nat.zero_mod] at hexponent
    rw [BitVec.toNat_ofNat] at hfraction
    rw [hexponent, hfraction, if_pos rfl]
    refine ⟨rfl, ?_⟩
    rw [Prod.mk.injEq]
    omega

/-- Packing keeps mantissa and exponent, of a zero too. -/
theorem decode_ofMantissa {s : Sign} {m : Nat} {e : Int} (h : Fits m e) :
    (ofUnpacked (ofMantissa s m e)).isFinite = true ∧
      (ofUnpacked (ofMantissa s m e)).decode = (m, e) := by
  by_cases hm : m = 0
  · obtain rfl : e = -1074 := h.full.resolve_left (by simp [hm])
    rw [hm]
    cases s <;> decide
  · rw [ofMantissa, dif_neg hm]
    exact decode_ofUnpacked h

/-- What is decoded is in the form of doubles. -/
theorem fits_decode {x : Double} (hx : x.isFinite = true) : Fits x.decode.1 x.decode.2 := by
  have hfraction : x.fraction < 2 ^ 52 := Nat.mod_lt _ (by decide)
  have hfield : x.exponentField < 2048 := Nat.mod_lt _ (by decide)
  rw [isFinite, bne_iff_ne] at hx
  unfold decode
  split
  · exact ⟨by simp; omega, by simp, by simp, .inr rfl⟩
  · exact ⟨by simp; omega, by simp; omega, by simp; omega, .inl (by simp)⟩

theorem append_toNat (m : BitVec 52) : (1#1 ++ m).toNat = 2 ^ 52 + m.toNat := by
  rw [BitVec.toNat_append, ← Nat.shiftLeft_add_eq_or_of_lt m.isLt]
  rfl

theorem finite_congr {s : Sign} {m m' : Nat} {e e' : Int} {hm : 0 < m} {hm' : 0 < m'}
    (h : m = m') (he : e = e') : UnpackedFloat.finite s m e hm = .finite s m' e' hm' := by
  subst h he
  rfl

/-- Unpacking finds what decoding does. -/
theorem unpack_bits {x : Double} (hx : x.isFinite = true) :
    UnpackedFloat.unpack Format.binary64 x.bits.toBitVec =
      ofMantissa x.sign x.decode.1 x.decode.2 := by
  have hexponent := toNat_unpackExponent x
  have hmantissa := toNat_unpackMantissa x
  rw [isFinite, bne_iff_ne] at hx
  have hones : @unpackExponent Format.binary64 x.bits.toBitVec ≠ -1#_ := by
    intro he
    rw [he] at hexponent
    exact hx hexponent.symm
  have hzero : @unpackExponent Format.binary64 x.bits.toBitVec = 0#_ ↔
      x.exponentField = 0 := by
    rw [← hexponent, ← BitVec.toNat_inj]
    rfl
  have hnone : @unpackMantissa Format.binary64 x.bits.toBitVec = 0#_ ↔
      x.fraction = 0 := by
    rw [← hmantissa, ← BitVec.toNat_inj]
    rfl
  unfold UnpackedFloat.unpack decode
  rw [if_neg hones, ofBitVec_unpackSign]
  by_cases hfield : x.exponentField = 0
  · rw [if_pos (hzero.mpr hfield), if_pos hfield]
    by_cases hfraction : x.fraction = 0
    · rw [dif_pos (hnone.mpr hfraction), ofMantissa, dif_pos hfraction]
    · rw [dif_neg (mt hnone.mp hfraction), ofMantissa, dif_neg hfraction]
      exact finite_congr hmantissa (by rw [hexponent, hfield]; rfl)
  · rw [if_neg (mt hzero.mp hfield), if_neg hfield]
    have happend := append_toNat (@unpackMantissa Format.binary64 x.bits.toBitVec)
    rw [hmantissa] at happend
    rw [ofMantissa, dif_neg (by simp)]
    exact finite_congr happend (by rw [hexponent]; rfl)

/-- A finite double has the same mantissa and exponent as a `Float`. -/
theorem unpack_toFloat {x : Double} (hx : x.isFinite = true) :
    x.toFloat.toModel.unpack = ofMantissa x.sign x.decode.1 x.decode.2 := by
  obtain ⟨hfinite, hdecode⟩ := decode_ofMantissa (s := x.sign) (fits_decode hx)
  have hsign := sign_ofMantissa x.sign x.decode.1 x.decode.2
  rw [← unpack_bits hx] at hfinite hdecode hsign
  have hagain := unpack_bits hfinite
  rw [hsign, hdecode] at hagain
  exact hagain

/-! ## Values -/

/-- The absolute value of a finite double. -/
def value (x : Double) : ℚ := x.decode.1 * 2 ^ x.decode.2

theorem value_nonneg (x : Double) : 0 ≤ x.value := by
  unfold value
  positivity

/-- A packed number has the value of its mantissa and exponent. -/
theorem value_ofMantissa {s : Sign} {m : Nat} {e : Int} (h : Fits m e) :
    (ofUnpacked (ofMantissa s m e)).isFinite = true ∧
      (ofUnpacked (ofMantissa s m e)).value = m * 2 ^ e := by
  obtain ⟨hfinite, hdecode⟩ := decode_ofMantissa (s := s) h
  rw [value, hdecode]
  exact ⟨hfinite, rfl⟩

/-- The middle between the largest double and the next power of two. -/
def limit : Nat := (2 ^ 54 - 1) * 2 ^ 970

theorem limit_eq : (limit : ℚ) = (2 ^ 54 - 1) * 2 ^ 970 := by
  rw [limit, Nat.cast_mul, Nat.cast_pow, Nat.cast_ofNat]
  congr 1
  norm_num

theorem two_zpow_pos (e : Int) : (0 : ℚ) < 2 ^ e := zpow_pos two_pos e

/-- The unit of the largest doubles. -/
theorem two_zpow_971 : (2 : ℚ) ^ (971 : ℤ) = 2 * 2 ^ 970 := by
  rw [show (971 : ℤ) = ((970 + 1 : ℕ) : ℤ) from rfl, zpow_natCast, pow_succ']

theorem log2_mul_two_pow {n : Nat} (hn : n ≠ 0) (k : Nat) : (n * 2 ^ k).log2 = n.log2 + k := by
  rw [Nat.log2_eq_iff (Nat.mul_ne_zero hn (Nat.two_pow_pos k).ne'), Nat.pow_add, Nat.add_right_comm,
    Nat.pow_add _ _ k]
  exact ⟨Nat.mul_le_mul_right _ (Nat.log2_self_le hn),
    Nat.mul_lt_mul_of_pos_right Nat.lt_log2_self (Nat.two_pow_pos k)⟩

/-- Where rounding takes place, there are enough places unless the number is tiny. -/
theorem full_roundedAt {m : Nat} {e : Int} (hwide : e ≤ placesExponent m e) :
    2 ^ 52 ≤ roundedAt m e ∨ placesExponent m e = -1074 := by
  by_cases htiny : placesExponent m e = -1074
  · exact .inr htiny
  · have hexponent : placesExponent m e = (m.log2 : Int) + e - 52 := by
      unfold placesExponent at htiny ⊢
      omega
    have hm : m ≠ 0 := by
      rintro rfl
      unfold placesExponent at htiny hwide
      simp at hwide htiny
      omega
    have hpow : 2 ^ 52 * 2 ^ (placesExponent m e - e).toNat = 2 ^ m.log2 := by
      rw [← Nat.pow_add]
      congr 1
      omega
    refine .inl (le_trans ?_ (Decimal.le_roundQuotient m _))
    rw [Nat.le_div_iff_mul_le (Nat.two_pow_pos _), hpow]
    exact Nat.log2_self_le hm

/-- The exponent of a number below a power of two. -/
theorem placesExponent_le {m : Nat} {e : Int} (hm : m ≠ 0) {k : Int} (hk : -1074 ≤ k - 53)
    (hlt : (m : ℚ) * 2 ^ e < 2 ^ k) : placesExponent m e ≤ k - 53 := by
  have hlow : (2 : ℚ) ^ ((m.log2 : Int) + e) < 2 ^ k := by
    refine lt_of_le_of_lt ?_ hlt
    rw [zpow_add₀ two_ne_zero, zpow_natCast]
    refine mul_le_mul_of_nonneg_right ?_ (two_zpow_pos e).le
    exact_mod_cast Nat.log2_self_le hm
  rw [zpow_lt_zpow_iff_right₀ one_lt_two] at hlow
  unfold placesExponent
  omega

/-- A carry at the largest exponent would have come from a number that is too large. -/
theorem placesExponent_lt_of_carry {m : Nat} {e : Int} (hwide : e ≤ placesExponent m e)
    (hmost : placesExponent m e ≤ 971) (hlt : (m : ℚ) * 2 ^ e < limit)
    (hcarry : roundedAt m e = 2 ^ 53) : placesExponent m e < 971 := by
  refine lt_of_le_of_ne hmost fun hlast => ?_
  have hnear := (Decimal.roundQuotient_near m
    (Nat.two_pow_pos (placesExponent m e - e).toNat)).2
  rw [← roundedAt, hcarry] at hnear
  have hnear : (2 : ℚ) * 2 ^ (placesExponent m e - e).toNat * 2 ^ 53 ≤
      2 * m + 2 ^ (placesExponent m e - e).toNat := by exact_mod_cast hnear
  rw [← zpow_natCast, Int.toNat_of_nonneg (by omega), zpow_sub₀ two_ne_zero, hlast] at hnear
  have hpos := two_zpow_pos e
  have hscaled := mul_le_mul_of_nonneg_right hnear hpos.le
  rw [limit_eq] at hlt
  rw [two_zpow_971] at hscaled
  generalize (2 : ℚ) ^ 970 = p at hlt hscaled
  field_simp at hscaled
  linarith

/-- A number below the limit is rounded to a double. -/
theorem value_round (s : Sign) {m : Nat} {e : Int} (hwide : e ≤ placesExponent m e)
    (hlt : (m : ℚ) * 2 ^ e < limit) :
    (ofUnpacked (roundWithAccuracy Format.binary64 s m e .exact)).isFinite = true ∧
      (ofUnpacked (roundWithAccuracy Format.binary64 s m e .exact)).value =
        roundedAt m e * 2 ^ placesExponent m e := by
  have hleast : -1074 ≤ placesExponent m e := by
    unfold placesExponent
    omega
  have hmost : placesExponent m e ≤ 971 := by
    by_cases hm : m = 0
    · subst hm
      unfold placesExponent at hwide ⊢
      simp at hwide ⊢
      omega
    · refine placesExponent_le (k := 1024) hm (by decide) (lt_trans hlt ?_)
      exact_mod_cast (by decide +kernel : limit < 2 ^ 1024)
  have hfull := full_roundedAt hwide
  rw [roundWithAccuracy_eq, max_eq_right hwide]
  split
  · next hr => exact value_ofMantissa ⟨hr, hleast, hmost, hfull⟩
  · next hr =>
    have hr : roundedAt m e = 2 ^ 53 := Nat.le_antisymm (roundedAt_le m e) (Nat.le_of_not_lt hr)
    have hlast := placesExponent_lt_of_carry hwide hmost hlt hr
    obtain ⟨hfinite, hvalue⟩ := value_ofMantissa (s := s) (m := 2 ^ 52)
      (e := placesExponent m e + 1) ⟨by decide, by omega, by omega, .inl le_rfl⟩
    refine ⟨hfinite, ?_⟩
    rw [hvalue, hr, zpow_add₀ two_ne_zero]
    push_cast
    ring

/-- A number of 53 places or more is not shifted to the left. -/
theorem le_placesExponent {m : Nat} (h : 2 ^ 52 ≤ m) (e : Int) : e ≤ placesExponent m e := by
  have hlog : 52 ≤ m.log2 := (Nat.le_log2 (by omega)).mpr h
  unfold placesExponent
  omega

/-- A product of mantissas has enough places, unless both numbers are tiny. -/
theorem Fits.mul {m m' : Nat} {e e' : Int} (h : Fits m e) (h' : Fits m' e') (hm : m ≠ 0)
    (hm' : m' ≠ 0) : e + e' ≤ placesExponent (m * m') (e + e') := by
  rcases h.full with hfull | htiny
  · exact le_placesExponent (hfull.trans (Nat.le_mul_of_pos_right m (Nat.pos_of_ne_zero hm'))) _
  · rcases h'.full with hfull | htiny'
    · exact le_placesExponent (hfull.trans (Nat.le_mul_of_pos_left m' (Nat.pos_of_ne_zero hm))) _
    · unfold placesExponent
      omega

/-- A product is rounded once, and its sign is that of the factors even if it is zero. -/
theorem mul_ofMantissa (s t : Sign) (m m' : Nat) (e e' : Int) :
    UnpackedFloat.mul Format.binary64 (ofMantissa s m e) (ofMantissa t m' e') =
      if m * m' = 0 then .zero (s * t)
      else roundWithAccuracy Format.binary64 (s * t) (m * m') (e + e') .exact := by
  by_cases hm : m = 0
  · rw [hm, Nat.zero_mul, if_pos rfl, ofMantissa_zero]
    by_cases hm' : m' = 0
    · rw [hm', ofMantissa_zero]
      rfl
    · rw [ofMantissa_of_ne_zero t hm']
      rfl
  · by_cases hm' : m' = 0
    · rw [hm', Nat.mul_zero, if_pos rfl, ofMantissa_zero, ofMantissa_of_ne_zero s hm]
      rfl
    · rw [if_neg (Nat.mul_ne_zero hm hm'), ofMantissa_of_ne_zero s hm, ofMantissa_of_ne_zero t hm']
      rfl

/-- A product below the limit is a double. -/
theorem isFinite_mul {x y : Double} (hx : x.isFinite = true) (hy : y.isFinite = true)
    (hlt : x.value * y.value < limit) : (x * y).isFinite = true := by
  have hmul : x * y = ofUnpacked (UnpackedFloat.mul Format.binary64 x.toFloat.toModel.unpack
    y.toFloat.toModel.unpack) := rfl
  rw [hmul, unpack_toFloat hx, unpack_toFloat hy, mul_ofMantissa]
  split
  · cases x.sign * y.sign <;> decide
  · next hproduct =>
    obtain ⟨hm, hm'⟩ := Nat.mul_ne_zero_iff.mp hproduct
    refine (value_round _ ((fits_decode hx).mul (fits_decode hy) hm hm') ?_).1
    rwa [Nat.cast_mul, zpow_add₀ two_ne_zero, mul_mul_mul_comm]

/-- A mantissa of 53 places is kept. -/
theorem roundedAt_of_full {m : Nat} {e : Int} (hlow : 2 ^ 52 ≤ m) (hhigh : m < 2 ^ 53)
    (he : -1074 ≤ e) : placesExponent m e = e ∧ roundedAt m e = m := by
  have hplaces : m.log2 = 52 :=
    Nat.le_antisymm (Nat.le_of_lt_succ ((Nat.log2_lt (by omega)).mpr hhigh))
      ((Nat.le_log2 (by omega)).mpr hlow)
  have hexponent : placesExponent m e = e := by
    unfold placesExponent
    omega
  refine ⟨hexponent, ?_⟩
  rw [roundedAt, hexponent, sub_self, Int.toNat_zero, pow_zero, Decimal.roundQuotient_one]

/-- A number of few places is shifted up to 53 of them before it is rounded. -/
theorem round_eq (s : Sign) (m : Nat) (e : Int) :
    UnpackedFloat.round Format.binary64 s m e =
      roundWithAccuracy Format.binary64 s (m * 2 ^ (e - placesExponent m e).toNat)
        (e - (e - placesExponent m e).toNat) .exact := by
  rw [UnpackedFloat.round, targetExponent_eq, decreaseExponent, Nat.shiftLeft_eq]

theorem ofNat_eq {k : Nat} (hk : 0 < k) :
    UnpackedFloat.ofNat Format.binary64 k =
      roundWithAccuracy Format.binary64 .positive (k * 2 ^ (52 - k.log2))
        (-((52 - k.log2 : ℕ) : Int)) .exact := by
  have hcompare : compare (k : Int) 0 = .gt := by
    rw [compare_gt_iff_gt]
    exact_mod_cast hk
  have hexponent : placesExponent k 0 = (k.log2 : Int) - 52 := by
    unfold placesExponent
    omega
  have hshift : (0 - ((k.log2 : Int) - 52)).toNat = 52 - k.log2 := by omega
  rw [UnpackedFloat.ofNat, UnpackedFloat.ofInt, UnpackedFloat.normalize, hcompare]
  simp only [Int.toNat_natCast, round_eq]
  rw [hexponent, hshift, zero_sub]

/-- A number of few places has 53 when it is shifted to the front. -/
theorem full_of_log2_lt {k : Nat} (hk : k ≠ 0) (hlog : k.log2 < 52) :
    2 ^ 52 ≤ k * 2 ^ (52 - k.log2) ∧ k * 2 ^ (52 - k.log2) < 2 ^ 53 := by
  have hpow : 2 ^ k.log2 * 2 ^ (52 - k.log2) = 2 ^ 52 := by
    rw [← Nat.pow_add]
    congr 1
    omega
  constructor
  · rw [← hpow]
    exact Nat.mul_le_mul_right _ (Nat.log2_self_le hk)
  · have hself := Nat.mul_lt_mul_of_pos_right (Nat.lt_log2_self (n := k))
      (Nat.two_pow_pos (52 - k.log2))
    rwa [Nat.pow_succ, Nat.mul_right_comm, hpow] at hself

/-- A whole number is rounded to 53 places if it has more. -/
theorem value_ofWord (n : UInt64) :
    (ofWord n).isFinite = true ∧
      (ofWord n).value =
        Decimal.roundQuotient n.toNat (2 ^ (n.toNat.log2 - 52)) * 2 ^ (n.toNat.log2 - 52) := by
  have hword : ofWord n = ofUnpacked (UnpackedFloat.ofNat Format.binary64 n.toNat) := rfl
  have hlt := n.toNat_lt
  rw [hword]
  generalize n.toNat = k at hlt ⊢
  rcases Nat.eq_zero_or_pos k with rfl | hk
  · decide +kernel
  · have hbound : (k : ℚ) < limit := by
      have hlt : (k : ℚ) < 2 ^ 64 := by exact_mod_cast hlt
      exact hlt.trans (by exact_mod_cast (by decide +kernel : 2 ^ 64 < limit))
    rw [ofNat_eq hk]
    rcases Nat.lt_or_ge k.log2 52 with hlog | hlog
    · -- nothing is lost of few places
      obtain ⟨hlow, hhigh⟩ := full_of_log2_lt hk.ne' hlog
      have hexact : ((k * 2 ^ (52 - k.log2) : ℕ) : ℚ) * 2 ^ (-((52 - k.log2 : ℕ) : Int)) = k := by
        rw [zpow_neg, zpow_natCast]
        push_cast
        field_simp
      obtain ⟨hexponent, hrounded⟩ := roundedAt_of_full hlow hhigh
        (e := -((52 - k.log2 : ℕ) : Int)) (by omega)
      obtain ⟨hfinite, hvalue⟩ := value_round .positive
        (le_placesExponent hlow (-((52 - k.log2 : ℕ) : Int))) (by rwa [hexact])
      have hnone : k.log2 - 52 = 0 := by omega
      refine ⟨hfinite, hvalue.trans ?_⟩
      rw [hrounded, hexponent, hexact, hnone, pow_zero, Decimal.roundQuotient_one, pow_zero, mul_one]
    · have hshift : 52 - k.log2 = 0 := by omega
      have hwide : 2 ^ 52 ≤ k := (Nat.le_log2 hk.ne').mp hlog
      have hexponent : placesExponent k 0 = ((k.log2 - 52 : ℕ) : Int) := by
        unfold placesExponent
        omega
      obtain ⟨hfinite, hvalue⟩ := value_round .positive (le_placesExponent hwide 0)
        (by rwa [zpow_zero, mul_one])
      rw [hshift, pow_zero, mul_one, Nat.cast_zero, neg_zero]
      refine ⟨hfinite, hvalue.trans ?_⟩
      rw [roundedAt, hexponent, sub_zero, Int.toNat_natCast, zpow_natCast]

end Double

end GatedNetwork
