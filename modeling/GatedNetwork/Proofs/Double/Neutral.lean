import GatedNetwork.Proofs.Arithmetic
import GatedNetwork.Proofs.Double.Exact

/-!
# Multiplying by one

A product that is a NaN is the standard one, whatever the bits of its factors. This is all that keeps one
from being neutral among doubles. A `Float` is a double whose NaNs are all taken for the standard one, and
among these one is neutral.

* `Double.one_mul`, `Double.mul_one` — one times a double is this double, or the standard NaN
* `NeutralOne Float` — with one NaN, one is neutral
* `Double.respects_toFloat` — taking all NaNs for one changes no result but the bits of a NaN
-/

namespace GatedNetwork

open Float.Model Float.Model.UnpackedFloat

namespace Double

variable {x y : Double}

/-! ## Doubles from what they stand for -/

theorem toNat_isNegative (x : Double) : x.bits.toNat / 2 ^ 63 = if x.isNegative then 1 else 0 := by
  have hlt := x.bits.toNat_lt
  have hshift : (x.bits >>> 63).toNat = x.bits.toNat / 2 ^ 63 := by
    simp [Nat.shiftRight_eq_div_pow]
  have hone : x.isNegative = true ↔ x.bits.toNat / 2 ^ 63 = 1 := by
    rw [isNegative, beq_iff_eq, ← UInt64.toNat_inj, hshift]
    rfl
  split
  · next h => exact hone.mp h
  · next h =>
    have hne := mt hone.mpr h
    omega

/-- Sign, exponent and fraction are all there is to a double. -/
theorem eq_of_fields (hs : x.sign = y.sign) (he : x.exponentField = y.exponentField)
    (hf : x.fraction = y.fraction) : x = y := by
  have hneg : x.isNegative = y.isNegative := by
    unfold sign at hs
    cases hx : x.isNegative <;> cases hy : y.isNegative <;> simp_all
  have hx := toNat_isNegative x
  have hy := toNat_isNegative y
  rw [hneg, ← hy] at hx
  obtain ⟨a⟩ := x
  obtain ⟨b⟩ := y
  rw [mk.injEq, ← UInt64.toNat_inj]
  simp only [exponentField, fraction, UInt64.toNat_shiftRight, Nat.shiftRight_eq_div_pow] at he hf hx
  simp at he
  omega

/-- So are sign, mantissa and exponent. -/
theorem eq_of_decode (hs : x.sign = y.sign) (h : x.decode = y.decode) : x = y := by
  have hfx : x.fraction < 2 ^ 52 := Nat.mod_lt _ (by decide)
  have hfy : y.fraction < 2 ^ 52 := Nat.mod_lt _ (by decide)
  unfold decode at h
  refine eq_of_fields hs ?_ ?_ <;> split at h <;> split at h <;>
    (rw [Prod.mk.injEq] at h; omega)

/-- Of equal numbers in the form of doubles, neither has the greater exponent. -/
theorem Fits.exponent_le {m m' : Nat} {e e' : Int} (h : Fits m e) (h' : Fits m' e')
    (heq : (m : ℚ) * 2 ^ e = m' * 2 ^ e') : e' ≤ e := by
  by_contra hlt
  have hwhole : m = m' * 2 ^ (e' - e).toNat := by
    rw [two_zpow_of_le (by omega : e ≤ e'), ← mul_assoc] at heq
    exact_mod_cast mul_right_cancel₀ (two_zpow_pos e).ne' heq
  have hfull := h'.full.resolve_right (by have := h.least; omega)
  have hdouble : 2 ^ 1 ≤ 2 ^ (e' - e).toNat := Nat.pow_le_pow_right (by decide) (by omega)
  have hlarge := Nat.mul_le_mul hfull hdouble
  have hsmall := h.mantissa_lt
  omega

/-- A number is written in one way only in the form of doubles. -/
theorem Fits.unique {m m' : Nat} {e e' : Int} (h : Fits m e) (h' : Fits m' e')
    (heq : (m : ℚ) * 2 ^ e = m' * 2 ^ e') : m = m' ∧ e = e' := by
  obtain rfl : e = e' := le_antisymm (h'.exponent_le h heq.symm) (h.exponent_le h' heq)
  exact ⟨by exact_mod_cast mul_right_cancel₀ (two_zpow_pos e).ne' heq, rfl⟩

/-- A finite double is told by its sign and the number it stands for. -/
theorem eq_of_denotes {q : ℚ} (hx : x.Denotes q) (hy : y.Denotes q) (hs : x.sign = y.sign) :
    x = y := by
  obtain ⟨hx, hnumber⟩ := hx
  obtain ⟨hy, rfl⟩ := hy
  have hvalue := congrArg (|·|) hnumber
  rw [number, number, abs_signed _ x.value_nonneg, abs_signed _ y.value_nonneg] at hvalue
  obtain ⟨hm, he⟩ := (fits_decode hx).unique (fits_decode hy) hvalue
  exact eq_of_decode hs (Prod.ext hm he)

/-! ## Packing what was unpacked -/

/-- What is unpacked from a double. -/
def unpacked (x : Double) : UnpackedFloat := UnpackedFloat.unpack Format.binary64 x.bits.toBitVec

theorem unpacked_of_isFinite (h : x.isFinite = true) :
    x.unpacked = ofMantissa x.sign x.decode.1 x.decode.2 := unpack_bits h

theorem unpackExponent_eq_ones (h : x.exponentField = 2047) :
    @unpackExponent Format.binary64 x.bits.toBitVec = -1#_ := by
  rw [← BitVec.toNat_inj, toNat_unpackExponent, h]
  rfl

theorem unpackMantissa_eq_zero_iff :
    @unpackMantissa Format.binary64 x.bits.toBitVec = 0#_ ↔ x.fraction = 0 := by
  rw [← toNat_unpackMantissa, ← BitVec.toNat_inj]
  rfl

theorem unpacked_of_isInfinite (h : x.isInfinite = true) : x.unpacked = .infinity x.sign := by
  rw [isInfinite, Bool.and_eq_true, beq_iff_eq, beq_iff_eq] at h
  unfold unpacked UnpackedFloat.unpack
  rw [if_pos (unpackExponent_eq_ones h.1), if_pos (unpackMantissa_eq_zero_iff.mpr h.2),
    ofBitVec_unpackSign]

theorem unpacked_of_isNaN (h : x.isNaN = true) : x.unpacked = .notANumber := by
  rw [isNaN, Bool.and_eq_true, beq_iff_eq, bne_iff_ne] at h
  unfold unpacked UnpackedFloat.unpack
  rw [if_pos (unpackExponent_eq_ones h.1), if_neg (mt unpackMantissa_eq_zero_iff.mp h.2)]

/-- The standard NaN in place of every NaN. -/
def standardized (x : Double) : Double := if x.isNaN then nan else x

theorem standardized_of_isNaN (h : x.isNaN = true) : x.standardized = nan := if_pos h

theorem standardized_of_not_isNaN (h : x.isNaN = false) : x.standardized = x := by
  rw [standardized, h]
  rfl

/-- A double is finite, infinite or a NaN. -/
theorem kinds (x : Double) : (x.isFinite = true ∧ x.standardized = x) ∨
    (x.isInfinite = true ∧ x.standardized = x) ∨ (x.isNaN = true ∧ x.standardized = nan) := by
  by_cases he : x.exponentField = 2047
  · by_cases hf : x.fraction = 0
    · have hnan : x.isNaN = false := by simp [isNaN, hf]
      exact .inr (.inl ⟨by simp [isInfinite, he, hf], standardized_of_not_isNaN hnan⟩)
    · have hnan : x.isNaN = true := by simp [isNaN, he, hf]
      exact .inr (.inr ⟨hnan, standardized_of_isNaN hnan⟩)
  · have hnan : x.isNaN = false := by simp [isNaN, he]
    exact .inl ⟨by simp [isFinite, he], standardized_of_not_isNaN hnan⟩

/-- Packing what was unpacked keeps a double up to the bits of a NaN. -/
theorem ofUnpacked_unpacked (x : Double) : ofUnpacked x.unpacked = x.standardized := by
  rcases kinds x with ⟨h, hsame⟩ | ⟨h, hsame⟩ | ⟨h, hsame⟩
  · rw [hsame, unpacked_of_isFinite h]
    obtain ⟨-, hdecode⟩ := decode_ofMantissa (s := x.sign) (fits_decode h)
    exact eq_of_decode (sign_ofMantissa x.sign x.decode.1 x.decode.2) hdecode
  · rw [hsame, unpacked_of_isInfinite h]
    rw [isInfinite, Bool.and_eq_true, beq_iff_eq, beq_iff_eq] at h
    obtain ⟨hexponent, hfraction⟩ := fields_packComponents x.sign (-1#11) 0#52
    exact eq_of_fields (sign_packComponents x.sign _ _) (hexponent.trans h.1.symm)
      (hfraction.trans h.2.symm)
  · rw [hsame, unpacked_of_isNaN h]
    rfl

/-- Going through `Float` makes a NaN the standard one. -/
theorem ofFloat_toFloat (x : Double) : ofFloat x.toFloat = x.standardized := ofUnpacked_unpacked x

theorem ofFloat_inj {a b : Float} (h : ofFloat a = ofFloat b) : a = b := by
  have hbits := congrArg bits h
  obtain ⟨a, ha⟩ := a
  obtain ⟨b, hb⟩ := b
  cases hbits
  rfl

/-- Doubles are one `Float` if they are equal up to the bits of a NaN. -/
theorem toFloat_eq_iff : x.toFloat = y.toFloat ↔ x.standardized = y.standardized := by
  rw [← ofFloat_toFloat, ← ofFloat_toFloat]
  exact ⟨congrArg ofFloat, ofFloat_inj⟩

/-- Valid bits that are a NaN are the standard one. -/
theorem eq_nan_of_valid (hvalid : Format.binary64.Valid x.bits.toBitVec) (h : x.isNaN = true) :
    x = nan := by
  rw [isNaN, Bool.and_eq_true, beq_iff_eq, bne_iff_ne] at h
  have hbits := hvalid.eq_packedNaN (unpackExponent_eq_ones h.1)
    (mt unpackMantissa_eq_zero_iff.mp h.2)
  obtain ⟨⟨b⟩⟩ := x
  cases hbits
  rfl

/-- A `Float` has no NaN but the standard one. -/
theorem standardized_ofFloat (a : Float) : (ofFloat a).standardized = ofFloat a := by
  cases h : (ofFloat a).isNaN with
  | true => exact (standardized_of_isNaN h).trans (eq_nan_of_valid a.toModel.valid h).symm
  | false => exact standardized_of_not_isNaN h

/-- Going through a double keeps a `Float`. -/
theorem toFloat_ofFloat (a : Float) : (ofFloat a).toFloat = a :=
  ofFloat_inj ((ofFloat_toFloat _).trans (standardized_ofFloat a))

/-! ## Products with one -/

/-- The sign of a product, zeros and products that are too large included. -/
theorem sign_mul (hx : x.isFinite = true) (hy : y.isFinite = true) :
    (x * y).sign = x.sign * y.sign := by
  have hmul : x * y = ofUnpacked (UnpackedFloat.mul Format.binary64 x.toFloat.toModel.unpack
    y.toFloat.toModel.unpack) := rfl
  rw [hmul, unpack_toFloat hx, unpack_toFloat hy, mul_ofMantissa]
  split
  · exact sign_packComponents _ _ _
  · rw [roundWithAccuracy_eq]
    split <;> exact sign_ofMantissa _ _ _

theorem representable_number (h : x.isFinite = true) : Representable x.number := by
  rw [number, representable_signed x.value_nonneg]
  have hfits := fits_decode h
  exact ⟨_, _, hfits.mantissa_lt, hfits.least, hfits.most, abs_of_nonneg x.value_nonneg⟩

/-- As a `Float`, a double is unpacked as if its NaN were the standard one. -/
theorem unpack_toFloat_eq (x : Double) : x.toFloat.toModel.unpack = x.standardized.unpacked := by
  rw [← ofFloat_toFloat]
  rfl

theorem mulUnpacked_comm (u v : UnpackedFloat) :
    UnpackedFloat.mul Format.binary64 u v = UnpackedFloat.mul Format.binary64 v u := by
  have hsign : ∀ s t : Sign, s * t = t * s := by
    intro s t
    cases s <;> cases t <;> rfl
  cases u <;> cases v
  case finite.finite s m e _ t m' e' _ =>
    show roundWithAccuracy _ (s * t) (m * m') (e + e') _ =
      roundWithAccuracy _ (t * s) (m' * m) (e' + e) _
    rw [hsign, Nat.mul_comm, Int.add_comm]
  all_goals first
    | rfl
    | exact congrArg _ (hsign _ _)

protected theorem mul_comm (x y : Double) : x * y = y * x :=
  congrArg ofUnpacked (mulUnpacked_comm _ _)

/-- One leaves what is not finite as it is. -/
theorem mulUnpacked_one {u : UnpackedFloat} (hu : ∀ s m e hm, u ≠ .finite s m e hm) :
    UnpackedFloat.mul Format.binary64 (1 : Double).toFloat.toModel.unpack u = u := by
  cases u with
  | notANumber => rfl
  | infinity s => cases s <;> rfl
  | zero s => cases s <;> rfl
  | finite s m e hm => exact absurd rfl (hu s m e hm)

/-- One times a double is this double, or the standard NaN. -/
protected theorem one_mul (x : Double) : 1 * x = x.standardized := by
  have hspecial : (∀ s m e hm, x.standardized.unpacked ≠ .finite s m e hm) →
      1 * x = x.standardized.standardized := by
    intro hu
    rw [← ofUnpacked_unpacked, ← mulUnpacked_one hu, ← unpack_toFloat_eq]
    rfl
  rcases kinds x with ⟨h, hsame⟩ | ⟨h, hsame⟩ | ⟨h, hsame⟩
  · have hrepresentable := representable_number h
    rw [← one_mul x.number] at hrepresentable
    have hproduct := denotes_one.mul ⟨h, rfl⟩ hrepresentable
    rw [one_mul] at hproduct
    rw [hsame]
    refine eq_of_denotes hproduct ⟨h, rfl⟩ ((sign_mul denotes_one.1 h).trans ?_)
    cases x.sign <;> rfl
  · rw [hsame, unpacked_of_isInfinite h] at hspecial
    rw [hspecial nofun, hsame]
  · rw [hsame, unpacked_of_isNaN (by decide)] at hspecial
    rw [hspecial nofun, hsame]
    rfl

protected theorem mul_one (x : Double) : x * 1 = x.standardized :=
  (Double.mul_comm x 1).trans (Double.one_mul x)

/-! ## Operations up to the bits of a NaN -/

theorem isNaN_neg (x : Double) : (-x).isNaN = x.isNaN := by
  have hbits : (-x).bits.toNat = x.bits.toNat ^^^ 2 ^ 63 := UInt64.toNat_xor ..
  have hexponent : (-x).exponentField = x.exponentField := by
    simp only [exponentField, UInt64.toNat_shiftRight, hbits]
    show ((x.bits.toNat ^^^ 2 ^ 63) >>> 52) % 2 ^ 11 = (x.bits.toNat >>> 52) % 2 ^ 11
    rw [Nat.shiftRight_xor_distrib, Nat.xor_mod_two_pow]
    exact Nat.xor_zero _
  have hfraction : (-x).fraction = x.fraction := by
    simp only [fraction, hbits]
    show (x.bits.toNat ^^^ 2 ^ 63) % 2 ^ 52 = x.bits.toNat % 2 ^ 52
    rw [Nat.xor_mod_two_pow]
    exact Nat.xor_zero _
  rw [isNaN, hexponent, hfraction]
  rfl

/-- Flipping the sign of a NaN gives a NaN. -/
theorem toFloat_neg (h : x.toFloat = y.toFloat) : (-x).toFloat = (-y).toFloat := by
  rw [toFloat_eq_iff] at h ⊢
  cases hx : x.isNaN <;> cases hy : y.isNaN
  · rw [standardized_of_not_isNaN hx, standardized_of_not_isNaN hy] at h
    rw [h]
  · rw [standardized_of_not_isNaN hx, standardized_of_isNaN hy] at h
    rw [h] at hx
    cases hx
  · rw [standardized_of_isNaN hx, standardized_of_not_isNaN hy] at h
    rw [← h] at hy
    cases hy
  · rw [standardized_of_isNaN (x := -x) ((isNaN_neg x).trans hx),
      standardized_of_isNaN (x := -y) ((isNaN_neg y).trans hy)]

/-- Squashing looks at no bits of a NaN. -/
theorem squash_congr (t : Transfer) (h : x.toFloat = y.toFloat) :
    (squash t x).map toFloat toFloat = (squash t y).map toFloat toFloat := by
  have hless : lessThan 0 x = lessThan 0 y :=
    congrArg (fun a : Float => decide (toFloat 0 < a)) h
  cases t with
  | logistic =>
    have hexp : (-x).exp = (-y).exp := congrArg (fun a : Float => ofFloat a.exp) (toFloat_neg h)
    simp only [squash, hexp]
  | tanh =>
    have htanh : x.tanh = y.tanh := congrArg (fun a : Float => ofFloat a.tanh) h
    simp only [squash, htanh]
  | identity => simp only [squash, Prod.map, h]
  | hardLimit => simp only [squash, hless]
  | relu =>
    simp only [squash, hless]
    split
    · simp only [Prod.map, h]
    · rfl

/-- No other unpacked number is equal to a positive one. -/
theorem eq_of_compare {u : UnpackedFloat} {m : Nat} {e : Int} {hm : 0 < m}
    (h : u.compare (.finite .positive m e hm) = some .eq) : u = .finite .positive m e hm := by
  cases u with
  | notANumber => cases h
  | infinity s => cases s <;> cases h
  | zero s => cases h
  | finite s m' e' hm' =>
    cases s with
    | negative => cases h
    | positive =>
      obtain ⟨he, hm⟩ := Ordering.then_eq_eq.mp (Option.some.inj h)
      exact finite_congr (compare_eq_iff_eq.mp hm) (compare_eq_iff_eq.mp he)

/-- A `Float` is all in what is unpacked from it. -/
theorem eq_of_unpack {a b : Float} (h : a.toModel.unpack = b.toModel.unpack) : a = b :=
  calc a = (ofFloat a).toFloat := (toFloat_ofFloat a).symm
    _ = (ofFloat b).toFloat := congrArg (fun u => Float.ofModel (Float.Model.pack u)) h
    _ = b := toFloat_ofFloat b

theorem ofFloat_mul (a b : Float) : ofFloat (a * b) = ofFloat a * ofFloat b := by
  show _ = ofFloat ((ofFloat a).toFloat * (ofFloat b).toFloat)
  rw [toFloat_ofFloat, toFloat_ofFloat]

end Double

/-! ## Floats -/

/-- Double precision numbers with one NaN. -/
instance : Arithmetic Float where
  isZero a := a == 0
  isOne a := a == 1
  squash t a := (Double.squash t (.ofFloat a)).map Double.toFloat Double.toFloat
  spread word := (Double.spread word).toFloat

instance : NeutralOne Float where
  one_mul a := Double.ofFloat_inj <|
    calc Double.ofFloat (1 * a) = 1 * Double.ofFloat a := Double.ofFloat_mul 1 a
      _ = Double.ofFloat a := (Double.one_mul _).trans (Double.standardized_ofFloat a)
  mul_one a := Double.ofFloat_inj <|
    calc Double.ofFloat (a * 1) = Double.ofFloat a * 1 := Double.ofFloat_mul a 1
      _ = Double.ofFloat a := (Double.mul_one _).trans (Double.standardized_ofFloat a)
  eq_one _ h := Double.eq_of_unpack (Double.eq_of_compare (eq_of_beq h))

instance : SoundZero Float := ⟨by decide +kernel⟩

/-- `f` takes the operations of one arithmetic to those of another. -/
structure Arithmetic.Respects {α β : Type} [Arithmetic α] [Arithmetic β] (f : α → β) : Prop where
  zero : f 0 = 0
  one : f 1 = 1
  add : ∀ x y, f (x + y) = f x + f y
  sub : ∀ x y, f (x - y) = f x - f y
  mul : ∀ x y, f (x * y) = f x * f y
  isZero : ∀ x, Arithmetic.isZero (f x) = Arithmetic.isZero x
  isOne : ∀ x, Arithmetic.isOne (f x) = Arithmetic.isOne x
  squash : ∀ t x, Arithmetic.squash t (f x) = (Arithmetic.squash t x).map f f
  spread : ∀ word, Arithmetic.spread word = f (Arithmetic.spread word)

/-- Taking every NaN for the standard one changes no result but the bits of a NaN. -/
theorem Double.respects_toFloat : Arithmetic.Respects Double.toFloat where
  zero := rfl
  one := rfl
  add _ _ := toFloat_ofFloat _
  sub _ _ := toFloat_ofFloat _
  mul _ _ := toFloat_ofFloat _
  isZero _ := rfl
  isOne _ := rfl
  squash t x := squash_congr t (toFloat_ofFloat x.toFloat)
  spread _ := rfl

end GatedNetwork
