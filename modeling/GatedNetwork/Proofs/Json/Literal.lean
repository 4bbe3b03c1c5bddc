import GatedNetwork.Decimal.Text
import GatedNetwork.Proofs.Json.Document
import GatedNetwork.Proofs.Json.Number

/-!
# Numbers as literals

The text of a finite double is a literal that is read as a number again, and the text of an index is one
that is read as the same index.

* `Double.literal` — the literal whose text is that of a double
* `isSome_toDouble?_literal` — it is read
* `Json.toIndex?_indexLiteral` — indices come back
-/

namespace GatedNetwork

open Json

namespace Decimal

variable {d : Decimal} {layout : Layout}

/-! ## Digits of a decimal -/

theorem digits_ne_nil (d : Decimal) : d.digits ≠ [] := Nat.toDigits_ne_nil

theorem length_digits_pos (d : Decimal) : 0 < d.digits.length := Nat.length_toDigits_pos

theorem isDigit_digits (d : Decimal) : ∀ c ∈ d.digits, isDigit c = true := isDigit_toDigits _

theorem digits_of_zero (h : d.coefficient = 0) : d.digits = ['0'] := by
  rw [digits, h]
  rfl

theorem head?_digits (h : d.coefficient ≠ 0) : d.digits.head? ≠ some '0' := head?_toDigits h

theorem digitsValue_digits (d : Decimal) : digitsValue d.digits = d.coefficient :=
  digitsValue_toDigits _

theorem lt_pow_length_digits (d : Decimal) : d.coefficient < 10 ^ d.digits.length :=
  (Nat.length_toDigits_le_iff (by decide) d.length_digits_pos).mp le_rfl

/-- A coefficient is written without leading zeros. -/
theorem pow_length_digits_le (h : d.coefficient ≠ 0) :
    10 ^ (d.digits.length - 1) ≤ d.coefficient := by
  have hlen := d.length_digits_pos
  rcases Nat.eq_zero_or_pos (d.digits.length - 1) with hone | hmore
  · rw [hone, pow_zero]
    omega
  · by_contra hlt
    have hshort : d.digits.length ≤ d.digits.length - 1 :=
      (Nat.length_toDigits_le_iff (by decide) hmore).mpr (by omega)
    omega

/-! ## Layouts -/

/-- What positional notation writes. -/
def positionalLiteral (d : Decimal) : Numeral :=
  if 0 ≤ d.exponent then ⟨false, d.digits ++ List.replicate d.exponent.toNat '0', ['0'], none⟩
  else if 0 ≤ d.leading then
    ⟨false, d.digits.take (d.leading + 1).toNat, d.digits.drop (d.leading + 1).toNat, none⟩
  else ⟨false, ['0'], List.replicate (-d.leading - 1).toNat '0' ++ d.digits, none⟩

theorem positionalLiteral_unmarked (d : Decimal) :
    d.positionalLiteral.negative = false ∧ d.positionalLiteral.exponent = none := by
  unfold positionalLiteral
  split
  · exact ⟨rfl, rfl⟩
  · split
    · exact ⟨rfl, rfl⟩
    · exact ⟨rfl, rfl⟩

/-- What scientific notation writes. -/
def scientificLiteral (d : Decimal) : Numeral where
  negative := false
  whole := d.digits.take 1
  places := d.digits.drop 1
  exponent := some d.leading

/-- The literal as which a decimal is set out. -/
def literal (layout : Layout) (d : Decimal) : Numeral :=
  if layout.lowest ≤ d.leading ∧ d.leading ≤ layout.highest then d.positionalLiteral
  else d.scientificLiteral

/-- There is a point in front of places. -/
theorem placesText_of_ne_nil {cs : List Char} (h : cs ≠ []) : Numeral.placesText cs = '.' :: cs := by
  cases cs with
  | nil => exact absurd rfl h
  | cons c cs => rfl

/-- Positional notation is the text of a literal. -/
theorem text_positionalLiteral (d : Decimal) : d.positional.toList = d.positionalLiteral.text := by
  have hlen := d.length_digits_pos
  unfold positional positionalLiteral
  split
  · simp [zeros, Numeral.text, Numeral.placesText, Numeral.exponentText]
  · next hneg =>
    split
    · next hlead =>
      have hplaces : d.digits.drop (d.leading + 1).toNat ≠ [] := by
        rw [ne_eq, List.drop_eq_nil_iff]
        unfold leading at hlead ⊢
        omega
      simp [Numeral.text, placesText_of_ne_nil hplaces, Numeral.exponentText]
    · have hplaces : List.replicate (-d.leading - 1).toNat '0' ++ d.digits ≠ [] := by
        rw [ne_eq, List.append_eq_nil_iff, not_and]
        exact fun _ => d.digits_ne_nil
      generalize (-d.leading - 1).toNat = k at hplaces ⊢
      simp [zeros, Numeral.text, placesText_of_ne_nil hplaces, Numeral.exponentText]

/-- Scientific notation is the text of a literal. -/
theorem text_scientificLiteral (d : Decimal) :
    (d.scientific true).toList = d.scientificLiteral.text := by
  simp only [scientific, scientificLiteral, Numeral.text, Numeral.exponentText,
    Bool.false_eq_true, if_false, List.nil_append, if_true]
  cases hds : d.digits with
  | nil => exact absurd hds d.digits_ne_nil
  | cons c ds =>
    by_cases hsign : 0 ≤ d.leading
    · cases ds <;> simp [Numeral.placesText, hsign]
    · cases ds <;> simp [Numeral.placesText, hsign]

theorem text_literal (hplus : layout.plus = true) (d : Decimal) :
    (d.text layout).toList = (d.literal layout).text := by
  unfold text literal
  split
  · exact text_positionalLiteral d
  · rw [hplus]
    exact text_scientificLiteral d

/-- A zero is written as one digit. -/
def Tidy (d : Decimal) : Prop := d.coefficient = 0 → d.exponent = 0

theorem proper_positionalLiteral (h : d.Tidy) : d.positionalLiteral.Proper := by
  have hnonzero : ¬0 ≤ d.exponent → d.coefficient ≠ 0 := fun hneg hz => hneg (h hz).ge
  unfold positionalLiteral
  split
  · refine ⟨?_, ?_, List.forall_mem_append.mpr ⟨d.isDigit_digits, isDigit_zeros _⟩, isDigit_zeros 1⟩
    · rw [ne_eq, List.append_eq_nil_iff, not_and]
      exact fun hnil => absurd hnil d.digits_ne_nil
    · by_cases hz : d.coefficient = 0
      · rw [h hz, digits_of_zero hz]
        exact .inl rfl
      · obtain ⟨c, ds, hds⟩ := List.exists_cons_of_ne_nil d.digits_ne_nil
        have hhead := head?_digits hz
        rw [hds] at hhead ⊢
        exact .inr hhead
  · next hneg =>
    split
    · refine ⟨?_, .inr ?_, fun c hc => d.isDigit_digits c (List.mem_of_mem_take hc),
        fun c hc => d.isDigit_digits c (List.mem_of_mem_drop hc)⟩
      · rw [ne_eq, List.take_eq_nil_iff, not_or]
        exact ⟨by omega, d.digits_ne_nil⟩
      · rw [List.head?_take, if_neg (by omega)]
        exact head?_digits (hnonzero hneg)
    · exact ⟨List.cons_ne_nil _ _, .inl rfl, isDigit_zeros 1,
        List.forall_mem_append.mpr ⟨isDigit_zeros _, d.isDigit_digits⟩⟩

theorem proper_scientificLiteral (d : Decimal) : d.scientificLiteral.Proper where
  nonempty := by
    rw [scientificLiteral, ne_eq, List.take_eq_nil_iff, not_or]
    exact ⟨one_ne_zero, d.digits_ne_nil⟩
  leading := by
    by_cases hz : d.coefficient = 0
    · rw [scientificLiteral, digits_of_zero hz]
      exact .inl rfl
    · refine .inr ?_
      rw [scientificLiteral, List.head?_take, if_neg one_ne_zero]
      exact head?_digits hz
  whole := fun c hc => d.isDigit_digits c (List.mem_of_mem_take hc)
  places := fun c hc => d.isDigit_digits c (List.mem_of_mem_drop hc)

/-- Decimals are laid out as literals of the grammar. -/
theorem proper_literal (h : d.Tidy) (layout : Layout) : (d.literal layout).Proper := by
  unfold literal
  split
  · exact proper_positionalLiteral h
  · exact proper_scientificLiteral d

/-! ## The number a literal stands for -/

/-- Scientific notation keeps coefficient and exponent. -/
theorem decimal_scientificLiteral (d : Decimal) : d.scientificLiteral.decimal = d := by
  have hlen := d.length_digits_pos
  have hexponent : d.leading - (d.digits.length - 1 : ℕ) = d.exponent := by
    unfold leading
    omega
  rw [scientificLiteral, Numeral.decimal]
  simp only [List.take_append_drop, digitsValue_digits, List.length_drop, Option.getD_some,
    hexponent]

theorem decimal_positionalLiteral_of_neg (h : d.exponent < 0) :
    d.positionalLiteral.decimal = d := by
  have hlen := d.length_digits_pos
  rw [positionalLiteral, if_neg (not_le.mpr h)]
  split
  · next hlead =>
    have hexponent : 0 - ((d.digits.length - (d.leading + 1).toNat : ℕ) : ℤ) = d.exponent := by
      unfold leading at hlead ⊢
      omega
    rw [Numeral.decimal]
    simp only [List.take_append_drop, digitsValue_digits, List.length_drop, Option.getD_none,
      hexponent]
  · next hlead =>
    have hexponent :
        0 - (((-d.leading - 1).toNat + d.digits.length : ℕ) : ℤ) = d.exponent := by
      unfold leading at hlead ⊢
      omega
    rw [Numeral.decimal]
    simp only [← List.append_assoc, List.singleton_append, ← List.replicate_succ,
      digitsValue_zeros_append, digitsValue_digits, List.length_append, List.length_replicate,
      Option.getD_none, hexponent]

/-- A whole number is written with a zero behind the point. -/
theorem decimal_positionalLiteral_of_nonneg (h : 0 ≤ d.exponent) :
    d.positionalLiteral.decimal = ⟨d.coefficient * 10 ^ (d.exponent.toNat + 1), -1⟩ := by
  have hzeros : List.replicate d.exponent.toNat '0' ++ ['0'] =
      List.replicate (d.exponent.toNat + 1) '0' := List.replicate_succ'.symm
  rw [positionalLiteral, if_pos h, Numeral.decimal]
  simp only [List.append_assoc, hzeros, digitsValue_append_zeros, digitsValue_digits]
  rfl

/-- Positional notation keeps the value, though zeros may have been added. -/
theorem value_positionalLiteral (d : Decimal) : d.positionalLiteral.decimal.value = d.value := by
  rcases lt_or_ge d.exponent 0 with h | h
  · rw [decimal_positionalLiteral_of_neg h]
  · rw [decimal_positionalLiteral_of_nonneg h]
    obtain ⟨k, hk⟩ := Int.eq_ofNat_of_zero_le h
    rw [value, value, hk]
    simp only [Int.toNat_natCast, zpow_natCast]
    push_cast
    rw [pow_succ, zpow_neg_one]
    field_simp

/-- Positional notation up to sixteen digits has at most seventeen. -/
theorem coefficient_positionalLiteral_le (hc : d.coefficient ≤ 10 ^ 17) (h : d.leading ≤ 15) :
    d.positionalLiteral.decimal.coefficient ≤ 10 ^ 17 := by
  rcases lt_or_ge d.exponent 0 with hneg | hpos
  · rw [decimal_positionalLiteral_of_neg hneg]
    exact hc
  · rw [decimal_positionalLiteral_of_nonneg hpos]
    refine le_trans (Nat.mul_le_mul_right _ (lt_pow_length_digits d).le) ?_
    rw [← pow_add]
    refine Nat.pow_le_pow_right (by decide) ?_
    unfold leading at h
    omega

/-- The exponent of a number that is not too large is not, either. -/
theorem leading_lt (h : d.Tidy) (hle : d.value ≤ Double.largestDecimal.value) : d.leading < 309 := by
  by_cases hz : d.coefficient = 0
  · rw [leading, h hz, digits_of_zero hz]
    decide
  · by_contra hbig
    have hlen := d.length_digits_pos
    have hlow : (10 : ℚ) ^ (309 : ℤ) ≤ d.value := by
      have hcoefficient : (10 : ℚ) ^ (d.digits.length - 1) ≤ d.coefficient := by
        exact_mod_cast pow_length_digits_le hz
      refine le_trans ?_ (mul_le_mul_of_nonneg_right hcoefficient (by positivity))
      rw [← zpow_natCast, ← zpow_add₀ (by norm_num)]
      refine zpow_le_zpow_right₀ (by norm_num) ?_
      unfold leading at hbig
      omega
    have hhigh : Double.largestDecimal.value < (10 : ℚ) ^ (309 : ℤ) := by
      rw [value, Double.largestDecimal, show (309 : ℤ) = 17 + 292 from rfl,
        zpow_add₀ (by norm_num)]
      exact mul_lt_mul_of_pos_right (by norm_num) (by positivity)
    exact absurd (hlow.trans hle) (not_le.mpr hhigh)

/-- A tidy decimal up to that of the largest double is read again. -/
theorem isSome_toDouble?_literal (h : d.Tidy) (hc : d.coefficient ≤ 10 ^ 17)
    (hle : d.value ≤ Double.largestDecimal.value) (hlayout : layout.highest ≤ 15) :
    (d.literal layout).toDouble?.isSome = true := by
  unfold literal
  split
  · next hlead =>
    refine Numeral.isSome_toDouble? (coefficient_positionalLiteral_le hc (by omega)) ?_ ?_
    · rw [d.positionalLiteral_unmarked.2]
      decide
    · rwa [value_positionalLiteral]
  · have hlead := leading_lt h hle
    refine Numeral.isSome_toDouble? ?_ ?_ ?_
    · rwa [decimal_scientificLiteral]
    · rw [scientificLiteral, Option.getD_some, Numeral.maxExponent]
      omega
    · rwa [decimal_scientificLiteral]

theorem tidy_normalize (d : Decimal) : d.normalize.Tidy := by
  induction d using normalize.induct with
  | case1 d hz =>
    rw [normalize, dif_pos hz]
    exact fun _ => rfl
  | case2 d hz hten ih =>
    rw [normalize, dif_neg hz, if_pos hten]
    exact ih
  | case3 d hz hten =>
    rw [normalize, dif_neg hz, if_neg hten]
    exact fun h => absurd h hz

end Decimal

namespace Double

variable {x : Double} {layout : Decimal.Layout}

/-- The shortest decimal of a double is tidy. -/
theorem tidy_shortest (x : Double) : x.shortest.Tidy := by
  unfold shortest
  split
  · exact fun _ => rfl
  · exact Decimal.tidy_normalize _

/-- The literal of a finite double. -/
def literal (layout : Decimal.Layout) (x : Double) : Numeral :=
  { x.shortest.literal layout with negative := x.isNegative }

theorem negative_literal (d : Decimal) : (d.literal layout).negative = false := by
  unfold Decimal.literal
  split
  · exact d.positionalLiteral_unmarked.1
  · rfl

/-- The text of a finite double is that of its literal. -/
theorem text_literal (hx : x.isFinite = true) (hplus : layout.plus = true) :
    (x.text layout).toList = (x.literal layout).text := by
  have htext := Decimal.text_literal hplus x.shortest
  rw [Numeral.text, negative_literal] at htext
  rw [Double.text, if_pos hx, String.toList_append, htext, signText, Numeral.text, literal]
  cases x.isNegative <;> rfl

theorem proper_literal (layout : Decimal.Layout) (x : Double) : (x.literal layout).Proper := by
  obtain ⟨hne, hleading, hwhole, hplaces⟩ := Decimal.proper_literal x.tidy_shortest layout
  exact ⟨hne, hleading, hwhole, hplaces⟩

/-- A finite number is written so that it is read. -/
theorem isSome_toDouble?_literal (hx : x.isFinite = true) (hlayout : layout.highest ≤ 15) :
    (x.literal layout).toDouble?.isSome = true := by
  have h := Decimal.isSome_toDouble?_literal x.tidy_shortest (shortest_spec hx).1
    (value_shortest_le hx) hlayout
  rw [Numeral.toDouble?, Option.isSome_map] at h ⊢
  exact h

end Double

namespace Json

/-! ## Indices -/

/-- The literal of an index. -/
def indexLiteral (i : Nat) : Numeral := ⟨false, Nat.toDigits 10 i, [], none⟩

theorem text_indexLiteral (i : Nat) : (toString i).toList = (indexLiteral i).text := by
  simp [indexLiteral, Numeral.text, Numeral.placesText, Numeral.exponentText]

theorem proper_indexLiteral (i : Nat) : (indexLiteral i).Proper where
  nonempty := Nat.toDigits_ne_nil
  leading := by
    by_cases hi : i = 0
    · subst hi
      exact .inl rfl
    · exact .inr (Decimal.head?_toDigits hi)
  whole := Decimal.isDigit_toDigits i
  places := by
    rintro c ⟨⟩

/-- An index that fits into a word is read back. -/
theorem toIndex?_indexLiteral {i : Nat} (hi : i ≤ Numeral.maxSignificand) :
    (indexLiteral i).toIndex? = some i := by
  simp [Numeral.toIndex?, indexLiteral, Numeral.isWhole, Decimal.digitsValue_toDigits, hi]

end Json

end GatedNetwork
