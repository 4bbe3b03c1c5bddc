import Mathlib.Data.List.Forall2
import GatedNetwork.Json.Document
import GatedNetwork.Proofs.Decimal.Digits

/-!
# Written values are read back

A text is read as a value no matter what comes after it, as long as that is a comma, a closing bracket
or nothing. This holds for literals, plain strings, and arrays and objects of such texts, so a document
that is written piece by piece is read back piece by piece.

* `numeral?_text` — literals
* `Reads.array`, `Reads.object` — from the parts to the whole
* `parse?_of_reads` — whole texts
-/

namespace GatedNetwork.Json

open Decimal (isDigit NoDigit)

variable {rest cs : List Char} {n : Numeral} {d : Document}

/-- What may come after a value. -/
def Ends (rest : List Char) : Prop := ∀ c ∈ rest.head?, c = ',' ∨ c = ']' ∨ c = '\x7d'

/-! ## Literals -/

namespace Numeral

/-- A point and digits, or nothing. -/
def placesText : List Char → List Char
  | [] => []
  | c :: cs => '.' :: c :: cs

/-- A mark, a sign and digits, or nothing. -/
def exponentText : Option Int → List Char
  | none => []
  | some e => 'e' :: (if 0 ≤ e then '+' else '-') :: Nat.toDigits 10 e.natAbs

/-- A literal as text. -/
def text (n : Numeral) : List Char :=
  (if n.negative then ['-'] else []) ++
    (n.whole ++ (placesText n.places ++ exponentText n.exponent))

/-- The literals of the grammar: there are digits before the point, and a zero starts them only if it is
the only one. -/
structure Proper (n : Numeral) : Prop where
  nonempty : n.whole ≠ []
  leading : n.whole = ['0'] ∨ n.whole.head? ≠ some '0'
  whole : ∀ c ∈ n.whole, isDigit c = true
  places : ∀ c ∈ n.places, isDigit c = true

end Numeral

open Numeral (placesText exponentText)

theorem Ends.noDigit (h : Ends rest) : NoDigit rest := by
  intro c hc
  rcases h c hc with rfl | rfl | rfl <;> rfl

theorem noDigit_exponentText (h : NoDigit rest) (e : Option Int) :
    NoDigit (exponentText e ++ rest) := by
  cases e with
  | none => exact h
  | some e =>
    rintro c ⟨⟩
    rfl

theorem noDigit_placesText (h : NoDigit rest) (places : List Char) :
    NoDigit (placesText places ++ rest) := by
  cases places with
  | nil => exact h
  | cons c cs =>
    rintro c ⟨⟩
    rfl

theorem wholeDigits?_append {whole : List Char} (hne : whole ≠ [])
    (hleading : whole = ['0'] ∨ whole.head? ≠ some '0') (hwhole : ∀ c ∈ whole, isDigit c = true)
    (hrest : NoDigit rest) : wholeDigits? (whole ++ rest) = some (whole, rest) := by
  rcases hleading with rfl | hleading
  · rfl
  · have hspan := Decimal.spanDigits_append hwhole hrest
    cases whole with
    | nil => exact absurd rfl hne
    | cons c cs =>
      unfold wholeDigits?
      split
      · next heq =>
        cases heq
        exact absurd rfl hleading
      · rw [hspan]
        rfl

theorem placeDigits?_append {places : List Char} (hplaces : ∀ c ∈ places, isDigit c = true)
    (hrest : NoDigit rest) (hpoint : rest.head? ≠ some '.') :
    placeDigits? (placesText places ++ rest) = some (places, rest) := by
  cases places with
  | nil =>
    unfold placeDigits?
    split
    · next heq =>
      rw [placesText, List.nil_append] at heq
      rw [heq] at hpoint
      exact absurd rfl hpoint
    · rfl
  | cons c cs =>
    rw [placesText, List.cons_append, placeDigits?, Decimal.spanDigits_append hplaces hrest]
    rfl

theorem exponent?_append (e : Option Int) (hends : Ends rest) :
    exponent? (exponentText e ++ rest) = some (e, rest) := by
  cases e with
  | none =>
    rw [exponentText, List.nil_append]
    cases rest with
    | nil => rfl
    | cons c rest =>
      have hc : ¬(c = 'e' ∨ c = 'E') := by
        rcases hends c rfl with rfl | rfl | rfl <;> decide
      rw [exponent?]
      simp only [if_neg hc]
  | some e =>
    have hspan := Decimal.spanDigits_append (Decimal.isDigit_toDigits e.natAbs) hends.noDigit
    have hne : (Nat.toDigits 10 e.natAbs).isEmpty = false :=
      List.isEmpty_eq_false_iff.mpr Nat.toDigits_ne_nil
    by_cases hpos : 0 ≤ e
    · rw [exponentText, if_pos hpos]
      simp only [List.cons_append, exponent?, Decimal.takeSign, hspan, hne,
        Decimal.digitsValue_toDigits, true_or, if_true, Bool.false_eq_true, if_false]
      rw [Int.natAbs_of_nonneg hpos]
    · rw [exponentText, if_neg hpos]
      simp only [List.cons_append, exponent?, Decimal.takeSign, hspan, hne,
        Decimal.digitsValue_toDigits, true_or, if_true, Bool.false_eq_true, if_false]
      rw [Int.ofNat_natAbs_of_nonpos (by omega), Int.neg_neg]

/-- Literals are read back. -/
theorem numeral?_text (h : n.Proper) (hends : Ends rest) :
    numeral? (n.text ++ rest) = some (n, rest) := by
  obtain ⟨negative, whole, places, exponent⟩ := n
  obtain ⟨hne, hleading, hwhole, hplaces⟩ := h
  have hexponent := exponent?_append exponent hends
  have hpoint : (exponentText exponent ++ rest).head? ≠ some '.' := by
    cases exponent with
    | none =>
      intro hhead
      rcases hends '.' hhead with he | he | he <;> exact absurd he (by decide)
    | some e => exact fun hhead => absurd (Option.some.inj hhead) (by decide)
  have hmarked := noDigit_exponentText hends.noDigit exponent
  have hplaces' := placeDigits?_append hplaces hmarked hpoint
  have hwhole' := wholeDigits?_append hne hleading hwhole (noDigit_placesText hmarked places)
  have htext : (Numeral.mk negative whole places exponent).text ++ rest =
      (if negative then ['-'] else []) ++
        (whole ++ (placesText places ++ (exponentText exponent ++ rest))) := by
    simp only [Numeral.text, List.append_assoc]
  rw [htext]
  cases negative with
  | true =>
    rw [if_pos rfl, List.singleton_append, numeral?]
    simp only [hwhole', hplaces', hexponent, bind, Option.bind_some]
  | false =>
    rw [if_neg Bool.false_ne_true, List.nil_append, numeral?]
    · simp only [hwhole', hplaces', hexponent, bind, Option.bind_some]
    · -- a digit in front is no sign
      intro cs hsign
      cases whole with
      | nil => exact hne rfl
      | cons c whole =>
        cases hsign
        exact absurd (hwhole '-' List.mem_cons_self) (by decide)

/-! ## Strings -/

/-- Does a character stand for itself between quotes? -/
def isPlain (c : Char) : Bool := c != '"' && c != '\\' && 0x20 ≤ c.toNat

theorem pieces?_cons {c : Char} (hc : isPlain c = true) (cs : List Char) :
    pieces? (c :: cs) = (pieces? cs).map fun (ps, cs) => (.char c :: ps, cs) := by
  rw [isPlain, Bool.and_eq_true, Bool.and_eq_true, bne_iff_ne, bne_iff_ne, decide_eq_true_eq] at hc
  obtain ⟨⟨hquote, hescape⟩, hraw⟩ := hc
  rw [pieces?]
  · rw [if_neg (by simp only [hescape, false_or]; omega)]
    cases pieces? cs <;> rfl
  · exact hquote
  · rintro _ _ _ _ _ rfl
    exact absurd rfl hescape
  · rintro _ _ rfl
    exact absurd rfl hescape

theorem pieces?_plain (hcs : ∀ c ∈ cs, isPlain c = true) :
    pieces? (cs ++ '"' :: rest) = some (cs.map .char, rest) := by
  induction cs with
  | nil => rfl
  | cons c cs ih =>
    rw [List.cons_append, pieces?_cons (hcs c List.mem_cons_self),
      ih fun c hc => hcs c (List.mem_cons_of_mem _ hc)]
    rfl

theorem joinPieces?_chars (cs : List Char) : joinPieces? (cs.map .char) = some cs := by
  induction cs with
  | nil => rfl
  | cons c cs ih => rw [List.map_cons, joinPieces?, ih, Option.map_some]

/-- Plain text is read up to the closing quote. -/
theorem string?_plain {s : String} (hs : ∀ c ∈ s.toList, isPlain c = true) :
    string? (s.toList ++ '"' :: rest) = some (some s, rest) := by
  rw [string?, pieces?_plain hs]
  simp only [bind, Option.bind_some, joinPieces?_chars, Option.map_some, String.ofList_toList]

/-! ## Values -/

/-- A text that is read as one value, whatever comes after it. -/
def Reads (text : String) (d : Document) : Prop :=
  ∀ fuel rest, 2 * text.toList.length ≤ fuel → Ends rest →
    value? fuel (text.toList ++ rest) = some (d, rest)

theorem skipBlanks_cons {c : Char} (hc : isBlank c = false) (cs : List Char) :
    skipBlanks (c :: cs) = c :: cs :=
  List.dropWhile_cons_of_neg (by rw [hc]; decide)

/-- No value starts with a closing bracket. -/
theorem value?_of_closing {fuel : Nat} {c : Char} (hc : c = ']' ∨ c = '\x7d')
    (h : skipBlanks cs = c :: rest) : value? fuel cs = none := by
  cases fuel with
  | zero => rfl
  | succ fuel =>
    rw [value?, h]
    rcases hc with rfl | rfl <;> rfl

/-- A literal starts with a sign or a digit. -/
theorem Numeral.Proper.head_text (h : n.Proper) :
    ∃ c cs, n.text = c :: cs ∧ (c = '-' ∨ isDigit c = true) := by
  obtain ⟨negative, whole, places, exponent⟩ := n
  obtain ⟨hne, -, hwhole, -⟩ := h
  cases negative with
  | true => exact ⟨'-', _, rfl, .inl rfl⟩
  | false =>
    cases whole with
    | nil => exact absurd rfl hne
    | cons c cs => exact ⟨c, _, rfl, .inr (hwhole c List.mem_cons_self)⟩

/-- Nothing but a literal is read where a sign or a digit stands. -/
theorem value?_cons {c : Char} (hc : c = '-' ∨ isDigit c = true) (fuel : Nat) (cs : List Char) :
    value? (fuel + 1) (c :: cs) = (numeral? (c :: cs)).map fun (n, cs) => (.number n, cs) := by
  have hother : ∀ c' : Char, c' ≠ '-' → isDigit c' = false → c ≠ c' := by
    rintro _ hsign hdigit rfl
    rcases hc with hc | hc
    · exact hsign hc
    · rw [hdigit] at hc
      cases hc
  have hblank : isBlank c = false := by
    simp only [isBlank, Bool.or_eq_false_iff, beq_eq_false_iff_ne]
    exact ⟨⟨⟨hother _ (by decide) rfl, hother _ (by decide) rfl⟩, hother _ (by decide) rfl⟩,
      hother _ (by decide) rfl⟩
  rw [value?, skipBlanks_cons hblank]
  split
  -- the other marks that a value may start with
  iterate 6 · next heq => exact absurd (List.cons.inj heq).1 (hother _ (by decide) rfl)
  rfl

theorem Reads.number {text : String} (h : n.Proper) (htext : text.toList = n.text) :
    Reads text (.number n) := by
  intro fuel rest hfuel hends
  obtain ⟨c, cs, hhead, hc⟩ := h.head_text
  have hnumeral := numeral?_text h hends
  rw [htext] at hfuel ⊢
  rw [hhead, List.cons_append] at hnumeral ⊢
  rw [hhead, List.length_cons] at hfuel
  obtain ⟨fuel, rfl⟩ : ∃ k, fuel = k + 1 := ⟨fuel - 1, by omega⟩
  rw [value?_cons hc, hnumeral, Option.map_some]

theorem Reads.null : Reads "null" .null := by
  intro fuel rest hfuel _
  have hfuel : 2 * 4 ≤ fuel := hfuel
  obtain ⟨fuel, rfl⟩ : ∃ k, fuel = k + 1 := ⟨fuel - 1, by omega⟩
  rfl

theorem Reads.string {s : String} (hs : s.toList.all isPlain = true) :
    Reads ("\"" ++ s ++ "\"") (.string (some s)) := by
  intro fuel rest hfuel _
  have htext : ("\"" ++ s ++ "\"").toList = '"' :: (s.toList ++ ['"']) := by
    simp only [String.toList_append]
    rfl
  rw [htext, List.length_cons] at hfuel
  obtain ⟨fuel, rfl⟩ : ∃ k, fuel = k + 1 := ⟨fuel - 1, by omega⟩
  rw [htext, List.cons_append, List.append_assoc]
  rw [List.singleton_append]
  simp only [value?, skipBlanks_cons (c := '"') rfl]
  rw [string?_plain (List.all_eq_true.mp hs), Option.map_some]

/-! ## Arrays -/

/-- Texts that are read one by one, with commas between them. -/
theorem items?_reads {texts : List String} {docs : List Document}
    (h : List.Forall₂ Reads texts docs) (hne : texts ≠ []) {fuel : Nat}
    (hfuel : 2 * ([','].intercalate (texts.map String.toList)).length + 1 ≤ fuel) :
    items? fuel ([','].intercalate (texts.map String.toList) ++ ']' :: rest) =
      some (docs, rest) := by
  induction h generalizing fuel with
  | nil => exact absurd rfl hne
  | @cons text d texts docs htext htexts ih =>
    obtain ⟨fuel, rfl⟩ : ∃ k, fuel = k + 1 := ⟨fuel - 1, by omega⟩
    cases htexts with
    | nil =>
      rw [List.map_cons, List.map_nil, List.intercalate_singleton] at hfuel ⊢
      have hvalue := htext fuel (']' :: rest) (by omega) (by rintro c ⟨⟩; exact .inr (.inl rfl))
      rw [items?]
      simp only [hvalue, bind, Option.bind_some]
      rfl
    | @cons text' d' texts docs htext' htexts =>
      rw [List.map_cons, List.map_cons, List.intercalate_cons_cons, ← List.map_cons] at hfuel ⊢
      rw [List.length_append, List.length_append, List.length_singleton] at hfuel
      have hfuel : 2 * ([','].intercalate ((text' :: texts).map String.toList)).length + 1 ≤ fuel := by
        omega
      have hrest := ih (by simp) hfuel
      have hvalue := htext fuel
        (',' :: ([','].intercalate ((text' :: texts).map String.toList) ++ ']' :: rest))
        (by omega) (by rintro c ⟨⟩; exact .inl rfl)
      rw [List.append_assoc, List.append_assoc, List.singleton_append, items?]
      simp only [hvalue, bind, Option.bind_some]
      show ((items? fuel _).bind _) = _
      rw [hrest]
      rfl

/-- An array of texts that are read is read. -/
theorem Reads.array {texts : List String} {docs : List Document}
    (h : List.Forall₂ Reads texts docs) :
    Reads ("[" ++ ",".intercalate texts ++ "]") (.array docs) := by
  intro fuel rest hfuel _
  have htext : ("[" ++ ",".intercalate texts ++ "]").toList =
      '[' :: ([','].intercalate (texts.map String.toList) ++ [']']) := by
    simp only [String.toList_append, String.toList_intercalate]
    rfl
  rw [htext, List.length_cons, List.length_append, List.length_singleton] at hfuel
  obtain ⟨fuel, rfl⟩ : ∃ k, fuel = k + 1 := ⟨fuel - 1, by omega⟩
  rw [htext, List.cons_append, List.append_assoc, List.singleton_append]
  simp only [value?, skipBlanks_cons (c := '[') rfl]
  by_cases hne : texts = []
  · subst hne
    cases h
    rfl
  · have hfuel : 2 * ([','].intercalate (texts.map String.toList)).length + 1 ≤ fuel := by omega
    have hitems : items? fuel ([','].intercalate (texts.map String.toList) ++ ']' :: rest) =
        some (docs, rest) := items?_reads h hne hfuel
    split
    · next hclosing =>
      -- the first item would start with the bracket
      obtain ⟨fuel, rfl⟩ : ∃ k, fuel = k + 1 := ⟨fuel - 1, by omega⟩
      rw [items?, value?_of_closing (.inl rfl) hclosing] at hitems
      cases hitems
    · rw [hitems, Option.map_some]

/-! ## Objects -/

/-- A key and the text of a value, that are read as one field. -/
structure ReadsField (field : String × String) (f : Text × Document) : Prop where
  plain : ∀ c ∈ field.1.toList, isPlain c = true
  key : f.1 = some field.1
  value : Reads field.2 f.2

theorem readsField {key text : String} (hkey : key.toList.all isPlain = true)
    (h : Reads text d) : ReadsField (key, text) (some key, d) :=
  ⟨List.all_eq_true.mp hkey, rfl, h⟩

/-- A field as text. -/
def fieldText (field : String × String) : List Char :=
  '"' :: (field.1.toList ++ '"' :: ':' :: field.2.toList)

/-- Reading a field leaves what comes after its value. -/
theorem fields?_cons {field : String × String} {f : Text × Document} (h : ReadsField field f)
    {fuel : Nat} (hfuel : 2 * (fieldText field).length ≤ fuel) (hends : Ends rest) :
    fields? (fuel + 1) (fieldText field ++ rest) =
      match skipBlanks rest with
      | ',' :: cs => do
        let (fs, cs) ← fields? fuel cs
        some (f :: fs, cs)
      | '\x7d' :: cs => some ([f], cs)
      | _ => none := by
  obtain ⟨key, text⟩ := field
  obtain ⟨key', d⟩ := f
  obtain ⟨hplain, hkey, hvalue⟩ := h
  obtain rfl : key' = some key := hkey
  have hvalue : Reads text d := hvalue
  have hlen : text.toList.length ≤ (fieldText (key, text)).length := by
    simp only [fieldText, List.length_cons, List.length_append]
    omega
  have hread := hvalue fuel rest (by omega) hends
  have hstring : string? (key.toList ++ '"' :: ':' :: (text.toList ++ rest)) =
      some (some key, ':' :: (text.toList ++ rest)) := string?_plain hplain
  have htext : fieldText (key, text) ++ rest =
      '"' :: (key.toList ++ '"' :: ':' :: (text.toList ++ rest)) := by
    simp only [fieldText, List.cons_append, List.append_assoc]
  rw [htext, fields?, skipBlanks_cons rfl]
  have hcolon := skipBlanks_cons (c := ':') rfl (text.toList ++ rest)
  -- what the reader computes is named first, and only then compared
  apply Eq.trans
  · simp only [hstring, hcolon, hread, bind, Option.bind_some]
    rfl
  · rfl

theorem fields?_reads {fields : List (String × String)} {fs : List (Text × Document)}
    (h : List.Forall₂ ReadsField fields fs) (hne : fields ≠ []) {fuel : Nat}
    (hfuel : 2 * ([','].intercalate (fields.map fieldText)).length + 1 ≤ fuel) :
    fields? fuel ([','].intercalate (fields.map fieldText) ++ '\x7d' :: rest) =
      some (fs, rest) := by
  induction h generalizing fuel with
  | nil => exact absurd rfl hne
  | @cons field f fields fs hfield hfields ih =>
    obtain ⟨fuel, rfl⟩ : ∃ k, fuel = k + 1 := ⟨fuel - 1, by omega⟩
    cases hfields with
    | nil =>
      rw [List.map_cons, List.map_nil, List.intercalate_singleton] at hfuel ⊢
      rw [fields?_cons hfield (by omega) (by rintro c ⟨⟩; exact .inr (.inr rfl))]
      rfl
    | @cons field' f' fields fs hfield' hfields =>
      rw [List.map_cons, List.map_cons, List.intercalate_cons_cons, ← List.map_cons] at hfuel ⊢
      rw [List.length_append, List.length_append, List.length_singleton] at hfuel
      have hfuel : 2 * ([','].intercalate ((field' :: fields).map fieldText)).length + 1 ≤ fuel := by
        omega
      have hrest := ih (by simp) hfuel
      rw [List.append_assoc, List.append_assoc, List.singleton_append,
        fields?_cons hfield (by omega) (by rintro c ⟨⟩; exact .inl rfl)]
      show ((fields? fuel _).bind _) = _
      rw [hrest]
      rfl

theorem toList_object (fields : List (String × String)) :
    ("\x7b" ++ ",".intercalate (fields.map fun (key, value) => "\"" ++ key ++ "\"" ++ ":" ++ value)
      ++ "\x7d").toList = '\x7b' :: ([','].intercalate (fields.map fieldText) ++ ['\x7d']) := by
  simp only [String.toList_append, String.toList_intercalate, List.map_map]
  refine congrArg ('\x7b' :: [','].intercalate · ++ ['\x7d']) ?_
  refine List.map_congr_left fun field _ => ?_
  simp only [Function.comp_apply, String.toList_append, fieldText, List.append_assoc]
  rfl

/-- An object of fields that are read is read. -/
theorem Reads.object {fields : List (String × String)} {fs : List (Text × Document)}
    (h : List.Forall₂ ReadsField fields fs) :
    Reads ("\x7b" ++ ",".intercalate (fields.map fun (key, value) => "\"" ++ key ++ "\"" ++ ":" ++ value)
      ++ "\x7d") (.object fs) := by
  intro fuel rest hfuel _
  have htext := toList_object fields
  rw [htext, List.length_cons, List.length_append, List.length_singleton] at hfuel
  obtain ⟨fuel, rfl⟩ : ∃ k, fuel = k + 1 := ⟨fuel - 1, by omega⟩
  rw [htext, List.cons_append, List.append_assoc, List.singleton_append]
  simp only [value?, skipBlanks_cons (c := '\x7b') rfl]
  cases h with
  | nil => rfl
  | @cons field f fields fs hfield hfields =>
    have hfuel : 2 * ([','].intercalate ((field :: fields).map fieldText)).length + 1 ≤ fuel := by
      omega
    have hread : fields? fuel ([','].intercalate ((field :: fields).map fieldText) ++ '\x7d' :: rest) =
        some (f :: fs, rest) := fields?_reads (.cons hfield hfields) (by simp) hfuel
    split
    · next hclosing =>
      -- a field starts with a quote
      cases hfields with
      | nil => cases hclosing
      | cons => cases hclosing
    · rw [hread, Option.map_some]

/-! ## Whole texts -/

/-- A text that is read as a value is read as a document. -/
theorem parse?_of_reads {text : String} (h : Reads text d) : parse? text = some d := by
  have hvalue := h (2 * text.toList.length + 2) [] (by omega) (by rintro c ⟨⟩)
  rw [List.append_nil] at hvalue
  simp only [parse?, hvalue]
  rfl

end GatedNetwork.Json
