import GatedNetwork.Json.Number

/-!
# Documents

Reading text as a JSON document (RFC 8259): no comments, no trailing commas, no leading zeros, no raw
control characters, and nothing but white space after the value.

A string whose escapes pair up to no character keeps its place in the document without a text: it is
fine where a value is skipped and refused where a text is wanted. Numbers stay literals, for the same
reason.
-/

namespace GatedNetwork.Json

/-- A text, or nothing if its escapes stand for no text. -/
abbrev Text := Option String

/-- A document. -/
inductive Document where
  | null
  | bool (b : Bool)
  | number (n : Numeral)
  | string (s : Text)
  | array (items : List Document)
  | object (fields : List (Text × Document))

/-! ## Tokens -/

def isBlank (c : Char) : Bool := c == ' ' || c == '\n' || c == '\t' || c == '\r'

def skipBlanks (cs : List Char) : List Char := cs.dropWhile isBlank

/-- What follows `word` in front of `cs`. -/
def dropWord? : (word cs : List Char) → Option (List Char)
  | [], cs => some cs
  | w :: ws, c :: cs => if w = c then dropWord? ws cs else none
  | _ :: _, [] => none

/-- The value of a hexadecimal digit. -/
def hexDigit? (c : Char) : Option Nat :=
  if '0' ≤ c && c ≤ '9' then some (c.toNat - '0'.toNat)
  else if 'a' ≤ c && c ≤ 'f' then some (c.toNat - 'a'.toNat + 10)
  else if 'A' ≤ c && c ≤ 'F' then some (c.toNat - 'A'.toNat + 10)
  else none

/-- The 16-bit unit of four hexadecimal digits. -/
def hexUnit? (a b c d : Char) : Option Nat := do
  let a ← hexDigit? a
  let b ← hexDigit? b
  let c ← hexDigit? c
  let d ← hexDigit? d
  some (((a * 16 + b) * 16 + c) * 16 + d)

/-! ## Strings -/

/-- A piece of a string: a character, or a 16-bit unit from an escape. -/
inductive Piece where
  | char (c : Char)
  | unit (n : Nat)
deriving DecidableEq

/-- The character that a single letter after a backslash stands for. -/
def escaped? : Char → Option Char
  | '"' => some '"'
  | '\\' => some '\\'
  | '/' => some '/'
  | 'b' => some '\x08'
  | 'f' => some '\x0c'
  | 'n' => some '\n'
  | 'r' => some '\r'
  | 't' => some '\t'
  | _ => none

/-- The pieces of a string up to its closing quote, and the rest. -/
def pieces? : List Char → Option (List Piece × List Char)
  | [] => none
  | '"' :: cs => some ([], cs)
  | '\\' :: 'u' :: a :: b :: c :: d :: cs => do
    let n ← hexUnit? a b c d
    let (ps, cs) ← pieces? cs
    some (.unit n :: ps, cs)
  | '\\' :: e :: cs => do
    let c ← escaped? e
    let (ps, cs) ← pieces? cs
    some (.char c :: ps, cs)
  | c :: cs =>
    if c = '\\' ∨ c.toNat < 0x20 then none
    else do
      let (ps, cs) ← pieces? cs
      some (.char c :: ps, cs)

def isHighSurrogate (n : Nat) : Bool := 0xD800 ≤ n && n < 0xDC00

def isLowSurrogate (n : Nat) : Bool := 0xDC00 ≤ n && n < 0xE000

/-- The characters of pieces: two units that form a pair stand for one character, and a unit of a pair
alone for none. -/
def joinPieces? : List Piece → Option (List Char)
  | [] => some []
  | .char c :: ps => (joinPieces? ps).map (c :: ·)
  | .unit a :: ps =>
    if isHighSurrogate a then
      match ps with
      | .unit b :: ps =>
        if isLowSurrogate b then
          (joinPieces? ps).map (Char.ofNat (0x10000 + (a - 0xD800) * 0x400 + (b - 0xDC00)) :: ·)
        else none
      | _ => none
    else if isLowSurrogate a then none
    else (joinPieces? ps).map (Char.ofNat a :: ·)

/-- A string after its opening quote, and the rest. -/
def string? (cs : List Char) : Option (Text × List Char) := do
  let (ps, cs) ← pieces? cs
  some ((joinPieces? ps).map String.ofList, cs)

/-! ## Numbers -/

/-- The digits before the point: a zero alone, or digits that start with another one. -/
def wholeDigits? (cs : List Char) : Option (List Char × List Char) :=
  match cs with
  | '0' :: cs => some (['0'], cs)
  | _ =>
    let (ds, rest) := Decimal.spanDigits cs
    if ds.isEmpty then none else some (ds, rest)

/-- A point and digits, or nothing. -/
def placeDigits? (cs : List Char) : Option (List Char × List Char) :=
  match cs with
  | '.' :: cs =>
    let (ds, rest) := Decimal.spanDigits cs
    if ds.isEmpty then none else some (ds, rest)
  | _ => some ([], cs)

/-- A mark, an optional sign and digits, or nothing. -/
def exponent? (cs : List Char) : Option (Option Int × List Char) :=
  match cs with
  | c :: rest =>
    if c = 'e' ∨ c = 'E' then
      let (negative, rest) := Decimal.takeSign rest
      let (ds, rest) := Decimal.spanDigits rest
      if ds.isEmpty then none
      else
        let n : Int := Decimal.digitsValue ds
        some (some (if negative then -n else n), rest)
    else some (none, cs)
  | [] => some (none, cs)

/-- A number literal and the rest. -/
def numeral? (cs : List Char) : Option (Numeral × List Char) := do
  let (negative, cs) := match cs with
    | '-' :: cs => (true, cs)
    | _ => (false, cs)
  let (whole, cs) ← wholeDigits? cs
  let (places, cs) ← placeDigits? cs
  let (exponent, cs) ← exponent? cs
  some ({ negative, whole, places, exponent }, cs)

/-! ## Values -/

mutual

/-- A value and the rest. -/
def value? (fuel : Nat) (cs : List Char) : Option (Document × List Char) :=
  match fuel with
  | 0 => none
  | fuel + 1 =>
    match skipBlanks cs with
    | '"' :: cs => (string? cs).map fun (s, cs) => (.string s, cs)
    | '[' :: cs =>
      match skipBlanks cs with
      | ']' :: cs => some (.array [], cs)
      | _ => (items? fuel cs).map fun (items, cs) => (.array items, cs)
    | '\x7b' :: cs =>
      match skipBlanks cs with
      | '\x7d' :: cs => some (.object [], cs)
      | _ => (fields? fuel cs).map fun (fields, cs) => (.object fields, cs)
    | 'n' :: cs => (dropWord? ['u', 'l', 'l'] cs).map (.null, ·)
    | 't' :: cs => (dropWord? ['r', 'u', 'e'] cs).map (.bool true, ·)
    | 'f' :: cs => (dropWord? ['a', 'l', 's', 'e'] cs).map (.bool false, ·)
    | cs => (numeral? cs).map fun (n, cs) => (.number n, cs)

/-- The items of an array up to its closing bracket, and the rest. -/
def items? (fuel : Nat) (cs : List Char) : Option (List Document × List Char) :=
  match fuel with
  | 0 => none
  | fuel + 1 => do
    let (v, cs) ← value? fuel cs
    match skipBlanks cs with
    | ',' :: cs =>
      let (vs, cs) ← items? fuel cs
      some (v :: vs, cs)
    | ']' :: cs => some ([v], cs)
    | _ => none

/-- The fields of an object up to its closing brace, and the rest. -/
def fields? (fuel : Nat) (cs : List Char) : Option (List (Text × Document) × List Char) :=
  match fuel with
  | 0 => none
  | fuel + 1 => do
    let '"' :: cs := skipBlanks cs | none
    let (key, cs) ← string? cs
    let ':' :: cs := skipBlanks cs | none
    let (v, cs) ← value? fuel cs
    match skipBlanks cs with
    | ',' :: cs =>
      let (rest, cs) ← fields? fuel cs
      some ((key, v) :: rest, cs)
    | '\x7d' :: cs => some ([(key, v)], cs)
    | _ => none

end

/-- Reads a whole text as a document. Each value, item and field takes at least one character, so two
steps per character are enough. -/
def parse? (text : String) : Option Document :=
  let cs := text.toList
  match value? (2 * cs.length + 2) cs with
  | some (d, rest) => if (skipBlanks rest).isEmpty then some d else none
  | none => none

end GatedNetwork.Json
