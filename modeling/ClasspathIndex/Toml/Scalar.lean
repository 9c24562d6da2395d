import ClasspathIndex.Text.Split

/-!
# Plain values in TOML

Truth values, integers, floating-point numbers, dates and times are written without
quotes.  This module says which words are such values; what they stand for is not kept,
since no setting is a number, a truth value or a date.
-/

namespace ClasspathIndex.Toml

open Text

/-- Whether digits are written, with single underscores between digits. -/
def isDigits (isDigit : Char → Bool) : List Char → Bool
  | [] => false
  | [c] => isDigit c
  | c :: '_' :: rest => isDigit c && isDigits isDigit rest
  | c :: rest => isDigit c && isDigits isDigit rest

/-- Drops a sign. -/
def dropSign : List Char → List Char
  | '+' :: rest => rest
  | '-' :: rest => rest
  | cs => cs

/-- Whether digits are written that do not start with a needless zero. -/
def isDecimal (cs : List Char) : Bool :=
  isDigits Char.isDigit cs && (cs.head? != some '0' || cs.length == 1)

/-- The number written by digits of a base, underscores left out. -/
def digitsValue (base : Nat) (cs : List Char) : Nat :=
  (cs.filter (· ≠ '_')).foldl
    (fun n c =>
      base * n + if c.isDigit then c.toNat - '0'.toNat else c.toLower.toNat - 'a'.toNat + 10) 0

/-- The greatest integer of 64 bits; the least one is further from zero by one. -/
def maxInteger : Nat := 0x7FFFFFFFFFFFFFFF

/-- Whether a word is an integer of 64 bits. -/
def isInteger : List Char → Bool
  | '0' :: 'x' :: ds =>
    isDigits (fun c => c.isDigit || 'a' ≤ c.toLower && c.toLower ≤ 'f') ds
      && decide (digitsValue 16 ds ≤ maxInteger)
  | '0' :: 'o' :: ds =>
    isDigits (fun c => '0' ≤ c && c ≤ '7') ds && decide (digitsValue 8 ds ≤ maxInteger)
  | '0' :: 'b' :: ds =>
    isDigits (fun c => c == '0' || c == '1') ds && decide (digitsValue 2 ds ≤ maxInteger)
  | '-' :: ds => isDecimal ds && decide (digitsValue 10 ds ≤ maxInteger + 1)
  | cs => isDecimal (dropSign cs) && decide (digitsValue 10 (dropSign cs) ≤ maxInteger)

/-- Whether digits are written, with a fraction if `needed`. -/
def isMantissa (needed : Bool) (cs : List Char) : Bool :=
  match breakFirst '.' cs with
  | some (whole, fraction) => isDecimal whole && isDigits Char.isDigit fraction
  | none => !needed && isDecimal cs

/-- Whether a word is a floating-point number. -/
def isFloat (cs : List Char) : Bool :=
  let number := dropSign cs
  if number == "inf".toList || number == "nan".toList then true
  else
    match breakFirst 'e' (number.map fun c => if c = 'E' then 'e' else c) with
    | some (mantissa, exponent) =>
      isMantissa false mantissa && isDigits Char.isDigit (dropSign exponent)
    | none => isMantissa true number

/-- The number written by decimal digits alone. -/
def plainNumber? (cs : List Char) : Option Nat :=
  if cs.all Char.isDigit then some (digitsValue 10 cs) else none

/-- The number of days of a month. -/
def daysIn (year month : Nat) : Nat :=
  if month = 2 then
    if year % 4 = 0 ∧ (year % 100 ≠ 0 ∨ year % 400 = 0) then 29 else 28
  else if month = 4 ∨ month = 6 ∨ month = 9 ∨ month = 11 then 30
  else 31

/-- Reads a date such as `1979-05-27` off the front. -/
def dropDate? : List Char → Option (List Char)
  | a :: b :: c :: d :: '-' :: e :: f :: '-' :: g :: h :: rest => do
    let year ← plainNumber? [a, b, c, d]
    let month ← plainNumber? [e, f]
    let day ← plainNumber? [g, h]
    if 1 ≤ month ∧ month ≤ 12 ∧ 1 ≤ day ∧ day ≤ daysIn year month then some rest else none
  | _ => none

/-- Reads hours and minutes such as `07:32` off the front. -/
def dropMinutes? : List Char → Option (List Char)
  | a :: b :: ':' :: c :: d :: rest => do
    let hour ← plainNumber? [a, b]
    let minute ← plainNumber? [c, d]
    if hour ≤ 23 ∧ minute ≤ 59 then some rest else none
  | _ => none

/-- Reads a fraction of a second off the front, if there is one. -/
def dropFraction? : List Char → Option (List Char)
  | '.' :: c :: rest => if c.isDigit then some (rest.dropWhile Char.isDigit) else none
  | '.' :: [] => none
  | cs => some cs

/-- Reads a time such as `07:32:00.5` off the front. -/
def dropTime? (cs : List Char) : Option (List Char) := do
  match ← dropMinutes? cs with
  | ':' :: a :: b :: rest => do
    let second ← plainNumber? [a, b]
    if second ≤ 60 then dropFraction? rest else none
  | _ => none

/-- Whether nothing or the offset of a time zone is left. -/
def isOffset : List Char → Bool
  | [] => true
  | ['Z'] => true
  | ['z'] => true
  | '+' :: rest => dropMinutes? rest == some []
  | '-' :: rest => dropMinutes? rest == some []
  | _ => false

/-- Whether a word is a date, a time or both. -/
def isDateTime (cs : List Char) : Bool :=
  match dropDate? cs with
  | some [] => true
  | some (c :: rest) =>
    (c == 'T' || c == 't' || c == ' ') &&
      match dropTime? rest with
      | some offset => isOffset offset
      | none => false
  | none => dropTime? cs == some []

/-- Whether a word is a value without quotes. -/
def isScalar (cs : List Char) : Bool :=
  cs == "true".toList || cs == "false".toList || isInteger cs || isFloat cs || isDateTime cs

/-- Whether a character may stand in a value without quotes. -/
def isScalarChar (c : Char) : Bool :=
  c.isAlphanum || c == '_' || c == '+' || c == '-' || c == '.' || c == ':'

/-- Takes the characters of a plain value off the front.  A blank between a date and a time
belongs to them. -/
def takeScalar (cs : List Char) : List Char × List Char :=
  let word := cs.takeWhile isScalarChar
  let rest := cs.dropWhile isScalarChar
  match dropDate? word, rest with
  | some [], ' ' :: next =>
    let time := next.takeWhile isScalarChar
    if (dropMinutes? time).isSome then
      (word ++ ' ' :: time, next.dropWhile isScalarChar)
    else (word, rest)
  | _, _ => (word, rest)

/-- Reads past a value without quotes. -/
def dropScalar? (cs : List Char) : Option (List Char) :=
  let (word, rest) := takeScalar cs
  if isScalar word then some rest else none

end ClasspathIndex.Toml
