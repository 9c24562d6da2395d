/-!
# UTF-16

A text is a sequence of 16-bit units: a character up to U+FFFF is one unit, every other
character is a pair of *surrogates*, a high one and a low one.
-/

namespace ClasspathIndex.Text.Utf16

/-- Whether a unit is the first half of a surrogate pair. -/
def isHigh (u : UInt16) : Bool :=
  decide (0xD800 ≤ u) && decide (u ≤ 0xDBFF)

/-- Whether a unit is the second half of a surrogate pair. -/
def isLow (u : UInt16) : Bool :=
  decide (0xDC00 ≤ u) && decide (u ≤ 0xDFFF)

/-- The character that a surrogate pair stands for. -/
def pairChar (high low : UInt16) : Char :=
  Char.ofNat (0x10000 + (high.toNat - 0xD800) * 0x400 + (low.toNat - 0xDC00))

/-- Reads units as text; a surrogate without its partner becomes U+FFFD. -/
def decode : List UInt16 → List Char
  | [] => []
  | [u] => [if isHigh u || isLow u then '\uFFFD' else Char.ofNat u.toNat]
  | u :: v :: us =>
    if isHigh u && isLow v then pairChar u v :: decode us
    else (if isHigh u || isLow u then '\uFFFD' else Char.ofNat u.toNat) :: decode (v :: us)

/-- The units of one character. -/
def encodeChar (c : Char) : List UInt16 :=
  if c.toNat < 0x10000 then [c.toNat.toUInt16]
  else
    let n := c.toNat - 0x10000
    [(0xD800 + n / 0x400).toUInt16, (0xDC00 + n % 0x400).toUInt16]

/-- The units of a text. -/
def encode (cs : List Char) : List UInt16 :=
  cs.flatMap encodeChar

end ClasspathIndex.Text.Utf16
