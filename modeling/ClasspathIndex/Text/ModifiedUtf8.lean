import ClasspathIndex.Text.Utf8
import ClasspathIndex.Text.Utf16

/-!
# Modified UTF-8

Text constants of a class file hold 16-bit units, each written in one to three bytes.
The unit zero takes two bytes, so that no encoded text holds a zero byte, and a
character above U+FFFF is written as its two surrogates, three bytes each.

Reading is lenient.  A constant that is valid UTF-8 is taken as it stands; otherwise the
units are read one by one, where a byte that starts no unit counts as the unit U+FFFD,
and the units are then read as UTF-16.
-/

namespace ClasspathIndex.Text.ModifiedUtf8

/-- Whether a byte continues a unit that was begun before it. -/
def isTail (b : UInt8) : Bool :=
  b &&& 0xC0 == 0x80

/-- The six bits that a continuing byte carries. -/
def tailBits (b : UInt8) : UInt16 :=
  (b &&& 0x3F).toUInt16

/-- Reads the units one by one; a byte that starts no unit counts as U+FFFD. -/
def units : Bytes → List UInt16
  | [] => []
  | b :: bs =>
    if b &&& 0x80 == 0 then b.toUInt16 :: units bs
    else if b &&& 0xE0 == 0xC0 then
      match bs with
      | c :: cs =>
        if isTail c then ((b &&& 0x1F).toUInt16 <<< 6 ||| tailBits c) :: units cs
        else 0xFFFD :: units (c :: cs)
      | [] => [0xFFFD]
    else if b &&& 0xF0 == 0xE0 then
      match bs with
      | c :: d :: ds =>
        if isTail c && isTail d then
          ((b &&& 0x0F).toUInt16 <<< 12 ||| tailBits c <<< 6 ||| tailBits d) :: units ds
        else 0xFFFD :: units (c :: d :: ds)
      | [c] => 0xFFFD :: units [c]
      | [] => [0xFFFD]
    else 0xFFFD :: units bs

/-- Reads a byte string unit by unit, whether it is valid UTF-8 or not. -/
def decodeUnits (bs : Bytes) : String :=
  String.ofList (Utf16.decode (units bs))

/-- The text of a text constant. -/
def decode (bs : Bytes) : String :=
  match Utf8.decode? bs with
  | some s => s
  | none => decodeUnits bs

/-- The bytes of one unit. -/
def encodeUnit (u : UInt16) : Bytes :=
  if u ≠ 0 ∧ u < 0x80 then [u.toUInt8]
  else if u < 0x800 then
    [(0xC0 : UInt8) ||| (u >>> 6).toUInt8, (0x80 : UInt8) ||| (u &&& 0x3F).toUInt8]
  else
    [(0xE0 : UInt8) ||| (u >>> 12).toUInt8, (0x80 : UInt8) ||| (u >>> 6 &&& 0x3F).toUInt8,
      (0x80 : UInt8) ||| (u &&& 0x3F).toUInt8]

/-- The bytes of a sequence of units. -/
def encodeUnits (us : List UInt16) : Bytes :=
  us.flatMap encodeUnit

/-- The bytes of a text. -/
def encode (s : String) : Bytes :=
  encodeUnits (Utf16.encode s.toList)

end ClasspathIndex.Text.ModifiedUtf8
