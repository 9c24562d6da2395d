import ClasspathIndex.Bytes

/-!
# UTF-8

`Utf8.encode` and `Utf8.decode?` go between texts and byte strings; a byte string is
*valid* when it is the encoding of a text.  `Utf8.decodeLossy` reads every byte string:
each *broken stretch* of an invalid one becomes the replacement character U+FFFD, where
a broken stretch is the longest start of an encoded character, or one byte if no
encoded character starts with it.
-/

namespace ClasspathIndex.Text.Utf8

/-- The UTF-8 encoding of a text. -/
def encode (s : String) : Bytes :=
  s.toUTF8.data.toList

/-- The text that a valid byte string encodes. -/
def decode? (bs : Bytes) : Option String :=
  String.fromUTF8? ⟨bs.toArray⟩

/-- A text is read back from its bytes. -/
theorem decode?_encode (s : String) : decode? (encode s) = some s := by
  simp [decode?, encode, String.fromUTF8?, String.fromUTF8, s.isValidUTF8]

/-- A valid byte string is the encoding of the text it is decoded to. -/
theorem encode_of_decode? {bs : Bytes} {s : String} (h : decode? bs = some s) : encode s = bs := by
  simp only [decode?, String.fromUTF8?] at h
  split at h
  · cases h
    simp [encode, String.fromUTF8]
  · cases h

/-- The replacement character U+FFFD. -/
def replacement : Char := '\uFFFD'

/-- What the leading byte of a character of two or more bytes announces: the range of its
second byte, and how many bytes follow that one. -/
def secondRange? (b : UInt8) : Option (UInt8 × UInt8 × Nat) :=
  if 0xC2 ≤ b ∧ b ≤ 0xDF then some (0x80, 0xBF, 0)
  else if b = 0xE0 then some (0xA0, 0xBF, 1)
  else if b = 0xED then some (0x80, 0x9F, 1)
  else if 0xE1 ≤ b ∧ b ≤ 0xEF then some (0x80, 0xBF, 1)
  else if b = 0xF0 then some (0x90, 0xBF, 2)
  else if 0xF1 ≤ b ∧ b ≤ 0xF3 then some (0x80, 0xBF, 2)
  else if b = 0xF4 then some (0x80, 0x8F, 2)
  else none

/-- How many of the first `n` bytes continue a character. -/
def tails : Nat → Bytes → Nat
  | n + 1, b :: bs => if 0x80 ≤ b ∧ b ≤ 0xBF then tails n bs + 1 else 0
  | _, _ => 0

/-- How many bytes after the leading byte `b` belong to its character or broken stretch,
and whether the character is complete. -/
def follow (b : UInt8) (bs : Bytes) : Nat × Bool :=
  if b < 0x80 then (0, true)
  else
    match secondRange? b, bs with
    | some (lo, hi, n), c :: cs =>
      if lo ≤ c ∧ c ≤ hi then (tails n cs + 1, tails n cs == n) else (0, false)
    | _, _ => (0, false)

/-- Reads up to `fuel` characters and broken stretches. -/
def decodeChunks : Nat → Bytes → List Char
  | 0, _ => []
  | _ + 1, [] => []
  | fuel + 1, b :: bs =>
    let (n, complete) := follow b bs
    let chunk := if complete then decode? (b :: bs.take n) else none
    (match chunk with
      | some s => s.toList
      | none => [replacement]) ++ decodeChunks fuel (bs.drop n)

/-- The text of a byte string, with U+FFFD for every broken stretch. -/
def decodeLossy (bs : Bytes) : String :=
  match decode? bs with
  | some s => s
  | none => String.ofList (decodeChunks bs.length bs)

/-- Valid byte strings are read exactly. -/
theorem decodeLossy_encode (s : String) : decodeLossy (encode s) = s := by
  simp [decodeLossy, decode?_encode]

end ClasspathIndex.Text.Utf8
