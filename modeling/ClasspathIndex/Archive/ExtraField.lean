import ClasspathIndex.Archive.Checksum
import ClasspathIndex.Archive.Member

/-!
# Extra fields

An entry of the directory ends with extra fields, each with a kind, a size and that many
bytes.  Fields of some kinds complete the entry, or have rules of their own; fields of
other kinds are passed over.  What a field says counts as far as the bytes reach: one that
is cut off is the last one, and does no harm.

`Member.complete?` gives the member that the fields make of an entry, and nothing if a
field breaks a rule.
-/

namespace ClasspathIndex.Archive

open Text

/-- What comes of reading an extra field. -/
inductive FieldResult where
  /-- The field breaks the rules of its kind. -/
  | broken
  /-- The bytes end before the field does; the member is as known so far. -/
  | cut (m : Member)
  /-- The member with what the field says, and the bytes after the field. -/
  | read (m : Member) (rest : Bytes)

namespace ExtraField

/-- Passes over the given number of bytes. -/
def skip (n : Nat) (m : Member) (bs : Bytes) : FieldResult :=
  match Bytes.splitExact? n bs with
  | some (_, rest) => .read m rest
  | none => .cut m

/-! ## Numbers that need eight bytes -/

/-- The numbers of an entry that may need more than four bytes, in the order in which a
field gives them. -/
inductive WideNumber where
  | size
  | compressedSize
  | headerPlace
  deriving DecidableEq, Repr

namespace WideNumber

/-- All of them, in order. -/
def all : List WideNumber := [size, compressedSize, headerPlace]

/-- The number in a member. -/
def get (m : Member) : WideNumber → Nat
  | size => m.size
  | compressedSize => m.compressedSize
  | headerPlace => m.headerPlace

/-- Replaces the number in a member. -/
def set (m : Member) (value : Nat) : WideNumber → Member
  | size => { m with size := value }
  | compressedSize => { m with compressedSize := value }
  | headerPlace => { m with headerPlace := value }

/-- The number that stands in four bytes for one that needs more. -/
def elsewhere : Nat := 0xFFFFFFFF

/-- The numbers that a field of the given size gives: all of them if it has room for all, and
otherwise those that stand elsewhere. -/
def given (fieldSize : Nat) (m : Member) : List WideNumber :=
  all.filter fun w => decide (8 * all.length ≤ fieldSize) || w.get m == elsewhere

/-- Reads numbers of eight bytes. -/
def read : List WideNumber → Member → Bytes → FieldResult
  | [], m, bs => .read m bs
  | w :: ws, m, bs =>
    match Bytes.splitExact? 8 bs with
    | some (value, rest) => read ws (w.set m (Bytes.littleEndian value)) rest
    | none => .cut m

end WideNumber

/-- Reads a field with numbers of eight bytes. -/
def readWide (size : Nat) (m : Member) (bs : Bytes) : FieldResult :=
  let given := WideNumber.given size m
  match WideNumber.read given m bs with
  | .read m rest =>
    if size < 8 * given.length then .broken else skip (size - 8 * given.length) m rest
  | result => result

/-! ## Times -/

/-- Reads a field with up to three times of four bytes.  The flags say which ones there are;
a field with a single time need not agree with its flags. -/
def readTimes (size : Nat) (m : Member) : Bytes → FieldResult
  | [] => .cut m
  | flags :: rest =>
    let times := ([0, 1, 2].filter fun i => flags.toNat.testBit i).length
    if 8 ≤ flags ∨ (size ≠ 5 ∧ size ≠ 1 + 4 * times) then .broken
    else skip (size - 1) m rest

/-- Reads a field with three times of eight bytes, behind four unused bytes, the tag 1 and the
size of the times. -/
def readLongTimes (size : Nat) (m : Member) (bs : Bytes) : FieldResult :=
  if size ≠ 32 then .broken
  else
    match Bytes.splitExact? 6 bs with
    | none => .cut m
    | some (head, bs) =>
      if number head 4 2 ≠ 1 then .broken
      else
        match Bytes.splitExact? 2 bs with
        | none => .cut m
        | some (timesSize, rest) =>
          if Bytes.littleEndian timesSize ≠ 24 then .broken else skip 24 m rest

/-! ## Ciphers -/

/-- Reads a field with a version, a maker, a cipher and the method of compression under the
cipher. -/
def readCipher (size : Nat) (m : Member) (bs : Bytes) : FieldResult :=
  if size ≠ 7 then .broken
  else
    match Bytes.splitExact? 7 bs with
    | none => .cut m
    | some (field, rest) =>
      let version := number field 0 2
      let cipher := number field 4 1
      if number field 2 2 = 0x4541 ∧ 1 ≤ version ∧ version ≤ 2 ∧ 1 ≤ cipher ∧ cipher ≤ 3 then
        .read { m with cipher := some cipher, method := number field 5 2 } rest
      else .broken

/-! ## Texts in UTF-8 -/

/-- Reads a field with a version, a checksum and a text in UTF-8.  The text takes the place of
`old`, of which it must give the checksum; `set` puts it into the member. -/
def readText (size : Nat) (old : Bytes) (set : Bytes → String → Member) (m : Member)
    (bs : Bytes) : FieldResult :=
  match Bytes.splitExact? 5 bs with
  | none => .cut m
  | some (head, bs) =>
    if size < 5 then .broken
    else
      match Bytes.splitExact? (size - 5) bs with
      | none => .cut m
      | some (text, rest) =>
        if (checksum old).toNat ≠ number head 1 4 then .broken
        else
          match Utf8.decode? text with
          | none => .broken
          | some s => .read (set text s) rest

/-- Reads a field with a name. -/
def readName (size : Nat) (m : Member) : Bytes → FieldResult :=
  readText size m.rawName (fun bs s => { m with rawName := bs, name := s }) m

/-- Reads a field with a comment. -/
def readComment (size : Nat) (m : Member) : Bytes → FieldResult :=
  readText size (Utf8.encode m.comment) (fun _ s => { m with comment := s }) m

/-! ## All fields -/

/-- Reads the bytes of a field of the given kind and size. -/
def readField (kind size : Nat) (m : Member) (bs : Bytes) : FieldResult :=
  if kind = 0x0001 then readWide size m bs
  else if kind = 0x000A then readLongTimes size m bs
  else if kind = 0x5455 then readTimes size m bs
  else if kind = 0x6375 then readComment size m bs
  else if kind = 0x7075 then readName size m bs
  else if kind = 0x9901 then readCipher size m bs
  else skip size m bs

/-- Reads fields, at most `fuel` of them. -/
def readFields : Nat → Member → Bytes → Option Member
  | 0, m, _ => some m
  | fuel + 1, m, bs =>
    match Bytes.splitExact? 4 bs with
    | none => some m
    | some (head, bs) =>
      match readField (number head 0 2) (number head 2 2) m bs with
      | .broken => none
      | .cut m => some m
      | .read m rest => readFields fuel m rest

end ExtraField

/-- The member that the extra fields make of an entry.  A field has four bytes at least, so
there are fewer fields than bytes. -/
def Member.complete? (m : Member) (extra : Bytes) : Option Member :=
  (ExtraField.readFields extra.length m extra).filter fun m => !m.lacksCipher

end ClasspathIndex.Archive
