import ClasspathIndex.Archive.Record
import ClasspathIndex.Text.CodePage437
import ClasspathIndex.Text.Utf8

/-!
# Archive members

A member is a named content of an archive, as an entry of the directory describes it.  The
description may be completed by the extra fields of the entry.
-/

namespace ClasspathIndex.Archive

open Text

/-- A member as the directory describes it. -/
structure Member where
  /-- The bytes that the name was read from. -/
  rawName : Bytes
  name : String
  comment : String
  /-- Whether the member is a symbolic link. -/
  isLink : Bool
  encrypted : Bool
  /-- The number of the cipher that an extra field names. -/
  cipher : Option Nat
  /-- The number of the compression method. -/
  method : Nat
  checksum : Nat
  /-- The size of the content. -/
  size : Nat
  compressedSize : Nat
  /-- Where the header of the member starts. -/
  headerPlace : Nat
  deriving Repr

namespace Member

/-- Whether the attributes of an entry say that it is a symbolic link: the system is Unix
and the file mode has the bits of a link. -/
def isLinkMode (system attributes : Nat) : Bool :=
  system == 3 && (attributes >>> 16) &&& 0o120000 == 0o120000

/-- A text of an entry; bit 11 of the flags says whether it is UTF-8. -/
def decodeText (flags : Nat) (bs : Bytes) : String :=
  if flags.testBit 11 then Utf8.decodeLossy bs else CodePage437.decode bs

/-- The member with the given record in the directory and the texts after it. -/
def ofRecord (record name comment : Bytes) : Member :=
  let flags := number record 8 2
  { rawName := name
    name := decodeText flags name
    comment := decodeText flags comment
    isLink := isLinkMode (number record 5 1) (number record 38 4)
    encrypted := flags.testBit 0
    cipher := none
    method := number record 10 2
    checksum := number record 16 4
    size := number record 24 4
    compressedSize := number record 20 4
    headerPlace := number record 42 4 }

/-- The number that stands in the place of the method when an extra field names the cipher. -/
def cipherMethod : Nat := 99

/-- Whether the member needs a cipher that is not named. -/
def lacksCipher (m : Member) : Bool :=
  m.method == cipherMethod && m.cipher.isNone

end Member

end ClasspathIndex.Archive
