import ClasspathIndex.Bytes

/-!
# Records of an archive

The parts of an archive other than the data of its members are records of fixed size, some
with texts after them.  A record starts with a mark of four bytes, and its numbers stand at
fixed places, with the least significant byte first.
-/

namespace ClasspathIndex.Archive

/-- A number of `size` bytes at a place in a record. -/
def number (record : Bytes) (place size : Nat) : Nat :=
  Bytes.littleEndian ((record.drop place).take size)

/-- The first bytes of an end record. -/
def endMark : Bytes := [0x50, 0x4B, 0x05, 0x06]

/-- The first bytes of a large end record. -/
def largeEndMark : Bytes := [0x50, 0x4B, 0x06, 0x06]

/-- The first bytes of the locator of a large end record. -/
def locatorMark : Bytes := [0x50, 0x4B, 0x06, 0x07]

/-- The first bytes of a directory entry. -/
def entryMark : Bytes := [0x50, 0x4B, 0x01, 0x02]

/-- The first bytes of the header before the data of a member. -/
def headerMark : Bytes := [0x50, 0x4B, 0x03, 0x04]

/-- The places where `mark` stands; the first byte has the place `start`. -/
def placesOf (mark : Bytes) : Nat → Bytes → List Nat
  | _, [] => []
  | start, b :: bs =>
    if mark.isPrefixOf (b :: bs) then start :: placesOf mark (start + 1) bs
    else placesOf mark (start + 1) bs

/-- The places where `mark` stands between two places of a file. -/
def placesBetween (mark : Bytes) (first last : Nat) (file : Bytes) : List Nat :=
  placesOf mark first ((file.drop first).take (last - first))

end ClasspathIndex.Archive
