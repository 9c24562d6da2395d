import ClasspathIndex.Bytes

/-!
# The checksum of an archive member

The checksum is the cyclic redundancy check with the reversed polynomial `EDB88320`,
computed bit by bit: a register of 32 bits that starts with all bits set, and is
inverted at the end.
-/

namespace ClasspathIndex.Archive

/-- One bit of the division: shifts the register, and subtracts the polynomial if the bit
that leaves is set. -/
def checksumBit (register : UInt32) : UInt32 :=
  if register &&& 1 = 1 then register >>> 1 ^^^ 0xEDB88320 else register >>> 1

/-- Takes a byte into the register. -/
def checksumByte (register : UInt32) (b : UInt8) : UInt32 :=
  Nat.repeat checksumBit 8 (register ^^^ b.toUInt32)

/-- The checksum of a byte string. -/
def checksum (bs : Bytes) : UInt32 :=
  bs.foldl checksumByte 0xFFFFFFFF ^^^ 0xFFFFFFFF

/-- The published check value of the code. -/
example : checksum [0x31, 0x32, 0x33, 0x34, 0x35, 0x36, 0x37, 0x38, 0x39] = 0xCBF43926 := by
  decide +kernel

end ClasspathIndex.Archive
