import ClasspathIndex.Archive.Code

/-!
# Deflated data

A deflated stream is a sequence of blocks.  A block holds bytes as they are, or symbols of
a fixed or a transmitted code.  A symbol is a byte, the end of the block, or a match: a
number of bytes to be repeated from a distance back in the output, before which zeros are
taken to stand.  `inflate` fails on every stream that breaks these rules or ends too
early; what follows the last block is not looked at.
-/

namespace ClasspathIndex.Archive

/-- The two codes of a block. -/
structure BlockCodes where
  /-- Bytes, the end of the block and match lengths. -/
  literals : CodeTree
  /-- Match distances. -/
  distances : CodeTree

/-- The symbol that ends a block. -/
def endOfBlock : Nat := 256

/-- The number of extra bits of a symbol; `groups` symbols share each number, from the first
symbol with one extra bit on. -/
def extraBits (groups symbol : Nat) : Nat :=
  if symbol < 2 * groups then 0 else symbol / groups - 1

/-- The first value of a symbol, counted from zero. -/
def firstValue (groups : Nat) : Nat → Nat
  | 0 => 0
  | symbol + 1 => firstValue groups symbol + (1 <<< extraBits groups symbol)

/-- The first length and the number of extra bits of a length symbol. -/
def lengthRange? (symbol : Nat) : Option (Nat × Nat) :=
  if symbol = 285 then some (258, 0)
  else if 257 ≤ symbol ∧ symbol < 285 then
    some (3 + firstValue 4 (symbol - 257), extraBits 4 (symbol - 257))
  else none

/-- The first distance and the number of extra bits of a distance symbol. -/
def distanceRange? (symbol : Nat) : Option (Nat × Nat) :=
  if symbol < 30 then some (1 + firstValue 2 symbol, extraBits 2 symbol) else none

/-- Reads a value that starts a range and is completed by extra bits. -/
def readValue (range : Option (Nat × Nat)) (bits : Bits) : Option (Nat × Bits) := do
  let (first, extra) ← range
  let (offset, bits) ← bits.number? extra
  return (first + offset, bits)

/-- The byte at a distance back in the output; before the first byte stand zeros. -/
def byteBack (distance : Nat) (out : Array UInt8) : UInt8 :=
  if distance ≤ out.size then out.getD (out.size - distance) 0 else 0

/-- Repeats output from a distance back; the copy may reach into itself. -/
def copyBack (distance : Nat) : Nat → Array UInt8 → Array UInt8
  | 0, out => out
  | n + 1, out => copyBack distance n (out.push (byteBack distance out))

/-- Reads symbols up to the end of the block, at most `fuel` of them. -/
def readSymbols (codes : BlockCodes) :
    Nat → Bits → Array UInt8 → Option (Bits × Array UInt8)
  | 0, _, _ => none
  | fuel + 1, bits, out => do
    let (symbol, bits) ← codes.literals.decode bits
    if symbol < endOfBlock then readSymbols codes fuel bits (out.push symbol.toUInt8)
    else if symbol = endOfBlock then some (bits, out)
    else
      let (length, bits) ← readValue (lengthRange? symbol) bits
      let (distanceSymbol, bits) ← codes.distances.decode bits
      let (distance, bits) ← readValue (distanceRange? distanceSymbol) bits
      readSymbols codes fuel bits (copyBack distance length out)

/-- The codeword lengths of the fixed code for literals. -/
def fixedLiteralLengths : List Nat :=
  List.replicate 144 8 ++ List.replicate 112 9 ++ List.replicate 24 7 ++ List.replicate 8 8

/-- The fixed codes. -/
def fixedCodes : BlockCodes :=
  ⟨.ofLengths fixedLiteralLengths, .ofLengths (List.replicate 32 5)⟩

/-- The order in which the codeword lengths of the length code are sent. -/
def lengthCodeOrder : List Nat :=
  [16, 17, 18, 0, 8, 7, 9, 6, 10, 5, 11, 4, 12, 3, 13, 2, 14, 1, 15]

/-- Reads the given number of numbers of three bits. -/
def readTriples : Nat → Bits → Option (List Nat × Bits)
  | 0, bits => some ([], bits)
  | n + 1, bits => do
    let (x, bits) ← bits.number? 3
    let (xs, bits) ← readTriples n bits
    return (x :: xs, bits)

/-- The codeword lengths of the length code by symbol. -/
def lengthCodeLengths (sent : List Nat) : List Nat :=
  (List.range 19).map fun symbol => ((lengthCodeOrder.zip sent).lookup symbol).getD 0

/-- Reads codeword lengths until `total` of them are there, with at most `fuel` symbols; the
last one read is at the front of `read`. -/
def readLengths (tree : CodeTree) (total : Nat) :
    Nat → Bits → List Nat → Option (List Nat × Bits)
  | 0, _, _ => none
  | fuel + 1, bits, read =>
    if total < read.length then none
    else if read.length = total then some (read.reverse, bits)
    else do
      let (symbol, bits) ← tree.decode bits
      if symbol < 16 then readLengths tree total fuel bits (symbol :: read)
      else if symbol = 16 then
        let (n, bits) ← bits.number? 2
        let last ← read.head?
        readLengths tree total fuel bits (List.replicate (3 + n) last ++ read)
      else if symbol = 17 then
        let (n, bits) ← bits.number? 3
        readLengths tree total fuel bits (List.replicate (3 + n) 0 ++ read)
      else
        let (n, bits) ← bits.number? 7
        readLengths tree total fuel bits (List.replicate (11 + n) 0 ++ read)

/-- Reads the codes that a block sends. -/
def readCodes (bits : Bits) : Option (BlockCodes × Bits) := do
  let (n, bits) ← bits.number? 5
  let (m, bits) ← bits.number? 5
  let (k, bits) ← bits.number? 4
  let literals := 257 + n
  let distances := 1 + m
  if literals > 286 ∨ distances > 30 then none
  else
    let (sent, bits) ← readTriples (4 + k) bits
    let lengthLengths := lengthCodeLengths sent
    if !isComplete lengthLengths then none
    else
      let total := literals + distances
      let (lengths, bits) ← readLengths (.ofLengths lengthLengths) total (total + 1) bits []
      let literalLengths := lengths.take literals
      let distanceLengths := lengths.drop literals
      if isUsable literalLengths && isUsable distanceLengths then
        return (⟨.ofLengths literalLengths, .ofLengths distanceLengths⟩, bits)
      else none

/-- Reads bytes that stand as they are, from the next byte boundary on. -/
def readStored (bits : Bits) (out : Array UInt8) : Option (Bits × Array UInt8) := do
  let bits : Bits := bits.drop (bits.length % 8)
  let (size, bits) ← bits.number? 16
  let (check, bits) ← bits.number? 16
  if size + check ≠ 0xFFFF then none else go size bits out
where
  /-- Reads the given number of bytes. -/
  go : Nat → Bits → Array UInt8 → Option (Bits × Array UInt8)
    | 0, bits, out => some (bits, out)
    | n + 1, bits, out => do
      let (b, bits) ← bits.number? 8
      go n bits (out.push b.toUInt8)

/-- Reads the content of a block of the given kind. -/
def readBlock (kind : Nat) (bits : Bits) (out : Array UInt8) : Option (Bits × Array UInt8) :=
  match kind with
  | 0 => readStored bits out
  | 1 => readSymbols fixedCodes bits.length bits out
  | 2 => do
    let (codes, bits) ← readCodes bits
    readSymbols codes bits.length bits out
  | _ => none

/-- Reads blocks up to the last one, at most `fuel` of them. -/
def readBlocks : Nat → Bits → Array UInt8 → Option (Array UInt8)
  | 0, _, _ => none
  | fuel + 1, bits, out => do
    let (last, bits) ← bits.number? 1
    let (kind, bits) ← bits.number? 2
    let (bits, out) ← readBlock kind bits out
    if last = 1 then return out else readBlocks fuel bits out

/-- The bytes that a deflated stream stands for. -/
def inflate (bs : Bytes) : Option Bytes :=
  let bits := Bits.ofBytes bs
  (readBlocks bits.length bits #[]).map Array.toList

end ClasspathIndex.Archive
