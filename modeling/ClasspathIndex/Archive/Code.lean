import ClasspathIndex.Bytes

/-!
# Canonical codes

A compressed stream names symbols by codewords of zeros and ones, none of which starts
another.  The code is given by the length of each codeword alone: codewords of one length
are consecutive numbers in the order of their symbols, and shorter codewords come first.
`CodeTree` holds a code as a binary tree, so that a codeword is a way from the root to a
leaf.
-/

namespace ClasspathIndex.Archive

/-- A sequence of bits, the first one to be read at the front. -/
abbrev Bits := List Bool

namespace Bits

/-- The number written by bits with the least significant one first. -/
def toNat : Bits → Nat
  | [] => 0
  | b :: bs => b.toNat + 2 * toNat bs

/-- The bits of a byte, the least significant one first. -/
def ofByte (b : UInt8) : Bits :=
  (List.range 8).map fun i => b.toNat.testBit i

/-- The bits of a byte string. -/
def ofBytes (bs : Bytes) : Bits :=
  bs.flatMap ofByte

/-- Takes the given number of bits off the front. -/
def take? : Nat → Bits → Option (Bits × Bits)
  | 0, bits => some ([], bits)
  | _ + 1, [] => none
  | n + 1, b :: bits => (take? n bits).map fun p => (b :: p.1, p.2)

/-- Takes a number of the given number of bits off the front. -/
def number? (n : Nat) (bits : Bits) : Option (Nat × Bits) :=
  (take? n bits).map fun p => (toNat p.1, p.2)

end Bits

/-- A code as a binary tree; `empty` stands where no codeword leads. -/
inductive CodeTree where
  | empty
  | leaf (symbol : Nat)
  | fork (zero one : CodeTree)
  deriving Repr

namespace CodeTree

/-- Adds a codeword. -/
def insert (symbol : Nat) : Bits → CodeTree → CodeTree
  | [], _ => leaf symbol
  | false :: word, fork zero one => fork (insert symbol word zero) one
  | true :: word, fork zero one => fork zero (insert symbol word one)
  | false :: word, _ => fork (insert symbol word empty) empty
  | true :: word, _ => fork empty (insert symbol word empty)

/-- Reads a codeword and gives its symbol. -/
def decode : CodeTree → Bits → Option (Nat × Bits)
  | leaf symbol, bits => some (symbol, bits)
  | fork zero _, false :: bits => decode zero bits
  | fork _ one, true :: bits => decode one bits
  | _, _ => none

end CodeTree

/-- The longest codeword of a code. -/
def maxCodeLength : Nat := 15

/-- How many codewords have the given length; length zero stands for no codeword. -/
def countLength (lengths : List Nat) (n : Nat) : Nat :=
  if n = 0 then 0 else lengths.count n

/-- The number of the first codeword of each length from one. -/
def firstCode (lengths : List Nat) : Nat → Nat
  | 0 => 0
  | n + 1 => 2 * (firstCode lengths n + countLength lengths n)

/-- The codeword with the given length and number, most significant bit first. -/
def codeword (length number : Nat) : Bits :=
  (List.range length).reverse.map fun i => number.testBit i

/-- Adds the symbols from `symbol` on; `next` holds the number of the next codeword of each
length. -/
def addSymbols (next : Array Nat) (symbol : Nat) : List Nat → CodeTree → CodeTree
  | [], tree => tree
  | 0 :: lengths, tree => addSymbols next (symbol + 1) lengths tree
  | (n + 1) :: lengths, tree =>
    let number := next.getD (n + 1) 0
    addSymbols (next.setIfInBounds (n + 1) (number + 1)) (symbol + 1) lengths
      (tree.insert symbol (codeword (n + 1) number))

/-- The tree of the code with the given codeword lengths. -/
def CodeTree.ofLengths (lengths : List Nat) : CodeTree :=
  addSymbols ((List.range (maxCodeLength + 1)).map (firstCode lengths)).toArray 0 lengths .empty

/-- How many of the longest possible codewords start with a codeword of the code. -/
def coveredWords (lengths : List Nat) : Nat :=
  (lengths.filter (· ≠ 0)).foldl (fun total n => total + (1 <<< (maxCodeLength - n))) 0

/-- Whether every long enough sequence of bits starts with exactly one codeword. -/
def isComplete (lengths : List Nat) : Bool :=
  coveredWords lengths == 1 <<< maxCodeLength

/-- Whether the lengths are those of a usable code: a complete one, one without codewords,
or one whose only codeword is a single bit. -/
def isUsable (lengths : List Nat) : Bool :=
  isComplete lengths || (lengths.filter (· ≠ 0)).isEmpty ||
    lengths.filter (· ≠ 0) == [1]

end ClasspathIndex.Archive
