import ClasspathIndex.Text.Split
import ClasspathIndex.Text.Utf8

/-!
# Paths

A path is a byte string in which slashes separate components; it need not be valid
UTF-8.  Paths are kept as they were written, and are shown with U+FFFD for broken bytes.
-/

namespace ClasspathIndex

open Text

/-- The name of a directory entry. -/
abbrev Name := Bytes

/-- A path as written. -/
structure Path where
  bytes : Bytes
  deriving DecidableEq, Repr

namespace Path

/-- The byte between components. -/
def slash : UInt8 := '/'.toUInt8

/-- The component that stands for the directory itself. -/
def here : Name := ['.'.toUInt8]

/-- The component that stands for the directory above. -/
def above : Name := ['.'.toUInt8, '.'.toUInt8]

/-- The path with the given text. -/
def ofString (s : String) : Path :=
  ⟨Utf8.encode s⟩

/-- The path as text. -/
def display (p : Path) : String :=
  Utf8.decodeLossy p.bytes

/-- Whether the path starts at the root of the file tree. -/
def isAbsolute (p : Path) : Bool :=
  p.bytes.head? == some slash

/-- The longest path that the system follows, in bytes. -/
def maxLength : Nat := 4095

/-- The longest name of a directory entry, in bytes. -/
def maxNameLength : Nat := 255

/-- Whether the path is longer than the system allows. -/
def isTooLong (p : Path) : Bool :=
  decide (maxLength < p.bytes.length)

/-- What stands between the slashes, empty stretches included. -/
def pieces (p : Path) : List Bytes :=
  p.bytes.splitOn slash

/-- The absolute path of a position in the file tree. -/
def ofPosition (names : List Name) : Path :=
  ⟨slash :: [slash].intercalate names⟩

/-- The path `q` taken from `p`: `q` itself if it is absolute, and otherwise `q` after `p`
with a slash between them. -/
def join (p q : Path) : Path :=
  if q.isAbsolute || p.bytes.isEmpty then q
  else if p.bytes.getLast? == some slash then ⟨p.bytes ++ q.bytes⟩
  else ⟨p.bytes ++ slash :: q.bytes⟩

/-- The path of an entry of the directory `p`. -/
def child (p : Path) (name : Name) : Path :=
  p.join ⟨name⟩

/-- The last component that is neither empty nor `.`, unless it is `..`. -/
def fileName? (p : Path) : Option Name :=
  match (p.pieces.filter fun c => c ≠ [] && c ≠ here).getLast? with
  | some name => if name = above then none else some name
  | none => none

/-- What follows the last dot of the file name, unless nothing else precedes it. -/
def extension? (p : Path) : Option Bytes :=
  match p.fileName? with
  | none => none
  | some name =>
    match breakLast '.'.toUInt8 name with
    | some (stem, ext) => if stem.isEmpty then none else some ext
    | none => none

end Path

end ClasspathIndex
