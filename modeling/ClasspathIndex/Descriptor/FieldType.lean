/-!
# Field types

The type of a parameter is a primitive type or a class, under some number of array
dimensions.  Keeping the dimensions beside the element makes an array of an array
impossible by construction: `int[][]` is `int` with two dimensions.
-/

namespace ClasspathIndex

/-- The eight primitive types. -/
inductive Primitive where
  | byte | char | double | float | int | long | short | boolean
  deriving DecidableEq, Repr

namespace Primitive

/-- The letter that stands for the type in a descriptor. -/
def tag : Primitive → Char
  | byte => 'B' | char => 'C' | double => 'D' | float => 'F'
  | int => 'I' | long => 'J' | short => 'S' | boolean => 'Z'

/-- The word for the type in source text. -/
def keyword : Primitive → String
  | byte => "byte" | char => "char" | double => "double" | float => "float"
  | int => "int" | long => "long" | short => "short" | boolean => "boolean"

/-- All primitive types, in the order of their letters. -/
def all : List Primitive :=
  [byte, char, double, float, int, long, short, boolean]

/-- The primitive type with the given letter. -/
def ofTag? (b : UInt8) : Option Primitive :=
  all.find? fun p => p.tag.toUInt8 == b

/-- Every primitive type is in the list of all. -/
theorem mem_all (p : Primitive) : p ∈ all := by cases p <;> decide

/-- A primitive type is read back from its tag. -/
theorem ofTag?_tag (p : Primitive) : ofTag? p.tag.toUInt8 = some p := by cases p <;> rfl

/-- What is read from a byte has this byte as its tag. -/
theorem tag_of_ofTag? {b : UInt8} {p : Primitive} (h : ofTag? b = some p) :
    p.tag.toUInt8 = b := by
  simpa using List.find?_some h

end Primitive

/-- What a field type is apart from its array dimensions. -/
inductive ElementType where
  | primitive (p : Primitive)
  /-- A class, by its dotted name. -/
  | reference (name : String)
  deriving DecidableEq, Repr

/-- The type of a parameter. -/
structure FieldType where
  /-- The type that is left when all dimensions are removed. -/
  element : ElementType
  /-- The number of array dimensions; zero for a type that is no array. -/
  dimensions : Nat
  deriving DecidableEq, Repr

/-- The keyword of a primitive type, or the name of a class. -/
def ElementType.display : ElementType → String
  | primitive p => p.keyword
  | reference name => name

/-- The element, followed by a pair of brackets for each dimension. -/
def FieldType.display (t : FieldType) : String :=
  t.element.display ++ String.join (List.replicate t.dimensions "[]")

end ClasspathIndex
