import ClasspathIndex.ClassFile.Constant

/-!
# Annotations

An annotation has a type and named values.  A value is a constant, a constant of an
enumeration, a class, an annotation or an array of values, so that annotations nest to
any depth.  Each value starts with a tag of one byte.
-/

namespace ClasspathIndex.ClassFile

/-- The value of an annotation element. -/
inductive ElementValue where
  /-- A number, a truth value, a text or a class: a tag and the number of a constant. -/
  | constant (tag : UInt8) (index : UInt16)
  /-- A constant of an enumeration. -/
  | enumConstant (typeName constName : UInt16)
  /-- An annotation. -/
  | nested (typeIndex : UInt16) (elements : List (UInt16 × ElementValue))
  /-- An array. -/
  | array (values : List ElementValue)

namespace ElementValue

open Reader

/-- The tags of the values that consist of one constant. -/
def constantTags : List Char :=
  ['B', 'C', 'D', 'F', 'I', 'J', 'S', 'Z', 's', 'c']

/-- Reads a named value. -/
def readNamed (value : Reader ElementValue) : Reader (UInt16 × ElementValue) := do
  let name ← u2
  return (name, ← value)

/-- Reads a value with at most `fuel` bytes.  Every value starts with its tag, so without
any bytes there is no value to read. -/
def readWith : Nat → Reader ElementValue
  | 0 => fail .unexpectedEnd
  | fuel + 1 => do
    let tag ← u1
    if constantTags.any fun c => c.toUInt8 == tag then constant tag <$> u2
    else if tag = 'e'.toUInt8 then enumConstant <$> u2 <*> u2
    else if tag = '@'.toUInt8 then
      nested <$> u2 <*> counted (readNamed (readWith fuel))
    else if tag = '['.toUInt8 then array <$> counted (readWith fuel)
    else fail (.unknownElementTag tag)

end ElementValue

/-- The names and values of an annotation, without its type. -/
abbrev AnnotationBody := List (UInt16 × ElementValue)

namespace AnnotationList

open Reader

/-- Reads the names and values of an annotation with at most `size` bytes. -/
def readBody (size : Nat) : Reader AnnotationBody :=
  counted (ElementValue.readNamed (ElementValue.readWith size))

/-- Reads an annotation with at most `size` bytes; gives the name of its type, which must be
in the pool. -/
def readType (pool : ConstantPool) (size : Nat) : Reader String := do
  let typeName ← pool.text (← u2)
  let _ ← readBody size
  return typeName

/-- Reads a list of annotations; gives the names of their types. -/
def readTypes (pool : ConstantPool) : Reader (List String) := fun bs =>
  counted (readType pool bs.length) bs

end AnnotationList

end ClasspathIndex.ClassFile
