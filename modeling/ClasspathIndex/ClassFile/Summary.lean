import ClasspathIndex.ClassFile.Annotations

/-!
# What an index keeps of a class file

`ClassFile.read` goes through a class file once and keeps the name of the class and its
methods, each with its parameter types and two marks: whether it is deprecated and
whether it takes a variable number of arguments.  Static initialisers are left out.
Nothing after the end of the class file is looked at.
-/

namespace ClasspathIndex.ClassFile

open Reader

/-- What is kept of a method. -/
structure MethodSummary where
  name : String
  parameters : List FieldType
  deprecated : Bool
  varargs : Bool
  deriving DecidableEq, Repr

/-- What is kept of a class. -/
structure Summary where
  /-- The dotted name. -/
  name : String
  methods : List MethodSummary
  deriving DecidableEq, Repr

/-- An attribute: the number of its name, and its content. -/
structure Attribute where
  name : UInt16
  body : Bytes
  deriving DecidableEq, Repr

/-- A field, or a method before its parts are looked up. -/
structure Member where
  access : UInt16
  name : UInt16
  descriptor : UInt16
  attributes : List Attribute
  deriving DecidableEq, Repr

/-- Reads an attribute. -/
def Attribute.read : Reader Attribute := do
  let name ← u2
  return ⟨name, ← take (← u4).toNat⟩

/-- Reads a field. -/
def Member.read : Reader Member :=
  Member.mk <$> u2 <*> u2 <*> u2 <*> counted Attribute.read

/-- The name of static initialisers. -/
def staticInitializer : String := "<clinit>"

/-- The attribute that marks a deprecated method. -/
def deprecatedAttribute : String := "Deprecated"

/-- The attributes that hold annotations. -/
def annotationAttributes : List String :=
  ["RuntimeVisibleAnnotations", "RuntimeInvisibleAnnotations"]

/-- The type of the annotation that marks a deprecated method. -/
def deprecatedMarker : String := "Ljava/lang/Deprecated;"

/-- The bit of the access flags that marks a variable number of arguments. -/
def varargsFlag : UInt16 := 0x0080

/-- Whether an attribute marks its method as deprecated: by its name, or by one of the
annotations it holds. -/
def readDeprecation (pool : ConstantPool) : Reader Bool := do
  let attr ← Attribute.read
  let name ← pool.text attr.name
  if name = deprecatedAttribute then return true
  else if name ∈ annotationAttributes then
    return (← within attr.body (AnnotationList.readTypes pool)).contains deprecatedMarker
  else return false

/-- The parameter types that a descriptor gives. -/
def parametersOf (descriptor : String) : Except Error (List FieldType) :=
  match Descriptor.parameters descriptor with
  | .ok ts => .ok ts
  | .error e => .error (.invalidDescriptor descriptor e)

/-- Reads a method; `none` for a static initialiser. -/
def readMethod (pool : ConstantPool) : Reader (Option MethodSummary) := do
  let access ← u2
  let nameIndex ← u2
  let descriptorIndex ← u2
  let count ← u2
  let name ← pool.text nameIndex
  let descriptor ← pool.text descriptorIndex
  let marks ← times (readDeprecation pool) count.toNat
  if name = staticInitializer then return none
  else
    let parameters ← parametersOf descriptor
    return some ⟨name, parameters, marks.contains true, access &&& varargsFlag != 0⟩

/-- The mark at the start of every class file. -/
def magic : UInt32 := 0xCAFEBABE

/-- The oldest supported format version. -/
def minMajor : UInt16 := 45

/-- The newest supported format version. -/
def maxMajor : UInt16 := 69

/-- Reads the mark and the version. -/
def readHeader : Reader Unit := do
  if (← u4) ≠ magic then fail .invalidMagic
  let minor ← u2
  let major ← u2
  if major < minMajor ∨ maxMajor < major then fail (.unsupportedVersion major minor)

/-- Reads a class file. -/
def read : Reader Summary := do
  readHeader
  let pool ← ConstantPool.read
  let _access ← u2
  let thisClass ← u2
  let _superClass ← u2
  let _interfaces ← counted u2
  let _fields ← counted Member.read
  let methods ← counted (readMethod pool)
  let _attributes ← counted Attribute.read
  let name ← pool.className thisClass
  return ⟨QualifiedName.dotted name, methods.filterMap id⟩

/-- The summary of the class file at the start of a byte string. -/
def summary (bs : Bytes) : Except Error Summary :=
  (read bs).map Prod.fst

end ClasspathIndex.ClassFile
