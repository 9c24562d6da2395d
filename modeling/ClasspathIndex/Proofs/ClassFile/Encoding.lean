import ClasspathIndex.ClassFile.Summary
import ClasspathIndex.Proofs.ClassFile.Reading
import ClasspathIndex.Proofs.Descriptor.Signature

/-!
# Class files, part by part

A `ClassFile` holds all that a class file is made of, and `ClassFile.encode` writes it down.
Annotations of methods and the signatures of methods, which a class file holds as bytes of
attributes and as texts of its pool, are given by their parts.

`ClassFile.WellFormed` says that counts and lengths fit into the fields that hold them, and
that the names needed for a summary are there.  `ClassFile.view` is the summary of a class
file; nothing is read for it.
-/

namespace ClasspathIndex

namespace ClassFile

open Bytes Reader

/-! ### Constants -/

namespace Constant

/-- The bytes of a constant: its tag, and its parts. -/
def encode : Constant → Bytes
  | utf8 text => 1 :: (bigEndianOf 2 text.length ++ text)
  | integer bits => 3 :: bigEndianOf 4 bits.toNat
  | float bits => 4 :: bigEndianOf 4 bits.toNat
  | long bits => 5 :: bigEndianOf 8 bits.toNat
  | double bits => 6 :: bigEndianOf 8 bits.toNat
  | classInfo name => 7 :: bigEndianOf 2 name.toNat
  | string text => 8 :: bigEndianOf 2 text.toNat
  | fieldRef owner named =>
    9 :: (bigEndianOf 2 owner.toNat ++ bigEndianOf 2 named.toNat)
  | methodRef owner named =>
    10 :: (bigEndianOf 2 owner.toNat ++ bigEndianOf 2 named.toNat)
  | interfaceMethodRef owner named =>
    11 :: (bigEndianOf 2 owner.toNat ++ bigEndianOf 2 named.toNat)
  | nameAndType name descriptor =>
    12 :: (bigEndianOf 2 name.toNat ++ bigEndianOf 2 descriptor.toNat)
  | methodHandle kind target => 15 :: kind :: bigEndianOf 2 target.toNat
  | methodType descriptor => 16 :: bigEndianOf 2 descriptor.toNat
  | dynamic bootstrap named =>
    17 :: (bigEndianOf 2 bootstrap.toNat ++ bigEndianOf 2 named.toNat)
  | invokeDynamic bootstrap named =>
    18 :: (bigEndianOf 2 bootstrap.toNat ++ bigEndianOf 2 named.toNat)
  | moduleInfo name => 19 :: bigEndianOf 2 name.toNat
  | packageInfo name => 20 :: bigEndianOf 2 name.toNat

/-- Whether the length of a text fits into two bytes. -/
def Fits : Constant → Prop
  | utf8 text => text.length < 2 ^ 16
  | _ => True

/-- The slots of a constant; the second slot of one of eight bytes holds nothing. -/
def slots (c : Constant) : List (Option Constant) :=
  if c.isWide then [some c, none] else [some c]

end Constant

namespace ConstantPool

/-- The pool of a list of constants. -/
def ofConstants (cs : List Constant) : ConstantPool :=
  ⟨none :: cs.flatMap Constant.slots⟩

/-- Whether the number is that of a text constant. -/
def HasText (pool : ConstantPool) (index : UInt16) : Prop :=
  ∃ bytes, pool.get? index = some (.utf8 bytes)

/-- The text of the text constant with the given number; empty if there is none. -/
def textAt (pool : ConstantPool) (index : UInt16) : String :=
  match pool.get? index with
  | some (.utf8 bytes) => Text.ModifiedUtf8.decode bytes
  | _ => ""

/-- Whether the number is that of a class constant that has a name. -/
def HasClassName (pool : ConstantPool) (index : UInt16) : Prop :=
  ∃ name, pool.get? index = some (.classInfo name) ∧ pool.HasText name

/-- The name of the class constant with the given number; empty if there is none. -/
def classNameAt (pool : ConstantPool) (index : UInt16) : String :=
  match pool.get? index with
  | some (.classInfo name) => pool.textAt name
  | _ => ""

end ConstantPool

/-! ### Annotations -/

namespace ElementValue

mutual

/-- The bytes of a value. -/
def encode : ElementValue → Bytes
  | constant tag index => tag :: bigEndianOf 2 index.toNat
  | enumConstant typeName constName =>
    'e'.toUInt8 :: (bigEndianOf 2 typeName.toNat ++ bigEndianOf 2 constName.toNat)
  | nested typeIndex elements =>
    '@'.toUInt8 :: (bigEndianOf 2 typeIndex.toNat ++
      (bigEndianOf 2 elements.length ++ encodeElements elements))
  | array values => '['.toUInt8 :: (bigEndianOf 2 values.length ++ encodeValues values)

/-- The bytes of named values, one after the other. -/
def encodeElements : List (UInt16 × ElementValue) → Bytes
  | [] => []
  | (name, value) :: elements =>
    bigEndianOf 2 name.toNat ++ encode value ++ encodeElements elements

/-- The bytes of values, one after the other. -/
def encodeValues : List ElementValue → Bytes
  | [] => []
  | value :: values => encode value ++ encodeValues values

end

mutual

/-- Whether all counts in a value fit into two bytes, and constants have tags of constants. -/
def Fits : ElementValue → Prop
  | constant tag _ => tag ∈ constantTags.map Char.toUInt8
  | enumConstant _ _ => True
  | nested _ elements => elements.length < 2 ^ 16 ∧ ElementsFit elements
  | array values => values.length < 2 ^ 16 ∧ ValuesFit values

/-- Whether each of the named values fits. -/
def ElementsFit : List (UInt16 × ElementValue) → Prop
  | [] => True
  | (_, value) :: elements => value.Fits ∧ ElementsFit elements

/-- Whether each of the values fits. -/
def ValuesFit : List ElementValue → Prop
  | [] => True
  | value :: values => value.Fits ∧ ValuesFit values

end

/-- The bytes of a named value. -/
def encodeNamed (element : UInt16 × ElementValue) : Bytes :=
  bigEndianOf 2 element.1.toNat ++ element.2.encode

end ElementValue

/-- An annotation, with the number of its type. -/
structure AnnotationEntry where
  typeIndex : UInt16
  elements : AnnotationBody

namespace AnnotationEntry

/-- The bytes of an annotation. -/
def encode (a : AnnotationEntry) : Bytes :=
  bigEndianOf 2 a.typeIndex.toNat ++ encodeCounted ElementValue.encodeNamed a.elements

/-- Whether the type has a name and the values fit. -/
structure WellFormed (pool : ConstantPool) (a : AnnotationEntry) : Prop where
  type : pool.HasText a.typeIndex
  count : a.elements.length < 2 ^ 16
  elements : ∀ p ∈ a.elements, p.2.Fits

end AnnotationEntry

/-! ### Attributes and members -/

namespace Attribute

/-- The bytes of an attribute. -/
def encode (a : Attribute) : Bytes :=
  bigEndianOf 2 a.name.toNat ++ (bigEndianOf 4 a.body.length ++ a.body)

/-- Whether the length of the content fits into four bytes. -/
def Fits (a : Attribute) : Prop :=
  a.body.length < 2 ^ 32

end Attribute

namespace Member

/-- The bytes of a member. -/
def encode (m : Member) : Bytes :=
  bigEndianOf 2 m.access.toNat ++ (bigEndianOf 2 m.name.toNat ++
    (bigEndianOf 2 m.descriptor.toNat ++ encodeCounted Attribute.encode m.attributes))

/-- Whether the number of attributes fits into two bytes, and the attributes fit. -/
def Fits (m : Member) : Prop :=
  m.attributes.length < 2 ^ 16 ∧ ∀ a ∈ m.attributes, a.Fits

end Member

/-- An attribute of a method. -/
inductive MethodAttribute where
  /-- An attribute that holds annotations, and bytes after them that mean nothing. -/
  | annotations (name : UInt16) (list : List AnnotationEntry) (left : Bytes)
  /-- Any other attribute. -/
  | plain (a : Attribute)

namespace MethodAttribute

/-- The attribute, with annotations as bytes. -/
def toAttribute : MethodAttribute → Attribute
  | annotations name list left => ⟨name, encodeCounted AnnotationEntry.encode list ++ left⟩
  | plain a => a

/-- Whether the attribute has a name and fits, and holds annotations exactly if its name is that
of an attribute with annotations. -/
def WellFormed (pool : ConstantPool) (attr : MethodAttribute) : Prop :=
  pool.HasText attr.toAttribute.name ∧ attr.toAttribute.Fits ∧
    match attr with
    | annotations name list _ => pool.textAt name ∈ annotationAttributes ∧
        list.length < 2 ^ 16 ∧ ∀ a ∈ list, a.WellFormed pool
    | plain a => pool.textAt a.name ∉ annotationAttributes

/-- Whether the attribute marks a method as deprecated. -/
def marks (pool : ConstantPool) : MethodAttribute → Bool
  | annotations _ list _ => list.any fun a => pool.textAt a.typeIndex == deprecatedMarker
  | plain a => pool.textAt a.name == deprecatedAttribute

end MethodAttribute

/-- A method. -/
structure Method where
  access : UInt16
  name : UInt16
  descriptor : UInt16
  attributes : List MethodAttribute
  /-- What the descriptor says; any signature for a static initialiser. -/
  signature : Descriptor.Signature

namespace Method

/-- The method as a member. -/
def toMember (m : Method) : Member :=
  ⟨m.access, m.name, m.descriptor, m.attributes.map MethodAttribute.toAttribute⟩

/-- The bytes of a method. -/
def encode (m : Method) : Bytes :=
  m.toMember.encode

/-- Whether a method has a name and a descriptor, its attributes are well formed, and the
descriptor is the text of the signature unless the method is a static initialiser. -/
structure WellFormed (pool : ConstantPool) (m : Method) : Prop where
  name : pool.HasText m.name
  descriptor : pool.HasText m.descriptor
  count : m.attributes.length < 2 ^ 16
  attributes : ∀ a ∈ m.attributes, a.WellFormed pool
  signature : pool.textAt m.name ≠ staticInitializer →
    pool.textAt m.descriptor = m.signature.text

/-- What is kept of a method; nothing of a static initialiser. -/
def summary? (pool : ConstantPool) (m : Method) : Option MethodSummary :=
  if pool.textAt m.name = staticInitializer then none
  else some {
    name := pool.textAt m.name
    parameters := m.signature.parameterTypes
    deprecated := m.attributes.any (MethodAttribute.marks pool)
    varargs := m.access &&& varargsFlag != 0 }

end Method

end ClassFile

/-! ### Class files -/

open ClassFile Bytes Reader

/-- A class file. -/
structure ClassFile where
  minor : UInt16
  major : UInt16
  /-- The number of slots of the constants, and one more, as far as it is told truly. -/
  poolCount : UInt16
  constants : List Constant
  access : UInt16
  thisClass : UInt16
  superClass : UInt16
  interfaces : List UInt16
  fields : List Member
  methods : List Method
  attributes : List Attribute

namespace ClassFile

/-- The constants by number. -/
def pool (cf : ClassFile) : ConstantPool :=
  .ofConstants cf.constants

/-- The number of slots that the constants take. -/
def slotCount (cf : ClassFile) : Nat :=
  (cf.constants.flatMap Constant.slots).length

/-- The bytes of a class file. -/
def encode (cf : ClassFile) : Bytes :=
  bigEndianOf 4 magic.toNat ++ (bigEndianOf 2 cf.minor.toNat ++ (bigEndianOf 2 cf.major.toNat ++
    (bigEndianOf 2 cf.poolCount.toNat ++ (cf.constants.flatMap Constant.encode ++
      (bigEndianOf 2 cf.access.toNat ++ (bigEndianOf 2 cf.thisClass.toNat ++
        (bigEndianOf 2 cf.superClass.toNat ++
          (encodeCounted (fun i => bigEndianOf 2 i.toNat) cf.interfaces ++
            (encodeCounted Member.encode cf.fields ++ (encodeCounted Method.encode cf.methods ++
              encodeCounted Attribute.encode cf.attributes))))))))))

/-- Whether the last constant takes two slots of which only the first was counted. -/
def Overhangs (cf : ClassFile) : Prop :=
  cf.poolCount.toNat = cf.slotCount ∧ ∃ c, cf.constants.getLast? = some c ∧ c.isWide = true

/-- Whether the version is supported, all counts and lengths fit into their fields, the class has
a name and the methods are well formed.

The slots of the pool are counted truly, except that a constant of eight bytes may reach
beyond the last of them. -/
structure WellFormed (cf : ClassFile) : Prop where
  version : 45 ≤ cf.major.toNat ∧ cf.major.toNat ≤ 69
  poolCount : cf.poolCount.toNat = cf.slotCount + 1 ∨ cf.Overhangs
  constants : ∀ c ∈ cf.constants, c.Fits
  thisClass : cf.pool.HasClassName cf.thisClass
  interfaceCount : cf.interfaces.length < 2 ^ 16
  fieldCount : cf.fields.length < 2 ^ 16
  fields : ∀ f ∈ cf.fields, f.Fits
  methodCount : cf.methods.length < 2 ^ 16
  methods : ∀ m ∈ cf.methods, m.WellFormed cf.pool
  attributeCount : cf.attributes.length < 2 ^ 16
  attributes : ∀ a ∈ cf.attributes, a.Fits

/-- The summary of a class file: the name of the class with dots for slashes, and its methods in
order, without static initialisers. -/
def view (cf : ClassFile) : Summary where
  name := QualifiedName.dotted (cf.pool.classNameAt cf.thisClass)
  methods := cf.methods.filterMap (Method.summary? cf.pool)

end ClassFile

end ClasspathIndex
