import ClasspathIndex.ClassFile.Reader
import ClasspathIndex.Text.ModifiedUtf8

/-!
# The constant pool

The pool is a numbered list of constants, counted from one.  A constant of eight bytes
takes two numbers, of which the second stands for nothing.  The rest of a class file
refers to names and descriptors by their numbers.
-/

namespace ClasspathIndex.ClassFile

/-- A constant.  Names and types are given by the numbers of other constants. -/
inductive Constant where
  | utf8 (text : Bytes)
  | integer (bits : UInt32)
  | float (bits : UInt32)
  | long (bits : UInt64)
  | double (bits : UInt64)
  | classInfo (name : UInt16)
  | string (text : UInt16)
  | fieldRef (owner nameAndType : UInt16)
  | methodRef (owner nameAndType : UInt16)
  | interfaceMethodRef (owner nameAndType : UInt16)
  | nameAndType (name descriptor : UInt16)
  | methodHandle (kind : UInt8) (target : UInt16)
  | methodType (descriptor : UInt16)
  | dynamic (bootstrap nameAndType : UInt16)
  | invokeDynamic (bootstrap nameAndType : UInt16)
  | moduleInfo (name : UInt16)
  | packageInfo (name : UInt16)
  deriving DecidableEq, Repr

namespace Constant

open Reader

/-- Whether the constant takes two numbers. -/
def isWide : Constant → Bool
  | long _ | double _ => true
  | _ => false

/-- Reads what follows the tag of a constant. -/
def readBody (tag : UInt8) : Reader Constant :=
  match tag.toNat with
  | 1 => do return utf8 (← take (← u2).toNat)
  | 3 => integer <$> u4
  | 4 => float <$> u4
  | 5 => long <$> u8
  | 6 => double <$> u8
  | 7 => classInfo <$> u2
  | 8 => string <$> u2
  | 9 => fieldRef <$> u2 <*> u2
  | 10 => methodRef <$> u2 <*> u2
  | 11 => interfaceMethodRef <$> u2 <*> u2
  | 12 => nameAndType <$> u2 <*> u2
  | 15 => methodHandle <$> u1 <*> u2
  | 16 => methodType <$> u2
  | 17 => dynamic <$> u2 <*> u2
  | 18 => invokeDynamic <$> u2 <*> u2
  | 19 => moduleInfo <$> u2
  | 20 => packageInfo <$> u2
  | _ => fail (.unsupportedConstant tag)

/-- Reads a constant. -/
def read : Reader Constant := do
  readBody (← u1)

end Constant

/-- The constants of a class file by number; a number without a constant of its own holds
`none`. -/
structure ConstantPool where
  slots : List (Option Constant)
  deriving DecidableEq, Repr

namespace ConstantPool

open Reader

/-- Reads constants for the given number of slots.  A constant of eight bytes in the last
slot reaches beyond it. -/
def readSlots : Nat → Reader (List (Option Constant))
  | 0 => pure []
  | 1 => do
    let c ← Constant.read
    return if c.isWide then [some c, none] else [some c]
  | n + 2 => do
    let c ← Constant.read
    if c.isWide then return some c :: none :: (← readSlots n)
    else return some c :: (← readSlots (n + 1))

/-- Reads the pool: one more than the number of slots, and the constants. -/
def read : Reader ConstantPool := do
  return ⟨none :: (← readSlots ((← u2).toNat - 1))⟩

/-- The constant with the given number. -/
def get? (pool : ConstantPool) (index : UInt16) : Option Constant :=
  (pool.slots[index.toNat]?).join

/-- The text of the text constant with the given number. -/
def text (pool : ConstantPool) (index : UInt16) : Except Error String :=
  match pool.get? index with
  | some (.utf8 bytes) => .ok (Text.ModifiedUtf8.decode bytes)
  | _ => .error (.invalidConstantIndex index)

/-- The internal name of the class constant with the given number. -/
def className (pool : ConstantPool) (index : UInt16) : Except Error String :=
  match pool.get? index with
  | some (.classInfo name) => pool.text name
  | _ => .error (.invalidConstantIndex index)

end ConstantPool

end ClasspathIndex.ClassFile
