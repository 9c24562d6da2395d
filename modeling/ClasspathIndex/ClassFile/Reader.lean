import ClasspathIndex.Bytes
import ClasspathIndex.Descriptor.Parameters

/-!
# Reading class files

A reader takes a value off the front of a byte string and leaves the rest, or says why
it cannot.  Numbers are written with the most significant byte first.
-/

namespace ClasspathIndex.ClassFile

/-- Why a byte string is no class file. -/
inductive Error where
  /-- The bytes end where more are needed. -/
  | unexpectedEnd
  /-- The first four bytes are not the mark of a class file. -/
  | invalidMagic
  /-- The format version is not between 45 and 69. -/
  | unsupportedVersion (major minor : UInt16)
  /-- No kind of constant has this tag. -/
  | unsupportedConstant (tag : UInt8)
  /-- The constant pool holds no constant of the needed kind at this index. -/
  | invalidConstantIndex (index : UInt16)
  /-- The text is no method descriptor. -/
  | invalidDescriptor (descriptor : String) (error : Descriptor.Error)
  /-- No kind of annotation value has this tag. -/
  | unknownElementTag (tag : UInt8)
  deriving DecidableEq, Repr

/-- What a malformed descriptor or annotation looks like; `none` for other errors. -/
def Error.detail? : Error → Option String
  | invalidDescriptor d e => some (e.detail d)
  | unknownElementTag tag =>
    some ("unknown annotation element tag '" ++ String.singleton (Char.ofNat tag.toNat) ++ "'")
  | _ => none

/-- The error in words. -/
def Error.message : Error → String
  | unexpectedEnd => "unexpected end of class file"
  | invalidMagic => "invalid class file magic header"
  | unsupportedVersion major minor =>
    "unsupported class file version " ++ toString major.toNat ++ "." ++ toString minor.toNat
  | unsupportedConstant tag => "unsupported constant pool tag " ++ toString tag.toNat
  | invalidConstantIndex index => "invalid constant pool index " ++ toString index.toNat
  | e => "malformed descriptor: " ++ e.detail?.getD ""

/-- A reader takes a value off the front of a byte string. -/
abbrev Reader (α : Type) := StateT Bytes (Except Error) α

namespace Reader

/-- Fails with the given error. -/
def fail {α : Type} (e : Error) : Reader α :=
  fun _ => .error e

/-- Reads one byte. -/
def u1 : Reader UInt8
  | [] => .error .unexpectedEnd
  | b :: bs => .ok (b, bs)

/-- Reads a number of two bytes. -/
def u2 : Reader UInt16 := do
  let high ← u1
  let low ← u1
  return high.toUInt16 <<< 8 ||| low.toUInt16

/-- Reads a number of four bytes. -/
def u4 : Reader UInt32 := do
  let high ← u2
  let low ← u2
  return high.toUInt32 <<< 16 ||| low.toUInt32

/-- Reads a number of eight bytes. -/
def u8 : Reader UInt64 := do
  let high ← u4
  let low ← u4
  return high.toUInt64 <<< 32 ||| low.toUInt64

/-- Reads the given number of bytes. -/
def take (n : Nat) : Reader Bytes := fun bs =>
  match bs.splitExact? n with
  | some p => .ok p
  | none => .error .unexpectedEnd

/-- Reads the given number of values, one after the other. -/
def times {α : Type} (r : Reader α) : Nat → Reader (List α)
  | 0 => pure []
  | n + 1 => do
    let x ← r
    return x :: (← times r n)

/-- Reads a count of two bytes and that many values. -/
def counted {α : Type} (r : Reader α) : Reader (List α) := do
  times r (← u2).toNat

/-- Reads from a byte string of its own and drops what is left of it. -/
def within {α : Type} (body : Bytes) (r : Reader α) : Reader α := fun bs =>
  match r body with
  | .ok (x, _) => .ok (x, bs)
  | .error e => .error e

end Reader

end ClasspathIndex.ClassFile
