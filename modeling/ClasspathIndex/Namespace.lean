import ClasspathIndex.QualifiedName
import ClasspathIndex.Text.Blank

/-!
# Namespaces

A namespace is a dotted sequence of segments such as `com.example`; it selects the
classes below the directory `com/example` of each root.  The empty namespace selects
everything.
-/

namespace ClasspathIndex.Namespace

open Text

/-- Why a text is no namespace. -/
inductive Fault where
  /-- Nothing stands before, between or after the dots. -/
  | emptySegment
  /-- A segment holds a slash, a backslash or a blank. -/
  | illegalSegment
  deriving DecidableEq, Repr

/-- The fault in words. -/
def Fault.reason : Fault → String
  | emptySegment => "empty namespace segment"
  | illegalSegment => "namespace segments may not contain separators or whitespace"

/-- The fault of one segment, if it has one. -/
def segmentFault (segment : List Char) : Option Fault :=
  if segment.isEmpty then some .emptySegment
  else if segment.any fun c => c == '/' || c == '\\' || isBlank c then some .illegalSegment
  else none

/-- The segments between the dots. -/
def segments (name : String) : List (List Char) :=
  name.toList.splitOn '.'

/-- The slashed form of a namespace; the first faulty segment decides the fault. -/
def path (name : String) : Except Fault String :=
  if name.isEmpty then .ok ""
  else
    match (segments name).findSome? segmentFault with
    | some fault => .error fault
    | none => .ok (QualifiedName.slashed name)

end ClasspathIndex.Namespace
