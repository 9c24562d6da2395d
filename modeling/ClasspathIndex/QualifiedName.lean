import ClasspathIndex.Text.Split

/-!
# Qualified names

A class has a dotted name such as `com.example.Outer$Inner`.  The part after the last
dot is its *simple* name, the part before it is its *package*.  Class files and archives
write names in *internal* form, with slashes in place of the dots.
-/

namespace ClasspathIndex.QualifiedName

open Text

/-- Replaces every occurrence of one character by another. -/
def replaceChar (old new : Char) (s : String) : String :=
  String.ofList (s.toList.map fun c => if c = old then new else c)

/-- The dotted form of an internal name. -/
def dotted (internal : String) : String :=
  replaceChar '/' '.' internal

/-- The slashed form of a dotted name. -/
def slashed (name : String) : String :=
  replaceChar '.' '/' name

/-- Everything after the last dot; nested classes keep their `$`. -/
def simple (name : String) : String :=
  match breakLast '.' name.toList with
  | some (_, s) => String.ofList s
  | none => name

/-- Everything before the last dot; empty if there is none. -/
def package (name : String) : String :=
  match breakLast '.' name.toList with
  | some (p, _) => String.ofList p
  | none => ""

end ClasspathIndex.QualifiedName
