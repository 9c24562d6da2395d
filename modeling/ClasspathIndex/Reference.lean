import ClasspathIndex.Text.Blank
import ClasspathIndex.Text.Split

/-!
# References

A reference names a class, and possibly one of its methods: `Alpha`,
`com.example.Alpha#run`, `Alpha#run(int,java.lang.String)`.  Blank characters may stand
around every part.  A method without an argument list is meant by its name alone;
`Alpha#run()` asks for the method without parameters.
-/

namespace ClasspathIndex

open Text

/-- The part of a reference that selects a method. -/
structure MethodSelector where
  name : String
  /-- The argument types, if an argument list was written. -/
  arguments : Option (List String)
  deriving DecidableEq, Repr

/-- A class, or a method of a class. -/
structure Reference where
  /-- The simple or the full name of the class. -/
  className : String
  method : Option MethodSelector
  deriving DecidableEq, Repr

namespace Reference

/-- Why a text is no reference. -/
inductive Fault where
  | missingClass
  | illegalClass
  | unclosedArguments
  | unbalancedArguments
  | emptyArgument
  | missingMethod
  | illegalMethod
  deriving DecidableEq, Repr

/-- The fault in words. -/
def Fault.reason : Fault → String
  | missingClass => "missing class name"
  | illegalClass => "class name contains illegal characters"
  | unclosedArguments => "argument list must end with ')'"
  | unbalancedArguments => "unbalanced argument list"
  | emptyArgument => "empty argument type"
  | missingMethod => "missing method name"
  | illegalMethod => "method name contains illegal characters"

/-- The message for the text of a failed reference. -/
def Fault.message (text : String) (fault : Fault) : String :=
  "'" ++ text ++ "' is not a valid class or method reference: " ++ fault.reason

/-- Whether a name holds a blank or one of the given characters. -/
def holdsIllegal (marks : List Char) (name : List Char) : Bool :=
  name.any fun c => isBlank c || marks.contains c

/-- Reads what stands between the parentheses: nothing, or arguments between commas. -/
def parseArguments (inner : List Char) : Except Fault (List String) :=
  if inner.any fun c => ['(', ')', '#'].contains c then .error .unbalancedArguments
  else if allBlank inner then .ok []
  else
    let arguments := (inner.splitOn ',').map trim
    if arguments.any List.isEmpty then .error .emptyArgument
    else .ok (arguments.map String.ofList)

/-- Reads a method name. -/
def parseMethodName (name : List Char) : Except Fault String :=
  if name.isEmpty then .error .missingMethod
  else if holdsIllegal ['#', ')', ','] name then .error .illegalMethod
  else .ok (String.ofList name)

/-- Reads what follows the `#`, without the blanks around it. -/
def parseMethod (member : List Char) : Except Fault MethodSelector :=
  match breakFirst '(' member with
  | none => do return ⟨← parseMethodName member, none⟩
  | some (name, rest) =>
    if rest.getLast? = some ')' then do
      let arguments ← parseArguments rest.dropLast
      return ⟨← parseMethodName (trim name), some arguments⟩
    else .error .unclosedArguments

/-- Reads a class name. -/
def parseClassName (name : List Char) : Except Fault String :=
  if name.isEmpty then .error .missingClass
  else if holdsIllegal ['(', ')', ','] name then .error .illegalClass
  else .ok (String.ofList name)

/-- Reads a reference. -/
def parse (text : String) : Except Fault Reference :=
  match breakFirst '#' (trim text.toList) with
  | none => do return ⟨← parseClassName (trim text.toList), none⟩
  | some (name, member) => do
    let className ← parseClassName (trim name)
    return ⟨className, some (← parseMethod (trim member))⟩

/-- The text of a method selector. -/
def renderMethod (m : MethodSelector) : String :=
  match m.arguments with
  | none => m.name
  | some arguments => m.name ++ "(" ++ String.intercalate "," arguments ++ ")"

/-- The text of a reference, without blanks around its parts. -/
def render (r : Reference) : String :=
  match r.method with
  | none => r.className
  | some m => r.className ++ "#" ++ renderMethod m

end Reference

end ClasspathIndex
