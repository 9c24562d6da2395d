import ClasspathIndex.Index.NameGroups
import ClasspathIndex.Reference

/-!
# Finding classes and methods

A class is found by its full name, or else by its simple name if only one class has it.
A method is found by its name, or by its name and argument types, if only one method of
the class fits.  When several fit, the error lists them in the order of their code
points.
-/

namespace ClasspathIndex

/-- Why a class or method was not found. -/
inductive ResolveError where
  | classNotFound (name : String)
  /-- Several classes have the simple name; the candidates are sorted. -/
  | classAmbiguous (name : String) (candidates : List String)
  | methodNotFound (className name : String) (arguments : Option (List String))
  /-- Several methods fit; their signatures are sorted. -/
  | methodAmbiguous (className name : String) (arguments : Option (List String))
      (signatures : List String)
  deriving DecidableEq, Repr

namespace ResolveError

/-- The lines of a listing, each indented, between two empty lines. -/
def listing (lines : List String) : String :=
  "\n" ++ String.join (lines.map fun line => "    " ++ line ++ "\n") ++ "\n"

/-- The words for an argument list; empty if there is none. -/
def withArguments : Option (List String) → String
  | none => ""
  | some arguments => " with arguments [" ++ String.intercalate ", " arguments ++ "]"

/-- The error in words. -/
def message : ResolveError → String
  | classNotFound name => "Unknown class '" ++ name ++ "'"
  | classAmbiguous name candidates =>
    "Found multiple classes named '" ++ name ++ "':\n" ++ listing candidates ++
      "Use a fully-qualified name to identify a specific class"
  | methodNotFound className name arguments =>
    "No method named '" ++ name ++ "'" ++ withArguments arguments ++ " found on class '" ++
      className ++ "'"
  | methodAmbiguous className name arguments signatures =>
    "Class '" ++ className ++ "' contains multiple methods named '" ++ name ++ "'" ++
      withArguments arguments ++ ":\n" ++ listing signatures ++
      "Use argument types to identify a specific method"

end ResolveError

/-- Sorts texts by their code points. -/
def sortTexts (texts : List String) : List String :=
  texts.mergeSort fun a b => decide (a ≤ b)

namespace ClassSymbol

/-- Whether a method has the name, and the argument types if some are given. -/
def fits (name : String) (arguments : Option (List String)) (m : MethodSymbol) : Bool :=
  m.name == name && arguments.all fun types => m.argumentTypes == types

/-- The one method that fits. -/
def selectMethod (c : ClassSymbol) (name : String) (arguments : Option (List String)) :
    Except ResolveError MethodSymbol :=
  match c.methods.filter (fits name arguments) with
  | [] => .error (.methodNotFound c.name name arguments)
  | [m] => .ok m
  | ms => .error (.methodAmbiguous c.name name arguments (sortTexts (ms.map (·.signature))))

end ClassSymbol

/-- What a reference stands for. -/
inductive Resolved where
  | classSymbol (c : ClassSymbol)
  | methodSymbol (c : ClassSymbol) (m : MethodSymbol)
  deriving DecidableEq, Repr

namespace Resolved

/-- The class, or the class of the method. -/
def owner : Resolved → ClassSymbol
  | classSymbol c => c
  | methodSymbol c _ => c

/-- The method, if a method was asked for. -/
def method? : Resolved → Option MethodSymbol
  | classSymbol _ => none
  | methodSymbol _ m => some m

end Resolved

/-- The class with the given full name, or the one class with the given simple name. -/
def resolveClass (classes : Registry ClassSymbol ClassSymbol.name) (groups : NameGroups)
    (name : String) : Except ResolveError ClassSymbol :=
  match classes.find? name with
  | some c => .ok c
  | none =>
    match groups.members classes.entries name with
    | [] => .error (.classNotFound name)
    | [c] => .ok c
    | cs => .error (.classAmbiguous name (sortTexts (cs.map (·.name))))

/-- What a reference stands for among the given classes. -/
def lookupReference (classes : Registry ClassSymbol ClassSymbol.name) (groups : NameGroups)
    (r : Reference) : Except ResolveError Resolved := do
  let c ← resolveClass classes groups r.className
  match r.method with
  | none => return .classSymbol c
  | some m => return .methodSymbol c (← c.selectMethod m.name m.arguments)

end ClasspathIndex
