import ClasspathIndex.ClassFile.Summary

/-!
# Symbols

A class symbol is a named class with its methods in declaration order; a method symbol
has a name and argument types in source form, such as `int` or `java.lang.String[]`.
Methods with the same name and argument types are kept as separate entries.
-/

namespace ClasspathIndex

/-- A method of a class. -/
structure MethodSymbol where
  name : String
  argumentTypes : List String
  deprecated : Bool
  /-- Whether the last parameter takes any number of arguments. -/
  varargs : Bool
  deriving DecidableEq, Repr

/-- A class and the methods declared on it, constructors included. -/
structure ClassSymbol where
  /-- The full dotted name. -/
  name : String
  methods : List MethodSymbol
  deriving DecidableEq, Repr

namespace MethodSymbol

/-- The name of every constructor. -/
def constructorName : String := "<init>"

/-- Whether the method is a constructor. -/
def isConstructor (m : MethodSymbol) : Bool :=
  m.name == constructorName

/-- The name and the argument types, such as `run(int,java.lang.String)`. -/
def signature (m : MethodSymbol) : String :=
  m.name ++ "(" ++ String.intercalate "," m.argumentTypes ++ ")"

/-- The symbol of a method in a class file. -/
def ofSummary (m : ClassFile.MethodSummary) : MethodSymbol :=
  ⟨m.name, m.parameters.map FieldType.display, m.deprecated, m.varargs⟩

end MethodSymbol

namespace ClassSymbol

/-- The name without the package. -/
def simpleName (c : ClassSymbol) : String :=
  QualifiedName.simple c.name

/-- The package; empty for a class without one. -/
def package (c : ClassSymbol) : String :=
  QualifiedName.package c.name

/-- The symbol of a class file. -/
def ofSummary (s : ClassFile.Summary) : ClassSymbol :=
  ⟨s.name, s.methods.map MethodSymbol.ofSummary⟩

end ClassSymbol

end ClasspathIndex
