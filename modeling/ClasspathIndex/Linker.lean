import ClasspathIndex.Index.Resolution

/-!
# Links to documentation pages

Every class has a page, and every method an anchor on the page of its class.  The page
follows the package directories, and writes nested classes with dots.  Anchors come in
two styles, which differ in the marks around the argument types.
-/

namespace ClasspathIndex

open Text

/-- How anchors are written. -/
inductive AnchorStyle where
  /-- `name-arg1-arg2-` -/
  | legacy
  /-- `name(arg1,arg2)` -/
  | modern
  deriving DecidableEq, Repr

/-- The word for a style in settings. -/
def AnchorStyle.word : AnchorStyle → String
  | legacy => "legacy"
  | modern => "modern"

namespace ClassSymbol

/-- The page of a class below the root of the documentation. -/
def page (c : ClassSymbol) : String :=
  let file := QualifiedName.replaceChar '$' '.' c.simpleName ++ ".html"
  if c.package.isEmpty then file else QualifiedName.slashed c.package ++ "/" ++ file

/-- The name of a constructor on its page: the innermost class name. -/
def constructorLabel (c : ClassSymbol) : String :=
  match breakLast '$' c.simpleName.toList with
  | some (_, name) => String.ofList name
  | none => c.simpleName

end ClassSymbol

namespace MethodSymbol

/-- The type of a variable number of arguments: one dimension less, and three dots. -/
def ellipsis (type : String) : String :=
  if "[]".toList.isSuffixOf type.toList then
    String.ofList (type.toList.take (type.toList.length - 2)) ++ "..."
  else type

/-- Changes the last element of a list. -/
def modifyLast {α : Type} (f : α → α) : List α → List α
  | [] => []
  | [x] => [f x]
  | x :: y :: ys => x :: modifyLast f (y :: ys)

/-- The argument types as they stand in an anchor. -/
def anchorArguments (m : MethodSymbol) : List String :=
  if m.varargs then modifyLast ellipsis m.argumentTypes else m.argumentTypes

/-- The anchor of a method on the page of its class. -/
def anchor (style : AnchorStyle) (c : ClassSymbol) (m : MethodSymbol) : String :=
  let name := if m.isConstructor then c.constructorLabel else m.name
  match style with
  | .legacy => name ++ "-" ++ String.intercalate "-" m.anchorArguments ++ "-"
  | .modern => name ++ "(" ++ String.intercalate "," m.anchorArguments ++ ")"

end MethodSymbol

/-- Where documentation is published, and how its anchors are written. -/
structure Linker where
  /-- The address before every page: empty, or ending in a slash. -/
  base : String
  style : AnchorStyle
  deriving DecidableEq, Repr

namespace Linker

/-- A linker for an address that may lack the final slash. -/
def ofUrl (url : String) (style : AnchorStyle) : Linker :=
  ⟨if url.isEmpty || url.toList.getLast? == some '/' then url else url ++ "/", style⟩

/-- The address of a class. -/
def classUrl (l : Linker) (c : ClassSymbol) : String :=
  l.base ++ c.page

/-- The address of a method. -/
def methodUrl (l : Linker) (c : ClassSymbol) (m : MethodSymbol) : String :=
  l.classUrl c ++ "#" ++ MethodSymbol.anchor l.style c m

/-- The address of what a reference stands for. -/
def url (l : Linker) : Resolved → String
  | .classSymbol c => l.classUrl c
  | .methodSymbol c m => l.methodUrl c m

end Linker

end ClasspathIndex
