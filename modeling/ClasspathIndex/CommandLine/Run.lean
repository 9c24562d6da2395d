import ClasspathIndex.CommandLine.Arguments
import ClasspathIndex.Text.Json

/-!
# Carrying out a command

A command writes text, and may fail after that.  `resolve` answers every reference on its
own: those that were resolved are written in the order given, and the others are told
together in the failure.
-/

namespace ClasspathIndex.CommandLine

/-- A reference that was resolved. -/
structure Finding where
  /-- The reference as given. -/
  reference : String
  className : String
  /-- The signature of the method, if a method was asked for. -/
  method : Option String
  deprecated : Bool
  /-- The link, if links are wanted. -/
  url : Option String
  deriving DecidableEq, Repr

namespace Finding

/-- The finding for a reference that stands for `r`. -/
def ofResolved (linker : Option Linker) (reference : String) (r : Resolved) : Finding where
  reference := reference
  className := r.owner.name
  method := r.method?.map MethodSymbol.signature
  deprecated := r.method?.any MethodSymbol.deprecated
  url := linker.map fun l => l.url r

/-- The finding on a line, without the end of the line. -/
def line (f : Finding) : String :=
  f.className ++ (f.method.elim "" fun m => "#" ++ m) ++
    (if f.deprecated then " [deprecated]" else "") ++ f.url.elim "" fun u => "\t" ++ u

/-- A field that may be missing. -/
def field? (name : String) (value : Option String) : List (String × Json) :=
  value.toList.map fun s => (name, .text s)

/-- The finding as a JSON object. -/
def toJson (f : Finding) : Json :=
  .object <|
    [("reference", .text f.reference), ("class", .text f.className)] ++
      field? "method" f.method ++ [("deprecated", .boolean f.deprecated)] ++ field? "url" f.url

end Finding

/-- What was written, and the texts of the failure if there was one: what failed comes
first, and its causes follow. -/
structure Outcome where
  written : String
  failure : Option (List String)
  deriving DecidableEq, Repr

/-- Resolves a reference, or tells in words why that failed. -/
def resolveText (index : Index) (linker : Option Linker) (reference : String) :
    Except String Finding :=
  match Reference.parse reference with
  | .error fault => .error (fault.message reference)
  | .ok r =>
    match index.lookup r with
    | .error e => .error e.message
    | .ok resolved => .ok (.ofResolved linker reference resolved)

/-- The findings for the references that were resolved. -/
def findings (index : Index) (linker : Option Linker) (references : List String) :
    List Finding :=
  references.filterMap fun reference => (resolveText index linker reference).toOption

/-- The references that were not resolved, each with the reason. -/
def complaints (index : Index) (linker : Option Linker) (references : List String) :
    List String :=
  references.filterMap fun reference =>
    match resolveText index linker reference with
    | .error reason => some (reference ++ ": " ++ reason)
    | .ok _ => none

/-- Findings as text: a JSON array, or one line each. -/
def writeFindings (json : Bool) (fs : List Finding) : String :=
  if json then (Json.array (fs.map Finding.toJson)).pretty ++ "\n"
  else String.join (fs.map fun f => f.line ++ "\n")

/-- The text for references that were not resolved, out of `total`. -/
def summarize (total : Nat) (complaints : List String) : String :=
  toString complaints.length ++ " of " ++ toString total ++
    " reference(s) could not be resolved\n\n" ++ String.intercalate "\n\n" complaints

/-- Resolves references. -/
def resolveAll (index : Index) (linker : Option Linker) (json : Bool)
    (references : List String) : Outcome where
  written := writeFindings json (findings index linker references)
  failure :=
    match complaints index linker references with
    | [] => none
    | cs => some [summarize references.length cs]

/-- The classes of an index in the order of their names. -/
def sortedClasses (index : Index) : List ClassSymbol :=
  index.classes.entries.mergeSort fun a b => decide (a.name ≤ b.name)

/-- One line for each class. -/
def listing (index : Index) : String :=
  String.join ((sortedClasses index).map fun c =>
    c.name ++ " (" ++ toString c.methods.length ++ " methods)\n")

/-- Carries out a command on an index. -/
def Command.run (command : Command) (s : Settings) (index : Index) : Outcome :=
  match command with
  | .resolve references json => resolveAll index s.linker? json references
  | .list => ⟨listing index, none⟩

/-- Carries out a command line in a file tree. -/
def Invocation.run (i : Invocation) (tree : FileTree) : Outcome :=
  match i.options.settings tree with
  | .error e => ⟨"", some e.chain⟩
  | .ok s =>
    match s.buildIndex tree with
    | .error e => ⟨"", some ["failed to build the class index", e.message]⟩
    | .ok index => i.command.run s index

end ClasspathIndex.CommandLine
