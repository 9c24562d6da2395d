import ClasspathIndex.Classpath.Scan
import ClasspathIndex.Index.Resolution
import ClasspathIndex.Registry

/-!
# Building an index

An index holds the classes of a namespace that the roots of a class path define.  Every
class file found is accounted for: it defines a class of the index, or the report says
why it does not, being malformed or replaced by a later definition of the same class.

A class and its origin are kept together, in one registry.  Kept apart, in a table of the
classes and one of the origins, they come out the same (`Index.map_ofTables_addAll`).
-/

namespace ClasspathIndex

/-- What happens when a class is defined twice. -/
inductive DuplicatePolicy where
  /-- The later definition replaces the earlier one. -/
  | lastWriteWins
  /-- No index is built. -/
  | fail
  deriving DecidableEq, Repr

/-- The word for a policy in settings. -/
def DuplicatePolicy.word : DuplicatePolicy → String
  | lastWriteWins => "last-write-wins"
  | fail => "fail"

/-- Why a class file found does not define a class of the index. -/
inductive SkipReason where
  /-- It is no class file, for the given reason. -/
  | malformed (message : String)
  /-- A later class file defines the same class. -/
  | replaced (name : String)
  deriving DecidableEq, Repr

/-- A class file that defines no class of the index. -/
structure Skipped where
  origin : Path
  reason : SkipReason
  deriving DecidableEq, Repr

/-- An account of the building of an index. -/
structure Report where
  rootsLocated : Nat
  entriesScanned : Nat
  classesIndexed : Nat
  skipped : List Skipped
  deriving DecidableEq, Repr

/-- Why no index is built. -/
inductive BuildError where
  | invalidNamespace (name : String) (fault : Namespace.Fault)
  /-- Two class files define one class, and the policy forbids it. -/
  | duplicateClass (name first second : String)
  deriving DecidableEq, Repr

/-- The error in words. -/
def BuildError.message : BuildError → String
  | invalidNamespace name fault =>
    "classpath scan failed: invalid base package '" ++ name ++ "': " ++ fault.reason
  | duplicateClass name first second =>
    "classpath scan failed: class '" ++ name ++ "' found in both " ++ first ++ " and " ++ second

/-- A class and the class file that defines it. -/
structure Definition where
  symbol : ClassSymbol
  origin : Path
  deriving DecidableEq, Repr

/-- The name of the defined class. -/
def Definition.name (d : Definition) : String :=
  d.symbol.name

/-- The definitions found so far, and the class files passed over. -/
structure Collection where
  definitions : Registry Definition Definition.name
  skipped : List Skipped

namespace Collection

/-- Nothing found. -/
def empty : Collection :=
  ⟨.empty, []⟩

/-- Takes in a definition; an earlier one of the same class is replaced or refused. -/
def define (policy : DuplicatePolicy) (c : Collection) (d : Definition) :
    Except BuildError Collection :=
  match c.definitions.find? d.name with
  | none => .ok ⟨c.definitions.put d, c.skipped⟩
  | some earlier =>
    match policy with
    | .fail => .error (.duplicateClass d.name earlier.origin.display d.origin.display)
    | .lastWriteWins =>
      .ok ⟨c.definitions.put d, c.skipped ++ [⟨earlier.origin, .replaced d.name⟩]⟩

/-- Takes in a class file. -/
def add (policy : DuplicatePolicy) (c : Collection) (f : ScannedFile) :
    Except BuildError Collection :=
  match ClassFile.summary f.content with
  | .error e => .ok ⟨c.definitions, c.skipped ++ [⟨f.origin, .malformed e.message⟩]⟩
  | .ok s => c.define policy ⟨ClassSymbol.ofSummary s, f.origin⟩

/-- Takes in class files one after the other. -/
def addAll (policy : DuplicatePolicy) (files : List ScannedFile) : Except BuildError Collection :=
  files.foldlM (add policy) empty

end Collection

/-- The classes of a namespace. -/
structure Index where
  /-- The namespace as given. -/
  base : String
  /-- The classes in the order in which they were first found. -/
  classes : Registry ClassSymbol ClassSymbol.name
  /-- The places of the classes with each simple name. -/
  simpleNames : NameGroups
  report : Report

namespace Index

/-- The index of the definitions that were collected from `files` in `rootCount` roots. -/
def ofCollection (base : String) (rootCount : Nat) (files : List ScannedFile) (c : Collection) :
    Index where
  base := base
  classes :=
    ⟨c.definitions.entries.map Definition.symbol, by
      rw [List.map_map]
      exact c.definitions.distinct⟩
  simpleNames := .ofClasses (c.definitions.entries.map Definition.symbol)
  report := {
    rootsLocated := rootCount
    entriesScanned := files.length
    classesIndexed := c.definitions.entries.length
    skipped := c.skipped }

/-- Builds the index of a namespace from class files found in `rootCount` roots. -/
def ofFiles (policy : DuplicatePolicy) (base : String) (rootCount : Nat)
    (files : List ScannedFile) : Except BuildError Index := do
  return ofCollection base rootCount files (← Collection.addAll policy files)

/-- Locates the roots that contain a namespace, scans them, and builds the index. -/
def build [ArchiveReader] (tree : FileTree) (policy : DuplicatePolicy) (paths : List Path)
    (base : String) :
    Except BuildError Index :=
  match Root.locate tree paths base, Namespace.path base with
  | .ok located, .ok basePath =>
    ofFiles policy base located.length (Scan.roots tree located basePath)
  | .error fault, _ => .error (.invalidNamespace base fault)
  | _, .error fault => .error (.invalidNamespace base fault)

/-- The number of classes. -/
def size (index : Index) : Nat :=
  index.classes.entries.length

/-- The class with the given full name, or the one class with the given simple name. -/
def resolve (index : Index) (name : String) : Except ResolveError ClassSymbol :=
  resolveClass index.classes index.simpleNames name

/-- What a reference stands for. -/
def lookup (index : Index) (r : Reference) : Except ResolveError Resolved :=
  lookupReference index.classes index.simpleNames r

end Index

end ClasspathIndex
