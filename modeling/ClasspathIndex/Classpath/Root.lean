import ClasspathIndex.Archive.Reader
import ClasspathIndex.FileTree.Basic
import ClasspathIndex.Namespace
import ClasspathIndex.Text.Ascii

/-!
# Roots

A root of a class path is a directory or an archive.  `locate` keeps the roots that
contain a namespace, each once and by its canonical path.

Roots are told apart by the bytes of their canonical paths.  A canonical path is written in
one way only, so that comparing components would come to the same
(`Root.locate_eq_filter_eraseDupsBy`).  A path without a canonical form is kept as it is
given, and apart from those that are written otherwise.
-/

namespace ClasspathIndex

open Text

/-- How a root stores its classes. -/
inductive RootKind where
  | directory
  | archive
  /-- Neither a directory nor an archive; it has no classes. -/
  | unsupported
  deriving DecidableEq, Repr

/-- A path of a class path, and what it leads to. -/
structure Root where
  path : Path
  kind : RootKind
  deriving DecidableEq, Repr

namespace Root

/-- The file name extensions of archives. -/
def archiveExtensions : List String := ["jar", "zip"]

/-- Whether a path has the extension of an archive. -/
def hasArchiveExtension (p : Path) : Bool :=
  match p.extension?.bind Utf8.decode? with
  | some ext => archiveExtensions.any fun known => eqIgnoreCase ext.toList known.toList
  | none => false

/-- The kind of a path: a directory, or a file with the extension of an archive. -/
def kindOf (tree : FileTree) (p : Path) : RootKind :=
  if tree.isDir p then .directory
  else if tree.isFile p && hasArchiveExtension p then .archive
  else .unsupported

/-- A path with its kind. -/
def classify (tree : FileTree) (p : Path) : Root :=
  ⟨p, kindOf tree p⟩

/-- What the names of the members below a directory of an archive start with; nothing for
the archive itself. -/
def memberPrefix (base : String) : String :=
  if base.isEmpty then "" else base ++ "/"

/-- Whether a text starts with another. -/
def startsWith (start text : String) : Bool :=
  start.toList.isPrefixOf text.toList

/-- The canonical forms of paths, each once, classified.  They are compared byte by byte. -/
def candidates (tree : FileTree) (paths : List Path) : List Root :=
  (paths.map tree.canonical).eraseDups.map (classify tree)

section

variable [ArchiveReader]

/-- The content of the archive at a path, and its members. -/
def openArchive? (tree : FileTree) (p : Path) : Option (Bytes × Archive.Listing) := do
  match tree.readFile p with
  | .ok file => return (file, ← ArchiveReader.open? file)
  | .error _ => none

/-- Whether a root has the directory `base`. -/
def contains (tree : FileTree) (base : String) (r : Root) : Bool :=
  match r.kind with
  | .directory => tree.isDir (r.path.join (Path.ofString base))
  | .archive =>
    match openArchive? tree r.path with
    | some (_, members) =>
      base.isEmpty || members.entries.any fun m => startsWith (memberPrefix base) m.name
    | none => false
  | .unsupported => false

/-- The roots that have the directory of a namespace, in the order in which they were first
named. -/
def locate (tree : FileTree) (paths : List Path) (base : String) :
    Except Namespace.Fault (List Root) := do
  return (candidates tree paths).filter (contains tree (← Namespace.path base))

end

end Root

end ClasspathIndex
