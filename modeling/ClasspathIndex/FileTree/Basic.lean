import ClasspathIndex.FileTree.Path

/-!
# File trees

A file tree is a directory of named entries: files, symbolic links and directories.  It
does not change.  `FileTree.find` follows a path from the working directory, or from the
root if the path is absolute, and replaces every symbolic link by its target, up to forty
times; what a path leads to is answered through it.  Paths and names have greatest
lengths, above which nothing is found.
-/

namespace ClasspathIndex

/-- A file, a symbolic link or a directory. -/
inductive Node where
  | file (content : Bytes)
  | link (target : Path)
  | dir (entries : List (Name × Node))

namespace Node

/-- The node at the end of a sequence of directory entries; links are not followed. -/
def at? : List Name → Node → Option Node
  | [], node => some node
  | name :: names, dir entries => (entries.lookup name).bind (at? names)
  | _ :: _, _ => none

/-- Replaces or appends the entry with the given name. -/
def setEntry (name : Name) (node : Node) : List (Name × Node) → List (Name × Node)
  | [] => [(name, node)]
  | e :: es => if e.1 = name then (name, node) :: es else e :: setEntry name node es

/-- Puts a node at a position; what stands in the way becomes a directory. -/
def insert (new : Node) : List Name → Node → Node
  | [], _ => new
  | name :: names, dir entries =>
    dir (setEntry name (insert new names ((entries.lookup name).getD (dir []))) entries)
  | name :: names, _ => dir [(name, insert new names (dir []))]

end Node

/-- Why a path leads nowhere. -/
inductive PathError where
  | notFound
  | notDirectory
  | isDirectory
  | tooManyLinks
  /-- The path or the name of an entry on its way is longer than the system allows. -/
  | nameTooLong
  /-- The path holds a zero byte. -/
  | zeroByte
  deriving DecidableEq, Repr

/-- The error in the words of the system. -/
def PathError.message : PathError → String
  | notFound => "No such file or directory (os error 2)"
  | notDirectory => "Not a directory (os error 20)"
  | isDirectory => "Is a directory (os error 21)"
  | tooManyLinks => "Too many levels of symbolic links (os error 40)"
  | nameTooLong => "File name too long (os error 36)"
  | zeroByte => "file name contained an unexpected NUL byte"

/-- A file tree with a working directory, given by the names on the way to it. -/
structure FileTree where
  root : Node
  workingDirectory : List Name

namespace FileTree

/-- Where a path starts. -/
def startOf (p : Path) (position : List Name) : List Name :=
  if p.isAbsolute then [] else position

/-- Goes from a position through path components.  A link is handed to `follow` with the
position of its directory, its target and the components after it. -/
def descend (root : Node) (follow : List Name → Path → List Bytes → Except PathError (List Name)) :
    List Name → List Bytes → Except PathError (List Name)
  | position, [] => .ok position
  | position, c :: cs =>
    match root.at? position with
    | some (.dir entries) =>
      if c = [] ∨ c = Path.here then descend root follow position cs
      else if c = Path.above then descend root follow position.dropLast cs
      else if Path.maxNameLength < c.length then .error .nameTooLong
      else
        match entries.lookup c with
        | none => .error .notFound
        | some (.link target) => follow position target cs
        | some _ => descend root follow (position ++ [c]) cs
    | some _ => .error .notDirectory
    | none => .error .notFound

/-- Goes from a position through path components, following at most the given number of
links. -/
def descendLinks (root : Node) : Nat → List Name → List Bytes → Except PathError (List Name)
  | 0 => descend root fun _ _ _ => .error .tooManyLinks
  | links + 1 => descend root fun position target cs =>
    descendLinks root links (startOf target position) (target.pieces ++ cs)

/-- How many links the way along one path may follow. -/
def maxLinks : Nat := 40

/-- The position that a path of any length leads to, with all links followed. -/
def positionOf (tree : FileTree) (p : Path) : Except PathError (List Name) :=
  if p.bytes.isEmpty then .error .notFound
  else if p.bytes.contains 0 then .error .zeroByte
  else descendLinks tree.root maxLinks (startOf p tree.workingDirectory) p.pieces

/-- The file or directory that a path leads to. -/
def find (tree : FileTree) (p : Path) : Except PathError Node := do
  if p.isTooLong && !p.bytes.contains 0 then .error .nameTooLong
  else
    match tree.root.at? (← tree.positionOf p) with
    | some node => return node
    | none => .error .notFound

/-- Whether a path leads to a directory. -/
def isDir (tree : FileTree) (p : Path) : Bool :=
  match tree.find p with
  | .ok (.dir _) => true
  | _ => false

/-- Whether a path leads to a file. -/
def isFile (tree : FileTree) (p : Path) : Bool :=
  match tree.find p with
  | .ok (.file _) => true
  | _ => false

/-- The content of the file that a path leads to. -/
def readFile (tree : FileTree) (p : Path) : Except PathError Bytes :=
  match tree.find p with
  | .ok (.file content) => .ok content
  | .ok _ => .error .isDirectory
  | .error e => .error e

/-- The absolute path without links that leads to the same place; the path itself if it
leads nowhere.  Since the way is gone step by step, only the absolute path has to keep to
the greatest length. -/
def canonical (tree : FileTree) (p : Path) : Path :=
  match tree.positionOf p with
  | .ok position =>
    if (Path.ofPosition position).isTooLong then p else Path.ofPosition position
  | .error _ => p

end FileTree

end ClasspathIndex
