import ClasspathIndex.CommandLine.Usage

/-!
# The program

The program reads what a command line needs of the disk into a file tree, and carries the
command out there.  First the settings file is read, and then what the paths of the class
path lead to.  What cannot be read is left out.
-/

namespace ClasspathIndex.Disk

open CommandLine

/-- The names between the slashes of a path. -/
def namesOf (path : String) : List String :=
  (path.toList.splitOn '/').map String.ofList

/-- The absolute path of a position. -/
def pathOf (position : List String) : String :=
  "/" ++ String.intercalate "/" position

/-- Puts a node at a position of a tree. -/
def put (tree : FileTree) (position : List String) (node : Node) : FileTree :=
  { tree with root := Node.insert node (position.map Text.Utf8.encode) tree.root }

/-- Puts a node at a position of a tree where there is none yet. -/
def putNew (tree : FileTree) (position : List String) (node : Node) : FileTree :=
  if (tree.root.at? (position.map Text.Utf8.encode)).isSome then tree
  else put tree position node

/-- How many directories deep the disk is read. -/
def maxDepth : Nat := 2048

/-- The content of the file at a position. -/
def readFile (position : List String) : IO Bytes := do
  return (← IO.FS.readBinFile (pathOf position)).toList

/-- The position that the path of a position leads to, with all links followed. -/
def realPosition (position : List String) : IO (List String) := do
  return (namesOf (← IO.FS.realPath (pathOf position)).toString).filter (· ≠ "")

/-- What a position holds; nothing if it cannot be told. -/
def kindAt (position : List String) : IO (Option IO.FS.FileType) := do
  try
    match position with
    | [] => return some .dir
    | _ => return some (← ((← IO.currentDir) / pathOf position).symlinkMetadata).type
  catch _ => return none

/-- Reads the link at a position: the position it leads to is the target, if there is one. -/
def readLink (position : List String) : IO (Node × Option (List String)) := do
  try
    let target ← realPosition position
    return (.link (Path.ofString (pathOf target)), some target)
  catch _ => return (.link (Path.ofString (pathOf (position ++ ["missing"]))), none)

/-- Reads what is at a position and below, and the positions that links there lead to. -/
def readNode : Nat → List String → IO (Option Node × List (List String))
  | 0, _ => return (none, [])
  | depth + 1, position => do
    try
      match ← kindAt position with
      | some .file => return (some (.file (← readFile position)), [])
      | some .symlink =>
        let (node, target) ← readLink position
        return (some node, target.toList)
      | some .dir =>
        let mut entries := []
        let mut targets := []
        for entry in ← ((← IO.currentDir) / pathOf position).readDir do
          let (node, more) ← readNode depth (position ++ [entry.fileName])
          entries := entries ++ node.toList.map fun n => (Text.Utf8.encode entry.fileName, n)
          targets := targets ++ more
        return (some (.dir entries), targets)
      | _ => return (none, [])
    catch _ => return (none, [])

/-- Follows names from a position, and puts the links on the way into the tree; gives the
position at the end, if there is one. -/
def walk (tree : FileTree) (position : List String) :
    List String → IO (FileTree × Option (List String))
  | [] => return (tree, some position)
  | name :: names => do
    if name = "" ∨ name = "." then walk tree position names
    else if name = ".." then walk tree position.dropLast names
    else
      let here := position ++ [name]
      match ← kindAt here with
      | none => return (tree, none)
      | some .symlink =>
        let (node, target) ← readLink here
        let tree := putNew tree here node
        match target with
        | some target => walk tree target names
        | none => return (tree, none)
      | some _ => walk tree here names

/-- Puts the file at a position into the tree, or the directory without its entries. -/
def addFile (tree : FileTree) (position : List String) : IO FileTree := do
  try
    match ← kindAt position with
    | some .file => return putNew tree position (.file (← readFile position))
    | some .dir => return putNew tree position (.dir [])
    | _ => return tree
  catch _ => return tree

/-- Puts what a path leads to into the tree: with all that is below, and the files that links
lead to, if `deep`. -/
def addPath (deep : Bool) (tree : FileTree) (path : String) : IO FileTree := do
  let start := if path.startsWith "/" then [] else
    tree.workingDirectory.filterMap Text.Utf8.decode?
  match ← walk tree start (namesOf path) with
  | (tree, none) => return tree
  | (tree, some position) =>
    if deep then
      let (node, targets) ← readNode maxDepth position
      let tree := node.toList.foldl (fun tree node => put tree position node) tree
      targets.foldlM addFile tree
    else addFile tree position

/-- The working directory of the disk, and nothing else. -/
def emptyTree : IO FileTree := do
  let position := (namesOf (← IO.currentDir).toString).filter (· ≠ "")
  return put ⟨.dir [], position.map Text.Utf8.encode⟩ position (.dir [])

/-- The part of the disk that a command line needs. -/
def treeFor (i : Invocation) : IO FileTree := do
  let tree ← addPath false (← emptyTree) (i.options.config.getD Settings.defaultFile)
  match i.options.settings tree with
  | .error _ => return tree
  | .ok s =>
    let roots := Classpath.split s.classpath
    let tree ← roots.foldlM (addPath true) tree
    match Namespace.path s.basePackage with
    | .error _ => return tree
    | .ok base =>
      if base.isEmpty then return tree
      else (roots.map fun root => root ++ "/" ++ base).foldlM (addPath true) tree

end ClasspathIndex.Disk

namespace ClasspathIndex

open CommandLine

/-- Carries out the command line, and gives the exit status. -/
def runProgram (words : List String) : IO UInt32 := do
  match parse words with
  | .error e =>
    if e.exitStatus = 0 then IO.print e.message else IO.eprint e.message
    return e.exitStatus.toUInt32
  | .ok invocation =>
    let outcome := invocation.run (← Disk.treeFor invocation)
    IO.print outcome.written
    match outcome.failure with
    | none => return 0
    | some texts =>
      IO.eprint (failureText texts)
      return 1

end ClasspathIndex

/-- The entry of the program. -/
def main (words : List String) : IO UInt32 :=
  ClasspathIndex.runProgram words
