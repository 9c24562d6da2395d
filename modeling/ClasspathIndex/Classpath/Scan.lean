import ClasspathIndex.Classpath.Root
import ClasspathIndex.FileTree.Leaves

/-!
# Scanning roots for class files

A scan yields the class files below one directory of each root, with their origins.  A
directory is walked (`Scan.walk`): what is still to be looked at is kept in order, and a
directory gives way to its entries, so that the files come in the order of their paths;
linked directories below the start are not entered.  In an archive the class files come in
the order of its directory, without those under `META-INF/`.  What cannot be read is passed
over.

A file or a member is read as a whole.  Memory for it is always there: the size that an
archive tells of a member is not looked at, as it is not part of the content.
-/

namespace ClasspathIndex

open Text

/-- A class file and where it was found. -/
structure ScannedFile where
  /-- The path of the file, or `archive!/member`. -/
  origin : Path
  content : Bytes
  deriving DecidableEq, Repr

namespace Scan

/-- How the names of class files end, without regard to case. -/
def classSuffix : String := ".class"

/-- The files that end like class files and hold no class. -/
def nonClassFiles : List String := ["module-info.class", "package-info.class"]

/-- Whether a name ends like that of a class file and has something before the ending. -/
def hasClassSuffix (name : List Char) : Bool :=
  let stem := name.length - classSuffix.length
  decide (0 < stem) && eqIgnoreCase (name.drop stem) classSuffix.toList

/-- Whether a name is that of a class file. -/
def isClassFileName (name : String) : Bool :=
  hasClassSuffix name.toList && !nonClassFiles.contains name

/-- Whether the last component of a path is text and the name of a class file. -/
def isClassFilePath (p : Path) : Bool :=
  match p.fileName?.bind Utf8.decode? with
  | some name => isClassFileName name
  | none => false

/-- The class file that a leaf is, if it is one.  A link counts if it leads to a file, and a
path that is too long cannot be read. -/
def ofLeaf (tree : FileTree) : Path × Node → Option ScannedFile
  | (p, node) =>
    if isClassFilePath p && !p.isTooLong then
      match node with
      | .file content => some ⟨p, content⟩
      | .link _ => (tree.readFile p).toOption.map (ScannedFile.mk p)
      | .dir _ => none
    else none

/-- Whether an entry of a directory is a link to a directory; `p` is the path of the entry. -/
def isDirectoryLink (tree : FileTree) (p : Path) : Node → Bool
  | .link _ => tree.isDir p
  | _ => false

/-- What a walk looks at below a directory: its entries in the order of their names, without
links to directories. -/
def children (tree : FileTree) (p : Path) (entries : List (Name × Node)) : List (Path × Node) :=
  ((Node.sortByName entries).map fun e => (p.child e.1, e.2)).filter fun e =>
    !isDirectoryLink tree e.1 e.2

/-- The number of nodes at or below what is pending. -/
def pendingCount : List (Path × Node) → Nat
  | [] => 0
  | e :: pending => e.2.count + pendingCount pending

/-- What is pending in two parts has the nodes of both. -/
theorem pendingCount_append (xs ys : List (Path × Node)) :
    pendingCount (xs ++ ys) = pendingCount xs + pendingCount ys := by
  induction xs with
  | nil => rw [List.nil_append, pendingCount, Nat.zero_add]
  | cons x xs ih => rw [List.cons_append, pendingCount, pendingCount, ih, Nat.add_assoc]

/-- Leaving out some of what is pending adds no nodes. -/
theorem pendingCount_filter_le (keep : Path × Node → Bool) (xs : List (Path × Node)) :
    pendingCount (xs.filter keep) ≤ pendingCount xs := by
  induction xs with
  | nil => exact Nat.le_refl _
  | cons x xs ih =>
    rw [List.filter_cons]
    split
    · exact Nat.add_le_add_left ih _
    · exact Nat.le_trans ih (Nat.le_add_left _ _)

/-- The number of nodes does not depend on the order in which they are pending. -/
theorem pendingCount_perm {xs ys : List (Path × Node)} (h : xs.Perm ys) :
    pendingCount xs = pendingCount ys := by
  induction h with
  | nil => rfl
  | cons x _ ih => rw [pendingCount, pendingCount, ih]
  | swap x y xs => simp only [pendingCount, Nat.add_left_comm]
  | trans _ _ ih₁ ih₂ => exact ih₁.trans ih₂

/-- The entries of a directory, put behind its path, have the nodes of these entries. -/
theorem pendingCount_entries (p : Path) (entries : List (Name × Node)) :
    pendingCount (entries.map fun e => (p.child e.1, e.2)) = Node.countEntries entries := by
  induction entries with
  | nil => rfl
  | cons e entries ih => rw [List.map_cons, pendingCount, ih, Node.countEntries]

/-- A directory has more nodes than what is looked at below it. -/
theorem pendingCount_children_lt (tree : FileTree) (p : Path) (entries : List (Name × Node)) :
    pendingCount (children tree p entries) < (Node.dir entries).count := by
  have hsorted : (Node.sortByName entries).Perm entries := List.mergeSort_perm _ _
  have hcount := pendingCount_perm (hsorted.map fun e => (p.child e.1, e.2))
  rw [Node.count, ← pendingCount_entries p entries, ← hcount]
  exact Nat.lt_succ_of_le (pendingCount_filter_le _ _)

/-- The class files at or below what is pending, which are paths with what stands there.  The
first of them is looked at: a directory gives way to its entries, in its place. -/
def walk (tree : FileTree) : List (Path × Node) → List ScannedFile
  | [] => []
  | (p, .dir entries) :: pending => walk tree (children tree p entries ++ pending)
  | (p, node) :: pending => (ofLeaf tree (p, node)).toList ++ walk tree pending
termination_by pending => pendingCount pending
decreasing_by
  · rw [pendingCount_append, pendingCount]
    exact Nat.add_lt_add_right (pendingCount_children_lt tree p entries) _
  · rw [pendingCount]
    exact Nat.lt_add_of_pos_left node.count_pos

/-- The class files at or below a path. -/
def below (tree : FileTree) (start : Path) : List ScannedFile :=
  match tree.find start with
  | .ok node => walk tree [(start, node)]
  | .error _ => []

/-- What follows the last slash of a member name. -/
def memberFileName (name : String) : String :=
  match breakLast '/' name.toList with
  | some (_, file) => String.ofList file
  | none => name

/-- Whether a member is a class file below the directory `base` of its archive. -/
def wantsMember (base : String) (m : Archive.Member) : Bool :=
  !m.isLink && Root.startsWith (Root.memberPrefix base) m.name &&
    !Root.startsWith "META-INF/" m.name && isClassFileName (memberFileName m.name)

/-- The origin of a member. -/
def memberOrigin (archive : Path) (name : String) : Path :=
  Path.ofString (archive.display ++ "!/" ++ name)

section

variable [ArchiveReader]

/-- The class files below the directory `base` of an archive. -/
def members (tree : FileTree) (archive : Path) (base : String) : List ScannedFile :=
  match Root.openArchive? tree archive with
  | none => []
  | some (file, listed) =>
    (listed.entries.filter (wantsMember base)).filterMap fun m =>
      (ArchiveReader.content? file m).map (ScannedFile.mk (memberOrigin archive m.name))

/-- The class files below the directory `base` of a root. -/
def root (tree : FileTree) (base : String) (r : Root) : List ScannedFile :=
  match r.kind with
  | .directory => below tree (r.path.join (Path.ofString base))
  | .archive => members tree r.path base
  | .unsupported => []

/-- The class files below the directory `base` of each root, in the order of the roots. -/
def roots (tree : FileTree) (rs : List Root) (base : String) : List ScannedFile :=
  rs.flatMap (root tree base)

end

end Scan

end ClasspathIndex
