import ClasspathIndex.Classpath.Scan
import ClasspathIndex.Proofs.FileTree.Leaves

/-!
# What a walk yields

A walk keeps what is still to be looked at in order.  At every step, what it will yield is what
the leaves of the pending nodes give, one node after the other: a directory has the leaves of its
entries, and a link to a directory gives nothing (`Scan.walk_eq_flatMap`).  So a walk from a
single path yields the class files among the leaves there (`Scan.below_of_find`).
-/

namespace ClasspathIndex

namespace Scan

variable {tree : FileTree}

/-- The class files among the leaves of a pending node. -/
def filesAt (tree : FileTree) (e : Path × Node) : List ScannedFile :=
  (e.2.leaves e.1).filterMap (ofLeaf tree)

/-- Apart from directories, what is found is the leaf itself. -/
lemma filesAt_of_not_dir {p : Path} {node : Node} (h : ∀ entries, node ≠ .dir entries) :
    filesAt tree (p, node) = (ofLeaf tree (p, node)).toList := by
  have hleaves : node.leaves p = [(p, node)] := by
    cases node with
    | file content => rw [Node.leaves]
    | link target => rw [Node.leaves]
    | dir entries => exact absurd rfl (h entries)
  rw [filesAt, hleaves, List.filterMap_cons]
  cases ofLeaf tree (p, node) <;> rfl

/-- A link to a directory cannot be read. -/
lemma filesAt_of_isDirectoryLink {p : Path} {node : Node} (h : isDirectoryLink tree p node = true) :
    filesAt tree (p, node) = [] := by
  cases node with
  | file content => simp [isDirectoryLink] at h
  | dir entries => simp [isDirectoryLink] at h
  | link target =>
    obtain ⟨entries, hdir⟩ := FileTree.isDir_eq_true_iff.1 h
    have hread : (tree.readFile p).toOption = none := by
      unfold FileTree.readFile
      rw [hdir]
      rfl
    rw [filesAt_of_not_dir (by simp)]
    unfold ofLeaf
    dsimp only
    split
    · rw [hread]
      rfl
    · rfl

/-- A directory gives what its entries give, also without the links to directories. -/
lemma flatMap_filesAt_children (p : Path) (entries : List (Name × Node)) :
    (children tree p entries).flatMap (filesAt tree) = filesAt tree (p, .dir entries) := by
  have hfilter (xs : List (Path × Node)) :
      (xs.filter fun e => !isDirectoryLink tree e.1 e.2).flatMap (filesAt tree) =
        xs.flatMap (filesAt tree) := by
    induction xs with
    | nil => rfl
    | cons x xs ih =>
      rw [List.flatMap_cons, ← ih]
      cases hlink : isDirectoryLink tree x.1 x.2 with
      | true =>
        rw [List.filter_cons_of_neg (by simp [hlink]), filesAt_of_isDirectoryLink hlink,
          List.nil_append]
      | false => rw [List.filter_cons_of_pos (by simp [hlink]), List.flatMap_cons]
  unfold children
  rw [hfilter, List.flatMap_map, filesAt, Node.leaves_dir, List.filterMap_flatMap]
  rfl

/-- At every step, a walk will yield what the pending nodes give, one after the other. -/
lemma walk_eq_flatMap (tree : FileTree) (pending : List (Path × Node)) :
    walk tree pending = pending.flatMap (filesAt tree) := by
  induction pending using walk.induct tree with
  | case1 => rw [walk, List.flatMap_nil]
  | case2 p entries pending ih =>
    rw [walk, ih, List.flatMap_append, flatMap_filesAt_children, List.flatMap_cons]
  | case3 p node pending hnode ih =>
    have hdir : ∀ entries, node ≠ .dir entries := fun entries h => hnode entries h
    rw [walk, ih, List.flatMap_cons, filesAt_of_not_dir hdir]
    exact hdir

/-- A walk from a path yields the class files among the leaves there. -/
lemma below_of_find {start : Path} {node : Node} (h : tree.find start = .ok node) :
    below tree start = (node.leaves start).filterMap (ofLeaf tree) := by
  unfold below
  rw [h]
  change walk tree [(start, node)] = _
  rw [walk_eq_flatMap, List.flatMap_cons, List.flatMap_nil, List.append_nil]
  rfl

/-- Where a walk starts at no directory, it looks at one leaf. -/
lemma below_of_find_of_not_dir {start : Path} {node : Node} (h : tree.find start = .ok node)
    (hnode : ∀ entries, node ≠ .dir entries) :
    below tree start = (ofLeaf tree (start, node)).toList :=
  (below_of_find h).trans (filesAt_of_not_dir hnode)

end Scan

end ClasspathIndex
