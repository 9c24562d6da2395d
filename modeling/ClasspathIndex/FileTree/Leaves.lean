import ClasspathIndex.FileTree.Basic

/-!
# The leaves below a directory

`Node.leaves` lists everything below a directory that is no directory itself, each with
its path.  Entries come in the order of the bytes of their names, and the leaves of a
directory stand where the directory stands among its neighbours.  Links are leaves: what
lies behind them is not entered.  `Node.count` is the number of all nodes of a tree.
-/

namespace ClasspathIndex.Node

/-- Sorts named values by the bytes of their names. -/
def sortByName {α : Type} (xs : List (Name × α)) : List (Name × α) :=
  xs.mergeSort fun a b => decide (a.1 ≤ b.1)

mutual

/-- The files and links at or below a node, in order, with their paths. -/
def leaves (p : Path) : Node → List (Path × Node)
  | file content => [(p, file content)]
  | link target => [(p, link target)]
  | dir entries => (sortByName (leavesByName p entries)).flatMap Prod.snd

/-- The leaves of each entry of the directory with path `p`. -/
def leavesByName (p : Path) : List (Name × Node) → List (Name × List (Path × Node))
  | [] => []
  | (name, node) :: entries => (name, leaves (p.child name) node) :: leavesByName p entries

end

mutual

/-- The number of files, links and directories at or below a node. -/
def count : Node → Nat
  | file _ => 1
  | link _ => 1
  | dir entries => countEntries entries + 1

/-- The number of files, links and directories at or below the entries of a directory. -/
def countEntries : List (Name × Node) → Nat
  | [] => 0
  | (_, node) :: entries => count node + countEntries entries

end

/-- A node counts at least itself. -/
theorem count_pos (node : Node) : 0 < node.count := by
  cases node <;> simp [count]

end ClasspathIndex.Node
