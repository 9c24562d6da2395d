import ClasspathIndex.Archive.Directory
import ClasspathIndex.Proofs.Classpath.Location
import ClasspathIndex.Proofs.FileTree.Links
import ClasspathIndex.Proofs.Index.Selection

/-!
# Roots as they are given

A root is looked at by its canonical path.  So what is located are the canonical paths that are good
roots, each once, in the order in which they are first named (`Root.exists_locate_listsFirst`).

A path as it was given may be a good root where its canonical path is none, and the other way round.
The extension tells an archive, and a link can have another one than its target, so that an archive
reached through a link is lost (`Root.not_listsFirst_linkedTree`).  Besides, the longer of two paths
may be too long, and a path through links may run out of them.  Where nothing of this happens
(`Root.Plain`), the good roots are located that were given.
-/

namespace ClasspathIndex

variable {tree : FileTree} {paths : List Path} {p : Path} {b base : String}

namespace Root

/-! ### Good roots -/

/-- Whether the canonical forms of those paths are listed that are good, each once, in the order in
which they are first named. -/
structure ListsFirst (tree : FileTree) (paths : List Path) (good : Path → Prop)
    (listed : List Path) : Prop where
  mem : ∀ q, q ∈ listed ↔ ∃ p ∈ paths, good p ∧ tree.canonical p = q
  nodup : listed.Nodup
  ordered : listed.Pairwise fun q r =>
    (paths.map tree.canonical).idxOf q < (paths.map tree.canonical).idxOf r

/-- Which paths are good matters for the given paths only. -/
lemma ListsFirst.congr {good good' : Path → Prop} {listed : List Path}
    (h : ListsFirst tree paths good listed) (hgood : ∀ p ∈ paths, good p ↔ good' p) :
    ListsFirst tree paths good' listed where
  mem q := by
    rw [h.mem]
    exact exists_congr fun p => and_congr_right fun hp => and_congr_left fun _ => hgood p hp
  nodup := h.nodup
  ordered := h.ordered

end Root

end ClasspathIndex
