import ClasspathIndex.CommandLine.Run
import ClasspathIndex.Proofs.Index.Distinct
import ClasspathIndex.Proofs.Index.Resolution

/-!
# Indexes of the same classes

What is observed of the classes of an index does not depend on their order: names and references
stand for the same, and the listing is sorted (`Index.sameClasses_of_perm`).
-/

namespace ClasspathIndex

namespace Index

variable {tree : FileTree} {paths : List Path} {index other : Index}

/-! ### What an index is built from -/

/-- For an accepted namespace, an index is built from the class files of the roots that contain
it. -/
lemma build_of_path [ArchiveReader] {policy : DuplicatePolicy} {b base : String}
    (hb : Namespace.path b = .ok base) :
    build tree policy paths b =
      ofFiles policy b ((Root.candidates tree paths).filter (Root.contains tree base)).length
        (Scan.roots tree ((Root.candidates tree paths).filter (Root.contains tree base)) base) := by
  unfold build Root.locate
  rw [hb]
  rfl

/-- Two indexes hold the same classes and answer alike. -/
structure SameClasses (index other : Index) : Prop where
  classes : index.classes.entries.Perm other.classes.entries
  resolve : ∀ name, index.resolve name = other.resolve name
  lookup : ∀ r, index.lookup r = other.lookup r
  listing : CommandLine.listing index = CommandLine.listing other

/-- A listing is sorted by the names of the classes, which are distinct. -/
lemma listing_eq_of_perm (h : index.classes.entries.Perm other.classes.entries) :
    CommandLine.listing index = CommandLine.listing other := by
  have hsorted : CommandLine.sortedClasses index = CommandLine.sortedClasses other :=
    mergeSort_key_eq_of_perm h fun _ hc _ hd hname =>
      List.inj_on_of_nodup_map index.classes.distinct hc hd hname
  unfold CommandLine.listing
  rw [hsorted]

/-- Indexes with the same classes, in any order, answer alike. -/
lemma sameClasses_of_perm (h : index.simpleNames = .ofClasses index.classes.entries)
    (hother : other.simpleNames = .ofClasses other.classes.entries)
    (hclasses : index.classes.entries.Perm other.classes.entries) : index.SameClasses other where
  classes := hclasses
  resolve := resolve_eq_of_perm h hother hclasses
  lookup := lookup_eq_of_resolve_eq (resolve_eq_of_perm h hother hclasses)
  listing := listing_eq_of_perm hclasses

end Index

end ClasspathIndex
