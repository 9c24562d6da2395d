import ClasspathIndex.Archive.Directory
import ClasspathIndex.Proofs.Classpath.RootKinds
import ClasspathIndex.Proofs.Registry

/-!
# Located roots

Locating looks at a root in a way of its own: whether a directory is there, or a member with a
name that starts as it should.  A scan looks at the same root once more and goes further.  What
locating leaves out would have yielded nothing (`Scan.root_eq_nil_of_contains`), also where a file
stands in the place of the directory, since a namespace is not named like a class file.
-/

namespace ClasspathIndex

variable {tree : FileTree} {paths : List Path} {b base : String}

namespace Root

/-- Nothing is no root. -/
lemma kindOf_of_error {p : Path} {e : PathError} (h : tree.find p = .error e) :
    kindOf tree p = .unsupported := by
  simp [kindOf, FileTree.isDir, FileTree.isFile, h]

/-- For an accepted namespace, the located roots are those that contain it. -/
lemma locate_of_path [ArchiveReader] (tree : FileTree) (paths : List Path)
    (hb : Namespace.path b = .ok base) :
    locate tree paths b = .ok ((candidates tree paths).filter (contains tree base)) := by
  unfold locate
  rw [hb]
  rfl

/-- The located roots are picked out among the canonical paths before these are told apart. -/
lemma filter_candidates [ArchiveReader] (tree : FileTree) (paths : List Path) (base : String) :
    (candidates tree paths).filter (contains tree base) =
      (((paths.map tree.canonical).filter fun q =>
        contains tree base (classify tree q)).eraseDups).map (classify tree) := by
  unfold candidates
  rw [List.filter_map, filter_eraseDups]
  rfl

end Root

namespace Scan

/-- A root that does not contain the namespace yields nothing. -/
lemma root_eq_nil_of_contains [ArchiveReader] (hb : Namespace.path b = .ok base) (r : Root)
    (hnot : Root.contains tree base r = false) : root tree base r = [] := by
  obtain ⟨p, kind⟩ := r
  cases kind with
  | directory => exact Classpath.root_eq_nil_of_directory hb hnot
  | archive => exact Classpath.root_eq_nil_of_archive hnot
  | unsupported => rfl

/-- Roots that yield nothing can be left out. -/
lemma roots_filter [ArchiveReader] {rs : List Root} {keep : Root → Bool}
    (h : ∀ r ∈ rs, keep r = false → root tree base r = []) :
    roots tree (rs.filter keep) base = roots tree rs base := by
  unfold roots
  induction rs with
  | nil => rfl
  | cons r rs ih =>
    rw [List.forall_mem_cons] at h
    obtain ⟨hr, hrest⟩ := h
    cases hkeep : keep r with
    | true => rw [List.filter_cons_of_pos hkeep, List.flatMap_cons, List.flatMap_cons, ih hrest]
    | false =>
      rw [List.filter_cons_of_neg (by simp [hkeep]), List.flatMap_cons, ih hrest, hr hkeep,
        List.nil_append]

/-- The located roots yield the same class files in the same order as all roots that were given, in
their canonical forms: those that are not located yield nothing. -/
theorem roots_locate_eq_roots_candidates [ArchiveReader] {tree : FileTree} {paths : List Path}
    {b base : String} (hb : Namespace.path b = .ok base) :
    ∃ located, Root.locate tree paths b = .ok located ∧
      roots tree located base = roots tree (Root.candidates tree paths) base ∧
        ∀ r ∈ Root.candidates tree paths, r ∉ located → root tree base r = [] := by
  have hnil : ∀ r ∈ Root.candidates tree paths, Root.contains tree base r = false →
      root tree base r = [] :=
    fun r _ => root_eq_nil_of_contains hb r
  refine ⟨_, Root.locate_of_path tree paths hb, roots_filter hnil, ?_⟩
  intro r hr hdropped
  refine hnil r hr (Bool.eq_false_iff.2 ?_)
  intro hcontains
  exact hdropped (List.mem_filter.2 ⟨hr, hcontains⟩)

/-- A tree with a file `lib/a/C.class` and a file `x/a`, in the place of a directory. -/
def misplacedTree : FileTree where
  root := .dir [
    ([108, 105, 98], .dir [([97], .dir [([67, 46, 99, 108, 97, 115, 115], .file [])])]),
    ([120], .dir [([97], .file [])])]
  workingDirectory := []

/-- The two directories. -/
def misplacedPaths : List Path :=
  [⟨[108, 105, 98]⟩, ⟨[120]⟩]

/-- Of the two directories, the one with a file in the place of the namespace is dropped. -/
theorem roots_locate_eq_roots_candidates_misplacedTree :
    ∃ located, Root.locate misplacedTree misplacedPaths "a" = .ok located ∧
      located.length = 1 ∧ (Root.candidates misplacedTree misplacedPaths).length = 2 ∧
        roots misplacedTree located "a" =
          roots misplacedTree (Root.candidates misplacedTree misplacedPaths) "a" := by
  have hb : Namespace.path "a" = .ok "a" := by decide +kernel
  have hcount : (Root.locate misplacedTree misplacedPaths "a").map List.length = .ok 1 := by
    decide +kernel
  obtain ⟨located, hlocate, hroots, -⟩ :=
    @roots_locate_eq_roots_candidates _ misplacedTree misplacedPaths _ _ hb
  rw [hlocate] at hcount
  exact ⟨located, hlocate, Except.ok.inj hcount, by decide +kernel, hroots⟩

end Scan

end ClasspathIndex
