import ClasspathIndex.Archive.Directory
import ClasspathIndex.Proofs.Classpath.Reach
import ClasspathIndex.Proofs.Index.Policies
import ClasspathIndex.Proofs.Index.Resolution

/-!
# One class file in two roots

Where second definitions are forbidden, an index is refused for two class files of one class, and
both origins are named.  These differ if no root reaches into another one
(`Index.exists_files_of_build_eq_duplicateClass`).  A root that lies in another one is scanned
twice, and then a class file is reported to repeat itself
(`Index.build_repeats_itself_nestedTree`).
-/

namespace ClasspathIndex

/-- The two definitions of a first repetition stand in two class files, in this order. -/
lemma Definition.FirstRepetition.exists_sublist {files : List ScannedFile}
    {first second : Definition} (h : FirstRepetition (definitionsOf files) first second) :
    ∃ f g, [f, g].Sublist files ∧ f.definition? = some first ∧ g.definition? = some second := by
  obtain ⟨before, after, hsplit, -, hfirst, -⟩ := h
  obtain ⟨front, back, rfl, rfl, hback⟩ := List.filterMap_eq_append_iff.1 hsplit
  obtain ⟨f, hf, hdefined⟩ := List.mem_filterMap.1 hfirst
  obtain ⟨g, hg, hrepeated⟩ := List.mem_filterMap.1 (hback ▸ List.mem_cons_self)
  exact ⟨f, g, (List.singleton_sublist.2 hf).append (List.singleton_sublist.2 hg), hdefined,
    hrepeated⟩

namespace Index

open Text

/-- If an index is refused for a repeated class, two scanned class files define the class, one
after the other, and their origins are the ones that are named.  These are the same only if the
files were found in two roots one of which reaches into the other. -/
theorem exists_files_of_build_eq_duplicateClass [ArchiveReader] {tree : FileTree}
    {paths : List Path} {b base name first second : String} (htree : tree.WellFormed)
    (hnames : tree.root.NamesAreText) (hb : Namespace.path b = .ok base)
    (h : build tree .fail paths b = .error (.duplicateClass name first second)) :
    ∃ located f g, Root.locate tree paths b = .ok located ∧
      [f, g].Sublist (Scan.roots tree located base) ∧
      (∃ s, ClassFile.summary f.content = .ok s ∧ s.name = name) ∧
      (∃ s, ClassFile.summary g.content = .ok s ∧ s.name = name) ∧
      f.origin.display = first ∧ g.origin.display = second ∧
      (first = second → f.origin = g.origin ∧ ∃ r s, [r, s].Sublist located ∧
        f ∈ Scan.root tree base r ∧ g ∈ Scan.root tree base s ∧ ¬ Root.Apart base r s) ∧
      (located.Pairwise (Root.Apart base) → first ≠ second) := by
  rw [build_of_path hb, ofFiles_eq_error_iff, Collection.addAll_fail_eq_error_iff] at h
  have hlocate := Root.locate_of_path tree paths hb
  have hcontains : ∀ r ∈ (Root.candidates tree paths).filter (Root.contains tree base),
      Root.contains tree base r = true := fun r hr => (List.mem_filter.1 hr).2
  generalize (Root.candidates tree paths).filter (Root.contains tree base) = located
    at h hlocate hcontains
  obtain ⟨d, e, hrepetition, herror⟩ := h
  obtain ⟨rfl, rfl, rfl⟩ := BuildError.duplicateClass.inj herror
  obtain ⟨f, g, hfg, hf, hg⟩ := hrepetition.exists_sublist
  obtain ⟨before, after, -, -, -, hname⟩ := hrepetition
  obtain ⟨s, hs, rfl⟩ := ScannedFile.definition?_eq_some_iff.1 hf
  obtain ⟨t, ht, rfl⟩ := ScannedFile.definition?_eq_some_iff.1 hg
  have htext : ∀ k ∈ [f, g], Utf8.IsText k.origin.bytes := by
    intro k hk
    obtain ⟨r, hr, hkr⟩ := List.mem_flatMap.1 (hfg.subset hk)
    exact Scan.isText_origin htree hnames (hcontains r hr) hkr
  have hsame (hdisplay : f.origin.display = g.origin.display) :
      f.origin = g.origin ∧ ∃ r s, [r, s].Sublist located ∧
        f ∈ Scan.root tree base r ∧ g ∈ Scan.root tree base s ∧ ¬ Root.Apart base r s := by
    have horigin := Path.eq_of_display_eq (htext f (by simp)) (htext g (by simp)) hdisplay
    exact ⟨horigin, Scan.exists_roots_of_origin_eq htree hcontains hfg horigin⟩
  refine ⟨located, f, g, hlocate, hfg, ⟨s, hs, hname⟩, ⟨t, ht, rfl⟩, rfl, rfl, hsame, ?_⟩
  intro hapart hdisplay
  obtain ⟨-, r, s, hrs, -, -, hreach⟩ := hsame hdisplay
  exact hreach (List.pairwise_iff_forall_sublist.1 hapart hrs)

/-- A tree with the one file `a/b/B.class`. -/
def nestedTree : FileTree where
  root := .dir [([97], .dir [([98], .dir [([66, 46, 99, 108, 97, 115, 115], .file sampleFile)])])]
  workingDirectory := []

/-- The roots `a` and `a/b`. -/
def nestedPaths : List Path :=
  [⟨[97]⟩, ⟨[97, 47, 98]⟩]

/-- The tree with the nested directories is well formed. -/
lemma wellFormed_nestedTree : nestedTree.WellFormed where
  root := ⟨_, rfl⟩
  names := by
    refine Node.wellFormed_dir (by decide) (by decide) (List.forall_mem_singleton.2 ?_)
    refine Node.wellFormed_dir (by decide) (by decide) (List.forall_mem_singleton.2 ?_)
    refine Node.wellFormed_dir (by decide) (by decide) (List.forall_mem_singleton.2 ?_)
    exact Node.wellFormed_file _

/-- The names in the tree with the nested directories are text. -/
lemma namesAreText_nestedTree : nestedTree.root.NamesAreText := by
  refine Node.namesAreText_dir (List.forall_mem_singleton.2 ⟨"a", rfl⟩)
    (List.forall_mem_singleton.2 ?_)
  refine Node.namesAreText_dir (List.forall_mem_singleton.2 ⟨"b", rfl⟩)
    (List.forall_mem_singleton.2 ?_)
  refine Node.namesAreText_dir (List.forall_mem_singleton.2 ⟨"B.class", rfl⟩)
    (List.forall_mem_singleton.2 ?_)
  exact Node.namesAreText_file _

/-- The class file is found in both roots, and it is refused as its own repetition. -/
lemma build_nestedTree :
    build nestedTree .fail nestedPaths "" =
      .error (.duplicateClass "a.B" "/a/b/B.class" "/a/b/B.class") :=
  eq_error_of_map_build (by decide +kernel)

/-- The class file of two nested roots, whose origin is named twice. -/
theorem exists_files_of_build_eq_duplicateClass_nestedTree :
    ∃ located f g, Root.locate nestedTree nestedPaths "" = .ok located ∧
      [f, g].Sublist (Scan.roots nestedTree located "") ∧ f.origin = g.origin ∧
      f.origin.display = "/a/b/B.class" ∧
      ∃ r s, [r, s].Sublist located ∧ f ∈ Scan.root nestedTree "" r ∧
        g ∈ Scan.root nestedTree "" s ∧ ¬ Root.Apart "" r s := by
  have hb : Namespace.path "" = .ok "" := by decide +kernel
  obtain ⟨located, f, g, hlocate, hfg, -, -, hfirst, -, hsame, -⟩ :=
    exists_files_of_build_eq_duplicateClass wellFormed_nestedTree namesAreText_nestedTree hb
      build_nestedTree
  obtain ⟨horigin, hroots⟩ := hsame rfl
  exact ⟨located, f, g, hlocate, hfg, horigin, hfirst, hroots⟩

/-- Of a class file that is in two nested roots it is said that it repeats itself. -/
theorem build_repeats_itself_nestedTree :
    nestedTree.WellFormed ∧ nestedTree.root.NamesAreText ∧ Namespace.path "" = .ok "" ∧
      build nestedTree .fail nestedPaths "" =
        .error (.duplicateClass "a.B" "/a/b/B.class" "/a/b/B.class") ∧
      ¬ ∀ name first second, build nestedTree .fail nestedPaths "" =
        .error (.duplicateClass name first second) → first ≠ second := by
  refine ⟨wellFormed_nestedTree, namesAreText_nestedTree, by decide +kernel, build_nestedTree, ?_⟩
  intro hdistinct
  exact hdistinct _ _ _ build_nestedTree rfl

end Index

end ClasspathIndex
