import ClasspathIndex.Archive.Directory
import ClasspathIndex.Proofs.Classpath.Scanned
import ClasspathIndex.Proofs.Index.Accounting

/-!
# The classes of a namespace

If all class files of the roots are well formed and stored under the names of their classes, the
index of a namespace has exactly the classes that are stored in some root and that the namespace
selects by their full names.  Locating, scanning and collecting are followed one after the
other: what each of them keeps is told by the names on the way to a file.
-/

namespace ClasspathIndex

namespace Classpath

variable [ArchiveReader] {tree : FileTree} {p : Path}

/-- Whether a root stores the class with the given full name, as a file under the internal name. -/
def Stores (tree : FileTree) (p : Path) (name : String) : Prop :=
  ∃ internal content, InternalName internal ∧ Holds tree p (namesOf (classFile internal)) content ∧
    name = QualifiedName.dotted internal

/-- Whether a root stores a class, as what the file under its internal name defines. -/
def StoresClass (tree : FileTree) (p : Path) (c : ClassSymbol) : Prop :=
  ∃ internal content s, InternalName internal ∧
    Holds tree p (namesOf (classFile internal)) content ∧
      ClassFile.summary content = .ok s ∧ s.name = QualifiedName.dotted internal ∧
        c = ClassSymbol.ofSummary s

/-- A class file that is found in a root defines a class that the root stores and the namespace
selects. -/
lemma storesClass_of_mem_root (htree : tree.WellFormed) {b base : String}
    (hb : Namespace.path b = .ok base) (h : ClassRoot tree p) {f : ScannedFile}
    {s : ClassFile.Summary}
    (hcontains : Root.contains tree base (Root.classify tree (tree.canonical p)) = true)
    (hf : f ∈ Scan.root tree base (Root.classify tree (tree.canonical p)))
    (hs : ClassFile.summary f.content = .ok s) :
    StoresClass tree p (ClassSymbol.ofSummary s) ∧ Namespace.Selects b s.name := by
  obtain ⟨rest, hne, hholds, hentry⟩ :=
    (exists_mem_root_iff htree hb h).1 ⟨hcontains, f, hf, rfl⟩
  obtain ⟨internal, s', hinternal, hnames, -, hs', hname⟩ := h.classes _ _ hholds hentry
  obtain rfl := Except.ok.inj (hs.symm.trans hs')
  rw [← hnames] at hholds
  refine ⟨⟨internal, f.content, s, hinternal, hholds, hs, hname, rfl⟩, ?_⟩
  rw [hname, Namespace.selects_dotted_iff hb hinternal]
  exact ⟨rest, hne, hnames⟩

/-- The class files that are found in a root define the classes that it stores and the namespace
selects. -/
lemma exists_summary_iff (htree : tree.WellFormed) {b base : String}
    (hb : Namespace.path b = .ok base) (h : ClassRoot tree p) (name : String) :
    (Root.contains tree base (Root.classify tree (tree.canonical p)) = true ∧
        ∃ f ∈ Scan.root tree base (Root.classify tree (tree.canonical p)),
          ∃ s, ClassFile.summary f.content = .ok s ∧ s.name = name) ↔
      Stores tree p name ∧ Namespace.Selects b name := by
  constructor
  · rintro ⟨hcontains, f, hf, s, hs, rfl⟩
    obtain ⟨⟨internal, content, s', hinternal, hholds, -, hname, hsymbol⟩, hselects⟩ :=
      storesClass_of_mem_root htree hb h hcontains hf hs
    have hsame : s.name = s'.name := congrArg ClassSymbol.name hsymbol
    exact ⟨⟨internal, content, hinternal, hholds, hsame.trans hname⟩, hselects⟩
  · rintro ⟨⟨internal, content, hinternal, hholds, rfl⟩, hselects⟩
    have hentry := isClassEntry_classFile hinternal
    obtain ⟨other, s, -, hnames, -, hs, hname⟩ := h.classes _ _ hholds hentry
    obtain rfl := classFile_injective (namesOf_injective hnames)
    obtain ⟨rest, hne, hrest⟩ := (Namespace.selects_dotted_iff hb hinternal).1 hselects
    rw [hrest] at hholds hentry
    obtain ⟨hcontains, f, hf, rfl⟩ :=
      (exists_mem_root_iff htree hb h).2 ⟨rest, hne, hholds, hentry⟩
    exact ⟨hcontains, f, hf, s, hs, hname⟩

/-- The roots that are located are those of the paths that contain the namespace. -/
lemma mem_roots_iff {paths : List Path} {base : String} {f : ScannedFile} :
    f ∈ Scan.roots tree ((Root.candidates tree paths).filter (Root.contains tree base)) base ↔
      ∃ p ∈ paths, Root.contains tree base (Root.classify tree (tree.canonical p)) = true ∧
        f ∈ Scan.root tree base (Root.classify tree (tree.canonical p)) := by
  unfold Scan.roots Root.candidates
  rw [List.mem_flatMap]
  constructor
  · rintro ⟨r, hr, hf⟩
    obtain ⟨hr, hcontains⟩ := List.mem_filter.1 hr
    obtain ⟨c, hc, rfl⟩ := List.mem_map.1 hr
    obtain ⟨p, hp, rfl⟩ := List.mem_map.1 (List.mem_eraseDups.1 hc)
    exact ⟨p, hp, hcontains, hf⟩
  · rintro ⟨p, hp, hcontains, hf⟩
    refine ⟨_, List.mem_filter.2 ⟨?_, hcontains⟩, hf⟩
    exact List.mem_map_of_mem (List.mem_eraseDups.2 (List.mem_map_of_mem hp))

end Classpath

namespace Index

open Classpath

/-- The definitions are those of the well-formed class files. -/
lemma mem_definitionsOf_iff {files : List ScannedFile} {d : Definition} :
    d ∈ definitionsOf files ↔
      ∃ f ∈ files, ∃ s, ClassFile.summary f.content = .ok s ∧
        d = ⟨ClassSymbol.ofSummary s, f.origin⟩ := by
  unfold definitionsOf
  rw [List.mem_filterMap]
  simp only [ScannedFile.definition?_eq_some_iff]

/-- The names that are defined are those of the summaries. -/
lemma mem_names_definitionsOf_iff {files : List ScannedFile} {name : String} :
    name ∈ (definitionsOf files).map Definition.name ↔
      ∃ f ∈ files, ∃ s, ClassFile.summary f.content = .ok s ∧ s.name = name := by
  rw [List.mem_map]
  constructor
  · rintro ⟨d, hd, rfl⟩
    obtain ⟨f, hf, s, hs, rfl⟩ := mem_definitionsOf_iff.1 hd
    exact ⟨f, hf, s, hs, rfl⟩
  · rintro ⟨f, hf, s, hs, rfl⟩
    exact ⟨_, mem_definitionsOf_iff.2 ⟨f, hf, s, hs, rfl⟩, rfl⟩

/-- Class files give an index of the names that they define, with classes that they define. -/
lemma exists_ofFiles_eq_ok (base : String) (rootCount : Nat) (files : List ScannedFile) :
    ∃ index, ofFiles .lastWriteWins base rootCount files = .ok index ∧
      index.classes.names = ((definitionsOf files).map Definition.name).eraseDups ∧
      ∀ c ∈ index.classes.entries,
        ∃ f ∈ files, ∃ s, ClassFile.summary f.content = .ok s ∧ c = ClassSymbol.ofSummary s := by
  obtain ⟨c, hc, haccounts⟩ := Collection.exists_addAll_eq_ok files
  refine ⟨ofCollection base rootCount files c, ofFiles_eq_ok_iff.2 ⟨c, hc, rfl⟩, ?_, ?_⟩
  · rw [ofCollection_names, haccounts.names]
  · intro symbol hsymbol
    obtain ⟨d, hd, rfl⟩ := List.mem_map.1 hsymbol
    have hsurviving := haccounts.entries.subset hd
    have hdefined : d ∈ definitionsOf files :=
      (Definition.surviving_append_superseded_perm _).subset (List.mem_append_left _ hsurviving)
    obtain ⟨f, hf, s, hs, rfl⟩ := mem_definitionsOf_iff.1 hdefined
    exact ⟨f, hf, s, hs, rfl⟩

/-- An index has as many classes as it has names. -/
lemma size_eq_ncard (index : Index) : index.size = {name | name ∈ index.classes.names}.ncard := by
  have hdistinct : index.classes.names.Nodup := index.classes.distinct
  have hset : {name | name ∈ index.classes.names} =
      (index.classes.names.toFinset : Set String) := by
    ext name
    simp
  rw [hset, Set.ncard_coe_finset, List.toFinset_card_of_nodup hdistinct]
  exact (List.length_map _).symm

/-- Every name of an index resolves to the class that it names. -/
lemma exists_resolve_eq_ok (index : Index) {name : String} (h : name ∈ index.classes.names) :
    ∃ c ∈ index.classes.entries, index.resolve name = .ok c ∧ c.name = name := by
  cases hfind : index.classes.find? name with
  | none => exact absurd h (Registry.find?_eq_none_iff.1 hfind)
  | some c =>
    refine ⟨c, List.mem_of_find?_eq_some hfind, ?_, Registry.name_of_find?_eq_some hfind⟩
    unfold resolve resolveClass
    rw [hfind]

/-! ### A class path -/

/-- The class file of `a/B`, which has no methods. -/
def sampleFile : Bytes :=
  [202, 254, 186, 190, 0, 0, 0, 52, 0, 3, 1, 0, 3, 97, 47, 66, 7, 0, 1, 0, 33, 0, 2, 0, 0, 0, 0,
    0, 0, 0, 0, 0, 0]

/-- The class file of `a/C`, which has no methods. -/
def archivedFile : Bytes :=
  sampleFile.set 15 67

/-- An archive with the class file of `a/C` as its one member `a/C.class`. -/
def sampleArchive : Bytes :=
  [80, 75, 3, 4, 20, 0, 0, 0, 0, 0, 0, 0, 33, 0, 114, 251, 14, 43, 33, 0, 0, 0, 33, 0, 0, 0, 9,
    0, 0, 0, 97, 47, 67, 46, 99, 108, 97, 115, 115, 202, 254, 186, 190, 0, 0, 0, 52, 0, 3, 1, 0,
    3, 97, 47, 67, 7, 0, 1, 0, 33, 0, 2, 0, 0, 0, 0, 0, 0, 0, 0, 0, 0, 80, 75, 1, 2, 20, 3, 20,
    0, 0, 0, 0, 0, 0, 0, 33, 0, 114, 251, 14, 43, 33, 0, 0, 0, 33, 0, 0, 0, 9, 0, 0, 0, 0, 0, 0,
    0, 0, 0, 0, 0, 128, 1, 0, 0, 0, 0, 97, 47, 67, 46, 99, 108, 97, 115, 115, 80, 75, 5, 6, 0, 0,
    0, 0, 1, 0, 1, 0, 55, 0, 0, 0, 72, 0, 0, 0, 0, 0]

/-- A directory that holds `a/B.class` and `x`. -/
def sampleDirectory : Node :=
  .dir [([97], .dir [([66, 46, 99, 108, 97, 115, 115], .file sampleFile)]), ([120], .file [])]

/-- The path `lib`. -/
def directoryPath : Path :=
  ⟨[108, 105, 98]⟩

/-- The path `c.jar`. -/
def archivePath : Path :=
  ⟨[99, 46, 106, 97, 114]⟩

/-- A tree with a directory and an archive at these paths. -/
def sampleTree : FileTree where
  root := .dir [(directoryPath.bytes, sampleDirectory), (archivePath.bytes, .file sampleArchive)]
  workingDirectory := []

/-- The sample tree is well formed. -/
lemma wellFormed_sampleTree : sampleTree.WellFormed where
  root := ⟨_, rfl⟩
  names := by
    refine Node.wellFormed_dir (by decide) (by decide) ?_
    rintro e he
    rcases List.mem_pair.1 he with rfl | rfl
    · refine Node.wellFormed_dir (by decide) (by decide) ?_
      rintro e he
      rcases List.mem_pair.1 he with rfl | rfl
      · refine Node.wellFormed_dir (by decide) (by decide) ?_
        rintro e he
        obtain rfl := List.mem_singleton.1 he
        exact Node.wellFormed_file _
      · exact Node.wellFormed_file _
    · exact Node.wellFormed_file _

/-- The directory stores `a/B` under its name. -/
lemma classRoot_sampleDirectory [ArchiveReader] : ClassRoot sampleTree directoryPath := by
  have hposition : sampleTree.positionOf directoryPath = .ok [directoryPath.bytes] := by
    decide +kernel
  have hfind : sampleTree.find directoryPath = .ok sampleDirectory :=
    FileTree.find_eq_ok_iff.2 ⟨by decide, _, hposition, rfl⟩
  have hfile {names : List Name} {content : Bytes}
      (h : sampleDirectory.at? names = some (.file content)) :
      names = [[97], [66, 46, 99, 108, 97, 115, 115]] ∧ content = sampleFile ∨ names = [[120]] := by
    rcases Node.eq_nil_or_exists_mem_of_at?_dir h with ⟨-, hself⟩ | ⟨e, he, rest, rfl, hrest⟩
    · simp at hself
    rcases List.mem_pair.1 he with rfl | rfl
    · rcases Node.eq_nil_or_exists_mem_of_at?_dir hrest with
        ⟨-, hself⟩ | ⟨e, hentry, below, rfl, hbelow⟩
      · simp at hself
      · obtain rfl := List.mem_singleton.1 hentry
        obtain ⟨rfl, hcontent⟩ := Node.at?_file_eq_some_iff.1 hbelow
        exact .inl ⟨rfl, Node.file.inj hcontent⟩
    · obtain ⟨rfl, -⟩ := Node.at?_file_eq_some_iff.1 hrest
      exact .inr rfl
  have hother : isClassEntry [[120]] = false := by decide +kernel
  refine ⟨.inl ⟨_, hfind, ?_, ?_⟩, ?_⟩
  · refine Node.linkFree_dir fun e he => ?_
    rcases List.mem_pair.1 he with rfl | rfl
    · refine Node.linkFree_dir fun e he => ?_
      obtain rfl := List.mem_singleton.1 he
      exact Node.linkFree_file _
    · exact Node.linkFree_file _
  · intro names content h hentry
    rcases hfile h with ⟨rfl, rfl⟩ | rfl
    · have hlong : ((sampleTree.canonical directoryPath).join (.ofNames [[97],
          [66, 46, 99, 108, 97, 115, 115]])).isTooLong = false := by decide +kernel
      have hway : sampleTree.positionOf ((sampleTree.canonical directoryPath).join (.ofNames
          [[97], [66, 46, 99, 108, 97, 115, 115]])) =
            .ok [directoryPath.bytes, [97], [66, 46, 99, 108, 97, 115, 115]] := by decide +kernel
      exact FileTree.readFile_eq_ok_iff.2 (FileTree.find_eq_ok_iff.2 ⟨hlong, _, hway, rfl⟩)
    · simp [hother] at hentry
  · intro names content hholds hentry
    rcases hfile ((holds_iff_of_dir hfind).1 hholds) with ⟨rfl, rfl⟩ | rfl
    · refine ⟨"a/B", ⟨"a.B", []⟩, ⟨by decide +kernel, by decide +kernel⟩, by decide +kernel, ?_,
        by decide +kernel, by decide +kernel⟩
      rintro ⟨hextension, -⟩
      exact absurd hextension (by decide +kernel)
    · simp [hother] at hentry

/-- To the standard reader the archive has one member, a file. -/
lemma exists_open?_sampleArchive :
    ∃ (listing : Archive.Listing) (m : Archive.Member),
      ArchiveReader.open? sampleArchive = some listing ∧ listing.entries = [m] ∧
        m.isLink = false ∧ m.name = "a/C.class" ∧
          ArchiveReader.content? sampleArchive m = some archivedFile := by
  have hmembers : ((ArchiveReader.open? sampleArchive).any fun listing =>
      listing.entries.length == 1 && listing.entries.all fun m =>
        !m.isLink && m.name == "a/C.class" &&
          ArchiveReader.content? sampleArchive m == some archivedFile) = true := by decide +kernel
  obtain ⟨listing, hopen, hmembers⟩ := (Option.any_eq_true _ _).1 hmembers
  rw [Bool.and_eq_true, beq_iff_eq, List.length_eq_one_iff] at hmembers
  obtain ⟨⟨m, hentries⟩, hmember⟩ := hmembers
  simp only [hentries, List.all_cons, List.all_nil, Bool.and_true, Bool.and_eq_true,
    Bool.not_eq_true', beq_iff_eq] at hmember
  exact ⟨listing, m, hopen, hentries, hmember.1.1, hmember.1.2, hmember.2⟩

/-- To the standard reader the archive stores `a/C` under its name. -/
lemma classRoot_sampleArchive : ClassRoot sampleTree archivePath := by
  have hposition : sampleTree.positionOf archivePath = .ok [archivePath.bytes] := by
    decide +kernel
  have hread : sampleTree.readFile archivePath = .ok sampleArchive :=
    FileTree.readFile_eq_ok_iff.2 (FileTree.find_eq_ok_iff.2 ⟨by decide, _, hposition, rfl⟩)
  obtain ⟨listing, m, hopen, hentries, hlink, hname, hcontent⟩ := exists_open?_sampleArchive
  refine ⟨.inr ⟨by decide +kernel, _, listing, hread, hopen, fun e he => ?_⟩, ?_⟩
  · rw [hentries] at he
    obtain rfl := List.mem_singleton.1 he
    exact ⟨hlink, .inr ⟨_, hcontent⟩⟩
  · intro names content hholds hentry
    obtain ⟨e, he, -, rfl, hread'⟩ := (holds_iff_of_archive hread hopen).1 hholds
    rw [hentries] at he
    obtain rfl := List.mem_singleton.1 he
    obtain rfl := Option.some.inj (hcontent.symm.trans hread')
    refine ⟨"a/C", ⟨"a.C", []⟩, ⟨by decide +kernel, by decide +kernel⟩, ?_, ?_, by decide +kernel,
      by decide +kernel⟩
    · rw [hname]
      rfl
    · intro _ rest h
      have hlist := congrArg (fun s => s.toList.head?) h
      simp at hlist

/-- In roots that store well-formed classes under their names, the index of a namespace has
exactly the stored classes that the namespace selects. -/
theorem build_eq_selected [ArchiveReader] {tree : FileTree} {paths : List Path} {b base : String}
    (htree : tree.WellFormed) (hb : Namespace.path b = .ok base)
    (hroots : ∀ p ∈ paths, ClassRoot tree p) :
    ∃ index, build tree .lastWriteWins paths b = .ok index ∧
      (∀ name, name ∈ index.classes.names ↔
        (∃ p ∈ paths, Stores tree p name) ∧ Namespace.Selects b name) ∧
      index.size =
        {name | (∃ p ∈ paths, Stores tree p name) ∧ Namespace.Selects b name}.ncard ∧
      ∀ name ∈ index.classes.names, ∃ c, index.resolve name = .ok c ∧ c.name = name ∧
        ∃ p ∈ paths, StoresClass tree p c := by
  have hlocate : Root.locate tree paths b =
      .ok ((Root.candidates tree paths).filter (Root.contains tree base)) := by
    unfold Root.locate
    rw [hb]
    rfl
  obtain ⟨index, hindex, hnames, hclasses⟩ := exists_ofFiles_eq_ok b
    ((Root.candidates tree paths).filter (Root.contains tree base)).length
    (Scan.roots tree ((Root.candidates tree paths).filter (Root.contains tree base)) base)
  -- What the index holds is what was scanned, and what was scanned is what the roots store.
  have hmem (name : String) : name ∈ index.classes.names ↔
      (∃ p ∈ paths, Stores tree p name) ∧ Namespace.Selects b name := by
    rw [hnames, List.mem_eraseDups, mem_names_definitionsOf_iff]
    constructor
    · rintro ⟨f, hf, hs⟩
      obtain ⟨p, hp, hcontains, hf⟩ := mem_roots_iff.1 hf
      obtain ⟨hstores, hselects⟩ :=
        (exists_summary_iff htree hb (hroots p hp) name).1 ⟨hcontains, f, hf, hs⟩
      exact ⟨⟨p, hp, hstores⟩, hselects⟩
    · rintro ⟨⟨p, hp, hstores⟩, hselects⟩
      obtain ⟨hcontains, f, hf, hs⟩ :=
        (exists_summary_iff htree hb (hroots p hp) name).2 ⟨hstores, hselects⟩
      exact ⟨f, mem_roots_iff.2 ⟨p, hp, hcontains, hf⟩, hs⟩
  refine ⟨index, ?_, hmem, ?_, ?_⟩
  · unfold build
    rw [hlocate, hb]
    exact hindex
  · rw [size_eq_ncard]
    exact congrArg Set.ncard (Set.ext hmem)
  · intro name hname
    obtain ⟨c, hc, hresolve, hcname⟩ := exists_resolve_eq_ok index hname
    obtain ⟨f, hf, s, hs, rfl⟩ := hclasses c hc
    obtain ⟨p, hp, hcontains, hf⟩ := mem_roots_iff.1 hf
    have hstores := (storesClass_of_mem_root htree hb (hroots p hp) hcontains hf hs).1
    exact ⟨_, hresolve, hcname, p, hp, hstores⟩

/-- The classes of the directory and of the archive in the namespace `a`. -/
theorem build_eq_selected_sampleTree :
    ∃ index, build sampleTree .lastWriteWins [directoryPath, archivePath] "a" =
        .ok index ∧
      (∀ name, name ∈ index.classes.names ↔
        (∃ p ∈ [directoryPath, archivePath], Stores sampleTree p name) ∧
          Namespace.Selects "a" name) ∧
      index.size = {name | (∃ p ∈ [directoryPath, archivePath],
        Stores sampleTree p name) ∧ Namespace.Selects "a" name}.ncard ∧
      ∀ name ∈ index.classes.names, ∃ c, index.resolve name = .ok c ∧ c.name = name ∧
        ∃ p ∈ [directoryPath, archivePath], StoresClass sampleTree p c :=
  build_eq_selected wellFormed_sampleTree
    (show Namespace.path "a" = .ok "a" by decide +kernel) fun p hp => by
    rcases List.mem_pair.1 hp with rfl | rfl
    · exact classRoot_sampleDirectory
    · exact classRoot_sampleArchive

end Index

end ClasspathIndex
