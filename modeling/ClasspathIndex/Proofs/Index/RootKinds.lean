import ClasspathIndex.Archive.Directory
import ClasspathIndex.Proofs.Classpath.RootKinds
import ClasspathIndex.Proofs.Index.Comparison

/-!
# Indexes of a directory and of an archive

What a class file defines is told by its content.  So a directory and an archive that hold the
same files give the same index, if no class file of theirs lies under `META-INF/` and no class of
the namespace is defined twice (`Index.scansAlike_and_sameClasses`).
-/

namespace ClasspathIndex

open Text Classpath

/-- The class that a content defines. -/
def symbolOf? (content : Bytes) : Option ClassSymbol :=
  (ClassFile.summary content).toOption.map ClassSymbol.ofSummary

/-- The classes that files define are told by their contents. -/
lemma map_symbol_definitionsOf (files : List ScannedFile) :
    (definitionsOf files).map Definition.symbol =
      (files.map ScannedFile.content).filterMap symbolOf? := by
  unfold definitionsOf
  rw [List.map_filterMap, List.filterMap_map]
  refine List.filterMap_congr fun f _ => ?_
  change f.definition?.map Definition.symbol = symbolOf? f.content
  unfold symbolOf?
  cases hs : ClassFile.summary f.content with
  | error e =>
    rw [ScannedFile.definition?_of_error hs]
    rfl
  | ok s =>
    rw [ScannedFile.definition?_of_ok hs]
    rfl

namespace Classpath

variable [ArchiveReader] {tree : FileTree} {d z : Path} {b base : String}

/-- Whether no class file that a root holds lies under `META-INF/`. -/
def NoManifestClasses (tree : FileTree) (p : Path) : Prop :=
  ∀ names content, Holds tree p names content → isClassEntry names = true → ¬ UnderManifest names

/-- Whether no two class files that a root holds below a namespace define the same class. -/
def DefinesOnce (tree : FileTree) (base : String) (p : Path) : Prop :=
  ∀ names content s names' content' s',
    Holds tree p names content → UnderNamespace base names → ClassFile.summary content = .ok s →
    Holds tree p names' content' → UnderNamespace base names' →
      ClassFile.summary content' = .ok s' → s.name = s'.name → names = names'

/-- The contents that are found are the same, if no class file lies under `META-INF/`. -/
lemma SameFiles.contents_perm (htree : tree.WellFormed) (hb : Namespace.path b = .ok base)
    (h : SameFiles tree d z) (hmanifest : NoManifestClasses tree d) :
    ((Scan.root tree base ⟨d, .directory⟩).map ScannedFile.content).Perm
      ((Scan.root tree base ⟨z, .archive⟩).map ScannedFile.content) := by
  have hall : ((Scan.root tree base ⟨d, .directory⟩).map (Scan.relative ⟨d, .directory⟩)).filter
      (fun e => !Scan.underManifest e.1) =
        (Scan.root tree base ⟨d, .directory⟩).map (Scan.relative ⟨d, .directory⟩) := by
    rw [List.filter_eq_self]
    rintro ⟨path, content⟩ he
    obtain ⟨text, rfl, hholds, hentry⟩ :=
      (h.foundAt_directory htree hb).mem_map_relative_iff.1 he
    rw [Bool.not_eq_true', Bool.eq_false_iff, ne_eq, underManifest_encode_iff]
    exact hmanifest _ _ ((h.same _ _).2 hholds) hentry.1
  have hperm := (h.scansAlike htree hb).perm
  rw [hall] at hperm
  have hcontents := hperm.map Prod.snd
  rw [List.map_map, List.map_map] at hcontents
  exact hcontents

/-- The classes that are defined are the same, if no class file lies under `META-INF/`. -/
lemma SameFiles.symbols_perm (htree : tree.WellFormed) (hb : Namespace.path b = .ok base)
    (h : SameFiles tree d z) (hmanifest : NoManifestClasses tree d) :
    ((definitionsOf (Scan.root tree base ⟨d, .directory⟩)).map Definition.symbol).Perm
      ((definitionsOf (Scan.root tree base ⟨z, .archive⟩)).map Definition.symbol) := by
  rw [map_symbol_definitionsOf, map_symbol_definitionsOf]
  exact (h.contents_perm htree hb hmanifest).filterMap _

/-- The class files that are found in a directory define distinct classes. -/
lemma SameFiles.nodup_names (htree : tree.WellFormed) (hb : Namespace.path b = .ok base)
    (h : SameFiles tree d z) (honce : DefinesOnce tree base d) :
    ((definitionsOf (Scan.root tree base ⟨d, .directory⟩)).map Definition.name).Nodup := by
  have hdistinct := List.pairwise_map.1 (nodup_origins_root htree base ⟨d, .directory⟩)
  refine List.pairwise_map.2 (List.pairwise_filterMap.2 (hdistinct.imp_of_mem ?_))
  intro f g hf hg hne c hc e he hname
  obtain ⟨s, hs, rfl⟩ := ScannedFile.definition?_eq_some_iff.1 hc
  obtain ⟨s', hs', rfl⟩ := ScannedFile.definition?_eq_some_iff.1 he
  obtain ⟨text, _, ⟨hholds, hentry⟩, horigin, rfl⟩ := (h.foundAt_directory htree hb f).1 hf
  obtain ⟨text', _, ⟨hholds', hentry'⟩, horigin', rfl⟩ := (h.foundAt_directory htree hb g).1 hg
  have hsame := honce _ _ _ _ _ _ ((h.same _ _).2 hholds) hentry hs ((h.same _ _).2 hholds')
    hentry' hs' hname
  obtain rfl := namesOf_injective hsame
  exact hne (congrArg Path.mk (horigin.trans horigin'.symm))

end Classpath

namespace Index

variable {tree : FileTree} {p : Path} {b base : String}

/-- An index of one root is built from what the root yields, also if the root is not located. -/
lemma exists_build_singleton [ArchiveReader] (policy : DuplicatePolicy)
    (hb : Namespace.path b = .ok base) {r : Root} (hr : Root.classify tree (tree.canonical p) = r)
    (hnil : Root.contains tree base r = false → Scan.root tree base r = []) :
    ∃ rootCount, build tree policy [p] b =
      ofFiles policy b rootCount (Scan.root tree base r) := by
  have hcandidates : Root.candidates tree [p] = [r] := by
    rw [← hr]
    rfl
  rw [build_of_path hb, hcandidates]
  cases hcontains : Root.contains tree base r with
  | true =>
    rw [List.filter_cons_of_pos hcontains, List.filter_nil]
    refine ⟨_, congrArg _ ?_⟩
    exact List.append_nil _
  | false =>
    rw [List.filter_cons_of_neg (by simp [hcontains]), List.filter_nil, hnil hcontains]
    exact ⟨_, rfl⟩

/-- A directory and an archive that hold the same files yield the same class files, apart from
`META-INF/`: those below the namespace.  If no class file lies under `META-INF/` and no class is
defined twice, the indexes of the two hold the same classes. -/
theorem scansAlike_and_sameClasses [ArchiveReader] {tree : FileTree} {d z : Path} {b base : String}
    (htree : tree.WellFormed) (hb : Namespace.path b = .ok base) (h : SameFiles tree d z) :
    ScansAlike tree base ⟨d, .directory⟩ ⟨z, .archive⟩ ∧
      Scan.FoundAt ⟨z, .archive⟩ (Scan.root tree base ⟨z, .archive⟩) (fun text content =>
        Holds tree z (namesOf text) content ∧ UnderNamespace base (namesOf text) ∧
          ¬ UnderManifest (namesOf text)) ∧
      (NoManifestClasses tree d → DefinesOnce tree base d → ∀ policy p q,
        tree.canonical p = d → tree.canonical q = z →
          ∃ index other, build tree policy [p] b = .ok index ∧
            build tree policy [q] b = .ok other ∧ index.SameClasses other ∧
              index.report.entriesScanned = other.report.entriesScanned) := by
  refine ⟨h.scansAlike htree hb, h.foundAt_archive hb, ?_⟩
  intro hmanifest honce policy p q hp hq
  obtain ⟨entries, hd, -⟩ := h.directory
  obtain ⟨file, members, hz, -⟩ := h.archive
  have hdirectory : Root.classify tree (tree.canonical p) = ⟨d, .directory⟩ := by
    rw [hp, Root.classify, kindOf_eq_directory hd]
  have harchive : Root.classify tree (tree.canonical q) = ⟨z, .archive⟩ := by
    rw [hq, Root.classify, kindOf_eq_archive (FileTree.readFile_eq_ok_iff.1 hz) h.extension]
  obtain ⟨count, hbuild⟩ := exists_build_singleton policy hb hdirectory
    (root_eq_nil_of_directory hb)
  obtain ⟨count', hbuild'⟩ := exists_build_singleton policy hb harchive
    root_eq_nil_of_archive
  have hcontents := h.contents_perm htree hb hmanifest
  have hsymbols := h.symbols_perm htree hb hmanifest
  have hdistinct := h.nodup_names htree hb honce
  have hnames := hsymbols.map ClassSymbol.name
  rw [List.map_map, List.map_map] at hnames
  have hdistinct' := hnames.nodup_iff.1 hdistinct
  obtain ⟨index, hindex, hall⟩ := exists_ofFiles_eq_ok_of_nodup policy b count hdistinct
  obtain ⟨other, hother, hall'⟩ := exists_ofFiles_eq_ok_of_nodup policy b count' hdistinct'
  refine ⟨index, other, hbuild.trans hindex, hbuild'.trans hother, ?_, ?_⟩
  · refine sameClasses_of_perm hall.simpleNames hall'.simpleNames ?_
    rw [hall.classes, hall'.classes]
    exact hsymbols
  · rw [hall.scanned, hall'.scanned]
    have hlength := hcontents.length_eq
    rwa [List.length_map, List.length_map] at hlength

/-- A tree with a directory `lib` and the archive `c.jar`, each with the one file `a/C.class`. -/
def twinTree : FileTree where
  root := .dir [
    (directoryPath.bytes, .dir [([97], .dir [([67, 46, 99, 108, 97, 115, 115],
      .file archivedFile)])]),
    (archivePath.bytes, .file sampleArchive)]
  workingDirectory := []

/-- The tree with the directory and the archive is well formed. -/
lemma wellFormed_twinTree : twinTree.WellFormed where
  root := ⟨_, rfl⟩
  names := by
    refine Node.wellFormed_dir (by decide) (by decide) ?_
    rintro e he
    rcases List.mem_pair.1 he with rfl | rfl
    · refine Node.wellFormed_dir (by decide) (by decide) ?_
      rintro e he
      obtain rfl := List.mem_singleton.1 he
      refine Node.wellFormed_dir (by decide) (by decide) ?_
      rintro e he
      obtain rfl := List.mem_singleton.1 he
      exact Node.wellFormed_file _
    · exact Node.wellFormed_file _

/-- The canonical path of the directory. -/
def twinDirectory : Path :=
  .ofPosition [directoryPath.bytes]

/-- The canonical path of the archive. -/
def twinArchive : Path :=
  .ofPosition [archivePath.bytes]

/-- The directory holds the one class file. -/
lemma holds_twinDirectory_iff [ArchiveReader] {names : List Name} {content : Bytes} :
    Holds twinTree twinDirectory names content ↔
      names = namesOf "a/C.class" ∧ content = archivedFile := by
  have hway : namesOf "a/C.class" = [[97], [67, 46, 99, 108, 97, 115, 115]] := by decide +kernel
  have hposition : twinTree.positionOf twinDirectory = .ok [directoryPath.bytes] := by
    decide +kernel
  have hfind : twinTree.find twinDirectory =
      .ok (.dir [([97], .dir [([67, 46, 99, 108, 97, 115, 115], .file archivedFile)])]) :=
    FileTree.find_eq_ok_iff.2 ⟨by decide +kernel, _, hposition, rfl⟩
  rw [holds_iff_of_dir hfind, hway]
  constructor
  · intro h
    rcases Node.eq_nil_or_exists_mem_of_at?_dir h with ⟨-, hself⟩ | ⟨e, he, rest, rfl, hrest⟩
    · simp at hself
    obtain rfl := List.mem_singleton.1 he
    rcases Node.eq_nil_or_exists_mem_of_at?_dir hrest with ⟨-, hself⟩ | ⟨e, he, rest, rfl, hrest⟩
    · simp at hself
    obtain rfl := List.mem_singleton.1 he
    obtain ⟨rfl, hcontent⟩ := Node.at?_file_eq_some_iff.1 hrest
    exact ⟨rfl, Node.file.inj hcontent⟩
  · rintro ⟨rfl, rfl⟩
    rfl

/-- To the standard reader the archive holds the same. -/
lemma sameFiles_twinTree : SameFiles twinTree twinDirectory twinArchive := by
  obtain ⟨listing, m, hopen, hentries, hlink, hname, hcontent⟩ := exists_open?_sampleArchive
  have hread : twinTree.readFile twinArchive = .ok sampleArchive := by decide +kernel
  have hfile : m.isDirectory = false := by
    unfold Archive.Member.isDirectory
    rw [hname]
    decide
  refine ⟨?_, ?_, by decide +kernel, ⟨_, listing, hread, hopen, ?_⟩, ?_⟩
  · have hposition : twinTree.positionOf twinDirectory = .ok [directoryPath.bytes] := by
      decide +kernel
    refine ⟨_, FileTree.find_eq_ok_iff.2 ⟨by decide +kernel, _, hposition, rfl⟩, ?_⟩
    refine Node.linkFree_dir fun e he => ?_
    obtain rfl := List.mem_singleton.1 he
    refine Node.linkFree_dir fun e he => ?_
    obtain rfl := List.mem_singleton.1 he
    exact Node.linkFree_file _
  · intro names content hholds
    obtain ⟨rfl, rfl⟩ := holds_twinDirectory_iff.1 hholds
    decide +kernel
  · intro e he _
    rw [hentries] at he
    obtain rfl := List.mem_singleton.1 he
    exact ⟨hlink, _, hcontent⟩
  · intro names content
    rw [holds_twinDirectory_iff, holds_iff_of_archive hread hopen]
    constructor
    · rintro ⟨rfl, rfl⟩
      exact ⟨m, by simp [hentries], hfile, by rw [hname], hcontent⟩
    · rintro ⟨e, he, -, rfl, hother⟩
      rw [hentries] at he
      obtain rfl := List.mem_singleton.1 he
      exact ⟨by rw [hname], Option.some.inj (hother.symm.trans hcontent)⟩

/-- The directory and the archive are scanned alike and give the same classes. -/
theorem scansAlike_and_sameClasses_twinTree :
    ScansAlike twinTree "a" ⟨twinDirectory, .directory⟩ ⟨twinArchive, .archive⟩ ∧
      ∃ index other, build twinTree .fail [directoryPath] "a" = .ok index ∧
        build twinTree .fail [archivePath] "a" = .ok other ∧ index.classes.names = ["a.C"] ∧
          index.SameClasses other ∧
            index.report.entriesScanned = other.report.entriesScanned := by
  have hmanifest : NoManifestClasses twinTree twinDirectory := by
    intro names content hholds _
    obtain ⟨rfl, -⟩ := holds_twinDirectory_iff.1 hholds
    rw [← underManifest_encode_iff]
    decide +kernel
  have honce : DefinesOnce twinTree "a" twinDirectory := by
    intro names content s names' content' s' hholds _ _ hholds' _ _ _
    obtain ⟨rfl, -⟩ := holds_twinDirectory_iff.1 hholds
    obtain ⟨rfl, -⟩ := holds_twinDirectory_iff.1 hholds'
    rfl
  have hb : Namespace.path "a" = .ok "a" := by decide +kernel
  obtain ⟨hscans, -, hbuilds⟩ :=
    scansAlike_and_sameClasses wellFormed_twinTree hb sameFiles_twinTree
  obtain ⟨index, other, hindex, hother, hsame, hscanned⟩ := hbuilds hmanifest honce .fail
    directoryPath archivePath (by decide +kernel) (by decide +kernel)
  have hnames : (build twinTree .fail [directoryPath] "a").toOption.map
      (fun index => index.classes.names) = some ["a.C"] := by decide +kernel
  rw [hindex] at hnames
  exact ⟨hscans, index, other, hindex, hother, Option.some.inj hnames, hsame, hscanned⟩

end Index

end ClasspathIndex
