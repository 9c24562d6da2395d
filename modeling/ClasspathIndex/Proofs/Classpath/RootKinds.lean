import ClasspathIndex.Proofs.Classpath.DirectoryWalk

/-!
# A directory and an archive with the same files

A directory is walked, and in an archive the names of all members are looked at.  If both hold the
same files under the same relative paths, the scans find the same: the class files to which names
lead that start with those of the namespace and go on (`Classpath.mem_below_iff_holds`,
`Classpath.mem_members_iff_holds`).  Only what an archive holds under `META-INF/` is left out
(`Classpath.SameFiles.scansAlike`).
-/

namespace ClasspathIndex

open Text

/-! ### Relative paths -/

/-- What the origins of the files in a root start with. -/
def Root.label (r : Root) : Bytes :=
  match r.kind with
  | .archive => Utf8.encode (r.path.display ++ "!/")
  | _ => (r.path.join ⟨[]⟩).bytes

namespace Scan

/-- The path of a file relative to its root, and its content. -/
def relative (r : Root) (f : ScannedFile) : Bytes × Bytes :=
  (f.origin.bytes.drop r.label.length, f.content)

/-- Whether a relative path starts with `META-INF/`. -/
def underManifest (path : Bytes) : Bool :=
  (Utf8.encode "META-INF/").isPrefixOf path

/-- What follows the label of a root is the relative path. -/
lemma relative_of_label {r : Root} {f : ScannedFile} {path : Bytes}
    (h : f.origin.bytes = r.label ++ path) : relative r f = (path, f.content) := by
  unfold relative
  rw [h, List.drop_left]

/-- Files of distinct origins have distinct relative paths. -/
lemma nodup_relative {r : Root} {files : List ScannedFile}
    (h : (files.map ScannedFile.origin).Nodup)
    (hlabel : ∀ f ∈ files, r.label <+: f.origin.bytes) : (files.map (relative r)).Nodup := by
  refine List.pairwise_map.2 ((List.pairwise_map.1 h).imp_of_mem ?_)
  intro f g hf hg hne heq
  obtain ⟨front, hfront⟩ := hlabel f hf
  obtain ⟨back, hback⟩ := hlabel g hg
  rw [relative_of_label hfront.symm, relative_of_label hback.symm] at heq
  have hpath : front = back := congrArg Prod.fst heq
  exact hne (congrArg Path.mk (by rw [← hfront, ← hback, hpath]))

/-- Whether files are those found in a root, told by their relative paths and contents. -/
def FoundAt (r : Root) (files : List ScannedFile) (found : String → Bytes → Prop) : Prop :=
  ∀ f, f ∈ files ↔ ∃ text content, found text content ∧
    f.origin.bytes = r.label ++ Utf8.encode text ∧ f.content = content

section FoundAt

variable {r : Root} {files : List ScannedFile} {found : String → Bytes → Prop}

/-- The origins of found files start with the label. -/
lemma FoundAt.label (h : FoundAt r files found) : ∀ f ∈ files, r.label <+: f.origin.bytes := by
  intro f hf
  obtain ⟨text, content, -, horigin, -⟩ := (h f).1 hf
  exact ⟨_, horigin.symm⟩

/-- The relative paths and contents of found files are those that were told. -/
lemma FoundAt.mem_map_relative_iff (h : FoundAt r files found) {path content : Bytes} :
    (path, content) ∈ files.map (relative r) ↔
      ∃ text, path = Utf8.encode text ∧ found text content := by
  rw [List.mem_map]
  constructor
  · rintro ⟨f, hf, heq⟩
    obtain ⟨text, own, hfound, horigin, rfl⟩ := (h f).1 hf
    rw [relative_of_label horigin] at heq
    obtain ⟨rfl, rfl⟩ := Prod.mk.inj heq
    exact ⟨text, rfl, hfound⟩
  · rintro ⟨text, rfl, hfound⟩
    refine ⟨⟨⟨r.label ++ Utf8.encode text⟩, content⟩, ?_, relative_of_label rfl⟩
    exact (h _).2 ⟨text, content, hfound, rfl, rfl⟩

end FoundAt

end Scan

namespace Classpath

variable {tree : FileTree} {d z : Path} {b base : String} {names : List Name} {content : Bytes}
  {f : ScannedFile}

/-! ### Class files of a namespace -/

/-- Whether names lead to a class file below the directory of a namespace. -/
def UnderNamespace (base : String) (names : List Name) : Prop :=
  isClassEntry names = true ∧ ∃ rest, rest ≠ [] ∧ names = Namespace.directory base ++ rest

/-- Whether names lead through the directory `META-INF`. -/
def UnderManifest (names : List Name) : Prop :=
  ∃ rest, rest ≠ [] ∧ names = namesOf "META-INF" ++ rest

/-- A member is under `META-INF/` if the first name on its way says so and another one follows. -/
lemma startsWith_manifest_iff {text : String} :
    Root.startsWith "META-INF/" text = true ↔ UnderManifest (namesOf text) :=
  startsWith_slash_iff_namesOf "META-INF" text

/-- The bytes of a relative path tell whether it is under `META-INF/`. -/
lemma underManifest_encode_iff {text : String} :
    Scan.underManifest (Utf8.encode text) = true ↔ UnderManifest (namesOf text) := by
  have hprefix : Utf8.encode "META-INF/" = Utf8.encode "META-INF" ++ [Path.slash] := by
    decide +kernel
  have hcut : Scan.underManifest (Utf8.encode text) = true ↔
      ∃ rest, Utf8.encode text = Utf8.encode "META-INF" ++ Path.slash :: rest := by
    unfold Scan.underManifest
    rw [List.isPrefixOf_iff_prefix, hprefix]
    constructor
    · rintro ⟨rest, h⟩
      exact ⟨rest, by rw [← h]; simp⟩
    · rintro ⟨rest, h⟩
      exact ⟨rest, by rw [h]; simp⟩
  rw [hcut, exists_append_cons_iff]
  rfl

/-- Nothing else has the dot as its lower case. -/
lemma eq_dot_of_toLower {c : Char} (h : c.toLower = '.') : c = '.' := by
  unfold Char.toLower at h
  split at h
  · rename_i hupper
    have hval : c.val + 32 = 46 := congrArg Char.val h
    obtain ⟨hge, hle⟩ : 65 ≤ c.val ∧ c.val ≤ 90 := hupper
    grind
  · exact h

/-- The name of a class file holds a dot. -/
lemma dot_mem_of_hasClassSuffix {cs : List Char} (h : Scan.hasClassSuffix cs = true) :
    '.' ∈ cs := by
  obtain ⟨stem, ending, -, rfl, hending⟩ := Scan.hasClassSuffix_iff.1 h
  have hdot : '.' ∈ ending.map Char.toLower := by
    rw [hending]
    decide
  obtain ⟨c, hc, hlower⟩ := List.mem_map.1 hdot
  exact List.mem_append_right _ (eq_dot_of_toLower hlower ▸ hc)

/-- The names of a namespace hold no dots, so its directory is not named like a class file. -/
lemma isClassEntry_directory (hb : Namespace.path b = .ok base) :
    isClassEntry (Namespace.directory base) = false := by
  unfold isClassEntry
  cases hlast : (Namespace.directory base).getLast? with
  | none => rfl
  | some name =>
    obtain ⟨segment, rfl, -, -, hdot⟩ :=
      Namespace.exists_segment_of_mem_directory hb (List.mem_of_getLast? hlast)
    rw [Option.bind_some, Utf8.decode?_encode, Bool.eq_false_iff]
    intro hclass
    have hsuffix := (Bool.and_eq_true_iff.1 hclass).1
    rw [String.toList_ofList] at hsuffix
    exact hdot (dot_mem_of_hasClassSuffix hsuffix)

/-! ### What is found -/

/-- A scan of a directory finds nothing where the namespace has no directory. -/
lemma isDir_of_mem_below (hb : Namespace.path b = .ok base)
    (hf : f ∈ Scan.below tree (d.join (.ofNames (Namespace.directory base)))) :
    tree.isDir (d.join (.ofNames (Namespace.directory base))) = true := by
  cases hstart : tree.find (d.join (.ofNames (Namespace.directory base))) with
  | error e =>
    unfold Scan.below at hf
    rw [hstart] at hf
    exact absurd hf List.not_mem_nil
  | ok node =>
    -- A file in the place of the directory is a leaf, but its name is not that of a class file.
    by_contra hdir
    have hnode : ∀ below, node ≠ .dir below := by
      rintro below rfl
      exact hdir (FileTree.isDir_eq_true_iff.2 ⟨below, hstart⟩)
    have hne : Namespace.directory base ≠ [] := by
      intro hempty
      rw [hempty] at hstart
      obtain ⟨below, hbelow⟩ := FileTree.exists_eq_dir_of_find_join_nil hstart
      exact hnode below hbelow
    have hclass := isClassFilePath_join_ofNames d hne (Namespace.segment_directory hb)
    rw [isClassEntry_directory hb] at hclass
    have hleaf : Scan.ofLeaf tree (d.join (.ofNames (Namespace.directory base)), node) = none := by
      simp [Scan.ofLeaf, hclass]
    rw [Scan.below_of_find_of_not_dir hstart hnode, hleaf] at hf
    exact absurd hf List.not_mem_nil

/-- The origin of a member is its name put behind the label of the archive. -/
lemma bytes_memberOrigin (z : Path) (text : String) :
    (Scan.memberOrigin z text).bytes = (⟨z, .archive⟩ : Root).label ++ Utf8.encode text :=
  Utf8.encode_append _ _

/-- Found files are told apart by the bytes of their origins and by their contents. -/
lemma scannedFile_eq_iff {origin : Path} :
    f = ⟨origin, content⟩ ↔ f.origin.bytes = origin.bytes ∧ f.content = content := by
  obtain ⟨⟨bytes⟩, own⟩ := f
  obtain ⟨other⟩ := origin
  simp

variable [ArchiveReader]

/-- Below a directory, a scan finds the class files of the namespace that the directory holds. -/
lemma mem_below_iff_holds (htree : tree.WellFormed) (hb : Namespace.path b = .ok base)
    {entries : List (Name × Node)} (hd : tree.find d = .ok (.dir entries))
    (hlinks : (Node.dir entries).LinkFree)
    (hread : ∀ names content, Holds tree d names content →
      tree.readFile (d.join (.ofNames names)) = .ok content) :
    f ∈ Scan.below tree (d.join (.ofString base)) ↔
      ∃ names content, Holds tree d names content ∧ UnderNamespace base names ∧
        f = ⟨d.join (.ofNames names), content⟩ := by
  have hbase := Namespace.segment_directory hb
  rw [← ofNames_directory]
  constructor
  · intro hf
    obtain ⟨rest, content, hne, hat, hentry, -, rfl⟩ :=
      (mem_below_join_iff htree hd hlinks hbase).1 ⟨isDir_of_mem_below hb hf, hf⟩
    exact ⟨_, content, (holds_iff_of_dir hd).2 hat, ⟨hentry, rest, hne, rfl⟩, rfl⟩
  · rintro ⟨names, content, hholds, ⟨hentry, rest, hne, rfl⟩, rfl⟩
    have hshort := FileTree.isTooLong_of_readFile (hread _ _ hholds)
    exact ((mem_below_join_iff htree hd hlinks hbase).2
      ⟨rest, content, hne, (holds_iff_of_dir hd).1 hholds, hentry, hshort, rfl⟩).2

/-- In an archive, a scan finds the class files of the namespace that the archive holds, except
under `META-INF/`. -/
lemma mem_members_iff_holds (hb : Namespace.path b = .ok base) {file : Bytes}
    {members : Archive.Listing} (hz : tree.readFile z = .ok file)
    (hopen : ArchiveReader.open? file = some members)
    (hlink : ∀ m ∈ members.entries, m.isDirectory = false → m.isLink = false) :
    f ∈ Scan.members tree z base ↔
      ∃ text content, Holds tree z (namesOf text) content ∧ UnderNamespace base (namesOf text) ∧
        ¬ UnderManifest (namesOf text) ∧ f = ⟨Scan.memberOrigin z text, content⟩ := by
  rw [mem_members_iff hz hopen]
  constructor
  · rintro ⟨m, hm, hwants, content, hcontent, rfl⟩
    have hfile : m.isDirectory = false := isDirectory_eq_false (Bool.and_eq_true_iff.1 hwants).2
    obtain ⟨hmanifest, hentry⟩ := (wantsMember_iff hb (hlink m hm hfile)).1 hwants
    refine ⟨m.name, content, (holds_iff_of_archive hz hopen).2 ⟨m, hm, hfile, rfl, hcontent⟩,
      hentry, ?_, rfl⟩
    rw [← startsWith_manifest_iff, hmanifest]
    decide
  · rintro ⟨text, content, hholds, hentry, hmanifest, rfl⟩
    obtain ⟨m, hm, hfile, hname, hcontent⟩ := (holds_iff_of_archive hz hopen).1 hholds
    obtain rfl := namesOf_injective hname
    rw [← startsWith_manifest_iff, Bool.not_eq_true] at hmanifest
    exact ⟨m, hm, (wantsMember_iff hb (hlink m hm hfile)).2 ⟨hmanifest, hentry⟩, content, hcontent,
      rfl⟩

/-! ### The same files -/

/-- Whether a directory without links and an archive hold the same files, all of which can be
read; the archive may have members that are directories, too. -/
structure SameFiles (tree : FileTree) (d z : Path) : Prop where
  directory : ∃ entries, tree.find d = .ok (.dir entries) ∧ (Node.dir entries).LinkFree
  readable : ∀ names content, Holds tree d names content →
    tree.readFile (d.join (.ofNames names)) = .ok content
  extension : Root.hasArchiveExtension z = true
  archive : ∃ file members, tree.readFile z = .ok file ∧ ArchiveReader.open? file = some members ∧
    ∀ m ∈ members.entries, m.isDirectory = false →
      m.isLink = false ∧ ∃ content, ArchiveReader.content? file m = some content
  same : ∀ names content, Holds tree d names content ↔ Holds tree z names content

/-- The names on the way to a file are texts, since they are the name of a member. -/
lemma SameFiles.exists_namesOf (h : SameFiles tree d z) (hholds : Holds tree d names content) :
    ∃ text, names = namesOf text := by
  obtain ⟨file, members, hz, hopen, -⟩ := h.archive
  obtain ⟨m, -, -, hname, -⟩ := (holds_iff_of_archive hz hopen).1 ((h.same _ _).1 hholds)
  exact ⟨m.name, hname.symm⟩

/-- In a directory, the origin of a file is its relative path put behind the label. -/
lemma bytes_join_namesOf (htree : tree.WellFormed) {entries : List (Name × Node)}
    (hd : tree.find d = .ok (.dir entries)) {text : String}
    (hholds : Holds tree d (namesOf text) content) :
    (d.join (.ofNames (namesOf text))).bytes =
      (⟨d, .directory⟩ : Root).label ++ Utf8.encode text := by
  have hrelative : (Path.ofNames (namesOf text)).isAbsolute = false :=
    Path.isAbsolute_ofNames ((htree.of_find hd).segment ((holds_iff_of_dir hd).1 hholds))
  rw [Path.bytes_join_eq_append (FileTree.bytes_ne_nil_of_find hd) hrelative, namesOf,
    Path.ofNames_pieces]
  rfl

/-- The class files that are found in a directory. -/
lemma SameFiles.foundAt_directory (htree : tree.WellFormed) (hb : Namespace.path b = .ok base)
    (h : SameFiles tree d z) :
    Scan.FoundAt ⟨d, .directory⟩ (Scan.root tree base ⟨d, .directory⟩) fun text content =>
      Holds tree z (namesOf text) content ∧ UnderNamespace base (namesOf text) := by
  obtain ⟨entries, hd, hlinks⟩ := h.directory
  intro f
  change f ∈ Scan.below tree (d.join (.ofString base)) ↔ _
  rw [mem_below_iff_holds htree hb hd hlinks h.readable]
  simp only [scannedFile_eq_iff]
  constructor
  · rintro ⟨names, content, hholds, hentry, horigin, hcontent⟩
    obtain ⟨text, rfl⟩ := h.exists_namesOf hholds
    rw [bytes_join_namesOf htree hd hholds] at horigin
    exact ⟨text, content, ⟨(h.same _ _).1 hholds, hentry⟩, horigin, hcontent⟩
  · rintro ⟨text, content, ⟨hholds, hentry⟩, horigin, hcontent⟩
    have hholds' := (h.same _ _).2 hholds
    rw [← bytes_join_namesOf htree hd hholds'] at horigin
    exact ⟨namesOf text, content, hholds', hentry, horigin, hcontent⟩

/-- The class files that are found in an archive. -/
lemma SameFiles.foundAt_archive (hb : Namespace.path b = .ok base) (h : SameFiles tree d z) :
    Scan.FoundAt ⟨z, .archive⟩ (Scan.root tree base ⟨z, .archive⟩) fun text content =>
      Holds tree z (namesOf text) content ∧ UnderNamespace base (namesOf text) ∧
        ¬ UnderManifest (namesOf text) := by
  obtain ⟨file, members, hz, hopen, hmembers⟩ := h.archive
  intro f
  change f ∈ Scan.members tree z base ↔ _
  rw [mem_members_iff_holds hb hz hopen fun m hm hfile => (hmembers m hm hfile).1]
  simp only [scannedFile_eq_iff, bytes_memberOrigin, and_assoc]

/-- No member is found twice. -/
lemma nodup_origins_members (tree : FileTree) (z : Path) (base : String) :
    ((Scan.members tree z base).map ScannedFile.origin).Nodup := by
  unfold Scan.members
  cases harchive : Root.openArchive? tree z with
  | none => exact List.nodup_nil
  | some opened =>
    obtain ⟨file, members⟩ := opened
    have hwanted := (List.pairwise_map.1 members.distinct).filter (Scan.wantsMember base)
    refine List.pairwise_map.2 (hwanted.filterMap _ ?_)
    intro m n hne f hf g hg horigin
    obtain ⟨left, -, rfl⟩ := Option.map_eq_some_iff.1 hf
    obtain ⟨right, -, rfl⟩ := Option.map_eq_some_iff.1 hg
    have hbytes := congrArg Path.bytes horigin
    dsimp only at hbytes
    rw [bytes_memberOrigin, bytes_memberOrigin, List.append_cancel_left_eq] at hbytes
    exact hne (Utf8.encode_injective hbytes)

/-- No file is found twice in a root. -/
lemma nodup_origins_root (htree : tree.WellFormed) (base : String) (r : Root) :
    ((Scan.root tree base r).map ScannedFile.origin).Nodup := by
  unfold Scan.root
  cases r.kind with
  | directory => exact Scan.nodup_origins_below htree _
  | archive => exact nodup_origins_members tree r.path base
  | unsupported => exact List.nodup_nil

/-- Whether two roots yield the same contents under the same relative paths, in some order, apart
from what the first one holds under `META-INF/`. -/
structure ScansAlike (tree : FileTree) (base : String) (r s : Root) : Prop where
  label : ∀ f ∈ Scan.root tree base r, r.label <+: f.origin.bytes
  labelOther : ∀ f ∈ Scan.root tree base s, s.label <+: f.origin.bytes
  perm : (((Scan.root tree base r).map (Scan.relative r)).filter fun e =>
    !Scan.underManifest e.1).Perm ((Scan.root tree base s).map (Scan.relative s))

/-- A directory and an archive with the same files yield the same. -/
lemma SameFiles.scansAlike (htree : tree.WellFormed) (hb : Namespace.path b = .ok base)
    (h : SameFiles tree d z) :
    ScansAlike tree base ⟨d, .directory⟩ ⟨z, .archive⟩ := by
  have hdirectory := h.foundAt_directory htree hb
  have harchive := h.foundAt_archive hb
  refine ⟨hdirectory.label, harchive.label, ?_⟩
  -- Both sides list distinct paths, so it is enough that they list the same ones.
  rw [List.perm_ext_iff_of_nodup
    ((Scan.nodup_relative (nodup_origins_root htree base _) hdirectory.label).filter _)
    (Scan.nodup_relative (nodup_origins_root htree base _) harchive.label)]
  rintro ⟨path, content⟩
  rw [List.mem_filter, hdirectory.mem_map_relative_iff, harchive.mem_map_relative_iff,
    Bool.not_eq_true']
  constructor
  · rintro ⟨⟨text, rfl, hholds, hentry⟩, hmanifest⟩
    refine ⟨text, rfl, hholds, hentry, ?_⟩
    rw [← underManifest_encode_iff, hmanifest]
    decide
  · rintro ⟨text, rfl, hholds, hentry, hmanifest⟩
    refine ⟨⟨text, rfl, hholds, hentry⟩, ?_⟩
    rw [← underManifest_encode_iff, Bool.not_eq_true] at hmanifest
    exact hmanifest

/-! ### Roots that are not located -/

/-- A directory without that of the namespace yields nothing. -/
lemma root_eq_nil_of_directory (hb : Namespace.path b = .ok base)
    (hnot : Root.contains tree base ⟨d, .directory⟩ = false) :
    Scan.root tree base ⟨d, .directory⟩ = [] := by
  change tree.isDir (d.join (.ofString base)) = false at hnot
  change Scan.below tree (d.join (.ofString base)) = []
  rw [← ofNames_directory] at hnot ⊢
  rw [List.eq_nil_iff_forall_not_mem]
  intro f hf
  rw [isDir_of_mem_below hb hf] at hnot
  exact absurd hnot (by decide)

/-- An archive without members below the namespace yields nothing. -/
lemma root_eq_nil_of_archive (hnot : Root.contains tree base ⟨z, .archive⟩ = false) :
    Scan.root tree base ⟨z, .archive⟩ = [] := by
  change Scan.members tree z base = []
  unfold Root.contains at hnot
  unfold Scan.members
  dsimp only at hnot
  cases harchive : Root.openArchive? tree z with
  | none => rfl
  | some opened =>
    rw [harchive] at hnot
    obtain ⟨-, hstarts⟩ := Bool.or_eq_false_iff.1 hnot
    have hnone : opened.2.entries.filter (Scan.wantsMember base) = [] := by
      rw [List.filter_eq_nil_iff]
      intro m hm hwants
      have hstart := List.any_eq_false.1 hstarts m hm
      simp [Scan.wantsMember, hstart] at hwants
    change (opened.2.entries.filter (Scan.wantsMember base)).filterMap _ = []
    rw [hnone, List.filterMap_nil]

end Classpath

end ClasspathIndex
