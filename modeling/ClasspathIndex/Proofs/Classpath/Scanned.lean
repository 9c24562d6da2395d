import ClasspathIndex.ClassFile.Summary
import ClasspathIndex.Proofs.Classpath.ClassNames
import ClasspathIndex.Proofs.Classpath.Walk

/-!
# What a scan finds in a root

A root holds regular files, each at the end of a sequence of names: in a directory the names
lead through the tree, in an archive they are the segments of the name of a member
(`Classpath.Holds`).  Whatever the kind of the root, a scan below a namespace finds the class
files it holds whose names start with those of the namespace and go on
(`Classpath.exists_mem_root_iff`).
-/

namespace ClasspathIndex

open Text

namespace Archive

/-- Whether the name of a member is that of a directory. -/
def Member.isDirectory (m : Member) : Bool :=
  m.name.toList.getLast?.any fun c => c == '/' || c == '\\'

end Archive

namespace Classpath

variable {tree : FileTree} {p c : Path} {entries : List (Name × Node)} {names rest : List Name}
  {content : Bytes}

/-! ### Roots and their files -/

/-- Whether a path leads to a directory without links below it, the class files of which can be
read. -/
def IsDirectory (tree : FileTree) (p : Path) : Prop :=
  ∃ entries, tree.find p = .ok (.dir entries) ∧ (Node.dir entries).LinkFree ∧
    ∀ names content, (Node.dir entries).at? names = some (.file content) →
      isClassEntry names = true →
        tree.readFile ((tree.canonical p).join (.ofNames names)) = .ok content

/-- Whether a path leads to a readable archive without links, all members of which are
directories or can be read. -/
def IsArchive [ArchiveReader] (tree : FileTree) (p : Path) : Prop :=
  Root.hasArchiveExtension (tree.canonical p) = true ∧
    ∃ file members, tree.readFile p = .ok file ∧ ArchiveReader.open? file = some members ∧
      ∀ m ∈ members.entries, m.isLink = false ∧
        (m.isDirectory = true ∨ ∃ content, ArchiveReader.content? file m = some content)

/-- Whether a root holds a regular file with the given content at the end of the given names. -/
def Holds [ArchiveReader] (tree : FileTree) (p : Path) (names : List Name) (content : Bytes) :
    Prop :=
  (∃ entries, tree.find p = .ok (.dir entries) ∧
    (Node.dir entries).at? names = some (.file content)) ∨
  ∃ file members m, tree.readFile p = .ok file ∧ ArchiveReader.open? file = some members ∧
    m ∈ members.entries ∧ m.isDirectory = false ∧ namesOf m.name = names ∧
      ArchiveReader.content? file m = some content

/-- A directory holds the files to which names lead. -/
lemma holds_iff_of_dir [ArchiveReader] (h : tree.find p = .ok (.dir entries)) :
    Holds tree p names content ↔ (Node.dir entries).at? names = some (.file content) := by
  unfold Holds
  simp only [FileTree.readFile_eq_ok_iff, h, Except.ok.injEq, Node.dir.injEq, exists_eq_left',
    reduceCtorEq, false_and, exists_false, or_false]

/-- An archive holds its readable members under the segments of their names. -/
lemma holds_iff_of_archive [ArchiveReader] {file : Bytes} {members : Archive.Listing}
    (h : tree.readFile p = .ok file) (hopen : ArchiveReader.open? file = some members) :
    Holds tree p names content ↔ ∃ m ∈ members.entries, m.isDirectory = false ∧
      namesOf m.name = names ∧ ArchiveReader.content? file m = some content := by
  have hfind := FileTree.readFile_eq_ok_iff.1 h
  constructor
  · rintro (⟨entries, hdir, -⟩ | ⟨file', members', m, hread, hopen', hm⟩)
    · simp [hfind] at hdir
    · obtain rfl := Except.ok.inj (h.symm.trans hread)
      obtain rfl := Option.some.inj (hopen.symm.trans hopen')
      exact ⟨m, hm⟩
  · rintro ⟨m, hm⟩
    exact .inr ⟨file, members, m, h, hopen, hm⟩

/-! ### Directories -/

/-- The names of a namespace make up its slashed form. -/
lemma ofNames_directory (base : String) :
    Path.ofNames (Namespace.directory base) = Path.ofString base := by
  unfold Namespace.directory
  split
  · rename_i hbase
    subst hbase
    rfl
  · exact Path.ofNames_pieces _

/-- The path of a namespace is a relative one. -/
lemma isAbsolute_ofString {b base : String} (hb : Namespace.path b = .ok base) :
    (Path.ofString base).isAbsolute = false := by
  rw [← ofNames_directory]
  exact Path.isAbsolute_ofNames fun name hname => (Namespace.segment_directory hb name hname).1

/-- The name of a file in a directory is the last one on the way to it. -/
lemma isClassFilePath_join_ofNames (c : Path) (hne : names ≠ [])
    (hnames : ∀ name ∈ names, Path.Segment name ∧ name ≠ Path.here ∧ name ≠ Path.above) :
    Scan.isClassFilePath (c.join (.ofNames names)) = isClassEntry names := by
  have hsegments : ∀ name ∈ names, Path.Segment name := fun name hname => (hnames name hname).1
  obtain ⟨cs, hpieces, -⟩ := Path.exists_pieces_join c (Path.isAbsolute_ofNames hsegments)
  have hlast : (c.join (.ofNames names)).fileName? = names.getLast? := by
    obtain ⟨front, last, rfl⟩ := List.eq_nil_or_concat' names |>.resolve_left hne
    obtain ⟨hname, hhere, habove⟩ := hnames last (by simp)
    unfold Path.fileName?
    rw [hpieces, Path.pieces_ofNames hne fun name hname => (hsegments name hname).2,
      ← List.append_assoc, List.filter_append, List.filter_singleton, List.getLast?_concat]
    simp [hname.1, hhere, habove]
  unfold isClassEntry
  rw [← hlast]
  rfl

/-- The files that a scan finds below a directory without links are those to which names lead. -/
lemma mem_below_iff {below : List (Name × Node)} (hp : tree.find p = .ok (.dir below))
    (hwell : (Node.dir below).WellFormed) (hlinks : (Node.dir below).LinkFree) {f : ScannedFile} :
    f ∈ Scan.below tree p ↔
      ∃ rest content, (Node.dir below).at? rest = some (.file content) ∧
        Scan.isClassFilePath (rest.foldl Path.child p) = true ∧
          (rest.foldl Path.child p).isTooLong = false ∧
            f = ⟨rest.foldl Path.child p, content⟩ := by
  rw [Scan.below_of_find hp, List.mem_filterMap]
  constructor
  · rintro ⟨⟨q, leaf⟩, hleaf, hf⟩
    obtain ⟨hdir, rest, hrest, rfl⟩ := (Node.mem_leaves_iff hwell).1 hleaf
    unfold Scan.ofLeaf at hf
    dsimp only at hf
    split at hf
    · rename_i hcond
      rw [Bool.and_eq_true, Bool.not_eq_true'] at hcond
      cases leaf with
      | file content =>
        exact ⟨rest, content, hrest, hcond.1, hcond.2, (Option.some.inj hf).symm⟩
      | link target => exact absurd hrest (hlinks _ target)
      | dir es => exact absurd rfl (hdir es)
    · simp at hf
  · rintro ⟨rest, content, hrest, hclass, hlong, rfl⟩
    refine ⟨(rest.foldl Path.child p, .file content), ?_, ?_⟩
    · rw [Node.mem_leaves_iff hwell]
      exact ⟨by simp, rest, hrest, rfl⟩
    · unfold Scan.ofLeaf
      dsimp only
      rw [hclass, hlong]
      rfl

/-- From a root, the names go on from those of the directory that is scanned. -/
lemma mem_below_join_iff (htree : tree.WellFormed) (hc : tree.find c = .ok (.dir entries))
    (hlinks : (Node.dir entries).LinkFree) {base : List Name}
    (hbase : ∀ name ∈ base, Path.Segment name ∧ name ≠ Path.here ∧ name ≠ Path.above)
    {f : ScannedFile} :
    tree.isDir (c.join (.ofNames base)) = true ∧ f ∈ Scan.below tree (c.join (.ofNames base)) ↔
      ∃ rest content, rest ≠ [] ∧
        (Node.dir entries).at? (base ++ rest) = some (.file content) ∧
          isClassEntry (base ++ rest) = true ∧
            (c.join (.ofNames (base ++ rest))).isTooLong = false ∧
              f = ⟨c.join (.ofNames (base ++ rest)), content⟩ := by
  have hwell : (Node.dir entries).WellFormed := htree.of_find hc
  have hnil : c.bytes ≠ [] := FileTree.bytes_ne_nil_of_find hc
  have hsegments : ∀ name ∈ base, Path.Segment name := fun name hname => (hbase name hname).1
  have hway {rest : List Name} {leaf : Node}
      (hleaf : (Node.dir entries).at? (base ++ rest) = some leaf) :
      ∀ name ∈ base ++ rest, Path.Segment name := hwell.segment hleaf
  have hpath {rest : List Name} {leaf : Node}
      (hleaf : (Node.dir entries).at? (base ++ rest) = some leaf) :
      rest.foldl Path.child (c.join (.ofNames base)) = c.join (.ofNames (base ++ rest)) :=
    Path.foldl_child_join_ofNames hnil hsegments fun name hname =>
      hway hleaf name (List.mem_append_right _ hname)
  have hclass {rest : List Name} {leaf : Node} (hne : rest ≠ [])
      (hleaf : (Node.dir entries).at? (base ++ rest) = some leaf) :
      Scan.isClassFilePath (c.join (.ofNames (base ++ rest))) = isClassEntry (base ++ rest) :=
    isClassFilePath_join_ofNames c (by simp [hne]) fun name hname =>
      (hwell.entryName hleaf name hname).plain
  rw [FileTree.isDir_eq_true_iff]
  constructor
  · rintro ⟨⟨below, hbelow⟩, hf⟩
    obtain ⟨-, hat⟩ := (FileTree.find_join_ofNames_eq_ok_iff htree hc hlinks hbase).1 hbelow
    obtain ⟨rest, content, hrest, hentry, hlong, rfl⟩ :=
      (mem_below_iff hbelow (hwell.of_at? hat) (hlinks.of_at? hat)).1 hf
    have hleaf : (Node.dir entries).at? (base ++ rest) = some (.file content) :=
      Node.at?_append_eq_some_iff.2 ⟨_, hat, hrest⟩
    have hne : rest ≠ [] := by
      rintro rfl
      simp [Node.at?_nil] at hrest
    rw [hpath hleaf] at hentry hlong ⊢
    rw [hclass hne hleaf] at hentry
    exact ⟨rest, content, hne, hleaf, hentry, hlong, rfl⟩
  · rintro ⟨rest, content, hne, hleaf, hentry, hlong, rfl⟩
    obtain ⟨node, hat, hrest⟩ := Node.at?_append_eq_some_iff.1 hleaf
    -- There are names below `base`, so it is a directory.
    obtain ⟨below, rfl⟩ : ∃ below, node = .dir below := by
      obtain ⟨name, rest, rfl⟩ := List.exists_cons_of_ne_nil hne
      obtain ⟨below, -, rfl, -⟩ := Node.at?_cons_eq_some_iff.1 hrest
      exact ⟨below, rfl⟩
    have hshort := Path.isTooLong_join_ofNames hnil (hway hleaf) hlong
    have hbelow : tree.find (c.join (.ofNames base)) = .ok (.dir below) :=
      (FileTree.find_join_ofNames_eq_ok_iff htree hc hlinks hbase).2 ⟨hshort, hat⟩
    refine ⟨⟨below, hbelow⟩, ?_⟩
    rw [mem_below_iff hbelow (hwell.of_at? hat) (hlinks.of_at? hat)]
    refine ⟨rest, content, hrest, ?_⟩
    rw [hpath hleaf, hclass hne hleaf]
    exact ⟨hentry, hlong, rfl⟩

/-! ### Archives -/

/-- The name of a class file ends in an `s`. -/
lemma exists_eq_concat_of_hasClassSuffix {cs : List Char} (h : Scan.hasClassSuffix cs = true) :
    ∃ front ch, cs = front ++ [ch] ∧ ch.toLower = 's' := by
  unfold Scan.hasClassSuffix at h
  rw [Bool.and_eq_true] at h
  obtain ⟨-, hsuffix⟩ := h
  have hlower : (cs.drop (cs.length - Scan.classSuffix.length)).map Char.toLower =
      Scan.classSuffix.toList := beq_iff_eq.1 hsuffix
  have hlast := congrArg List.getLast? hlower
  rw [List.getLast?_map] at hlast
  obtain ⟨ch, hch, hs⟩ := Option.map_eq_some_iff.1 (hlast.trans (b := some 's') rfl)
  obtain ⟨front, hfront⟩ := List.getLast?_eq_some_iff.1 hch
  refine ⟨cs.take (cs.length - Scan.classSuffix.length) ++ front, ch, ?_, hs⟩
  rw [List.append_assoc, ← hfront, List.take_append_drop]

/-- The file name of a member is the end of its name. -/
lemma exists_toList_eq_append_memberFileName (text : String) :
    ∃ front, text.toList = front ++ (Scan.memberFileName text).toList := by
  unfold Scan.memberFileName
  cases h : breakLast '/' text.toList with
  | none => exact ⟨[], rfl⟩
  | some q =>
    obtain ⟨front, last⟩ := q
    refine ⟨front ++ ['/'], ?_⟩
    rw [String.toList_ofList, (breakLast_eq_some.1 h).1, List.append_assoc, List.singleton_append]

/-- No directory is named like a class file. -/
lemma isDirectory_eq_false {m : Archive.Member}
    (h : Scan.isClassFileName (Scan.memberFileName m.name) = true) : m.isDirectory = false := by
  unfold Scan.isClassFileName at h
  rw [Bool.and_eq_true] at h
  obtain ⟨front, hfront⟩ := exists_toList_eq_append_memberFileName m.name
  obtain ⟨init, ch, hinit, hs⟩ := exists_eq_concat_of_hasClassSuffix h.1
  have hlast : m.name.toList.getLast? = some ch := by
    rw [hfront, hinit, ← List.append_assoc, List.getLast?_concat]
  have hslash : ch ≠ '/' := by
    rintro rfl
    exact absurd hs (by decide)
  have hbackslash : ch ≠ '\\' := by
    rintro rfl
    exact absurd hs (by decide)
  simp [Archive.Member.isDirectory, hlast, hslash, hbackslash]

/-- An archive is opened where a file is that the reader tells to be one. -/
lemma openArchive?_eq_some_iff [ArchiveReader] {file : Bytes} {members : Archive.Listing} :
    Root.openArchive? tree c = some (file, members) ↔
      tree.readFile c = .ok file ∧ ArchiveReader.open? file = some members := by
  unfold Root.openArchive?
  cases tree.readFile c with
  | error e => simp
  | ok content =>
    simp only [Option.bind_eq_bind, Option.bind_eq_some_iff, Option.pure_def, Option.some.injEq,
      Prod.mk.injEq, Except.ok.injEq]
    constructor
    · rintro ⟨ms, hopen, rfl, rfl⟩
      exact ⟨rfl, hopen⟩
    · rintro ⟨rfl, hopen⟩
      exact ⟨members, hopen, rfl, rfl⟩

/-- The files that a scan of an archive finds are the members it wants. -/
lemma mem_members_iff [ArchiveReader] {file : Bytes} {members : Archive.Listing}
    (hfile : tree.readFile c = .ok file) (hopen : ArchiveReader.open? file = some members)
    {base : String} {f : ScannedFile} :
    f ∈ Scan.members tree c base ↔ ∃ m ∈ members.entries, Scan.wantsMember base m = true ∧
      ∃ content, ArchiveReader.content? file m = some content ∧
        f = ⟨Scan.memberOrigin c m.name, content⟩ := by
  have harchive := openArchive?_eq_some_iff.2 ⟨hfile, hopen⟩
  unfold Scan.members
  rw [harchive]
  rw [List.mem_filterMap]
  constructor
  · rintro ⟨m, hwanted, hfound⟩
    obtain ⟨hm, hwants⟩ := List.mem_filter.1 hwanted
    obtain ⟨content, hcontent, rfl⟩ := Option.map_eq_some_iff.1 hfound
    exact ⟨m, hm, hwants, content, hcontent, rfl⟩
  · rintro ⟨m, hm, hwants, content, hcontent, rfl⟩
    exact ⟨m, List.mem_filter.2 ⟨hm, hwants⟩, Option.map_eq_some_iff.2 ⟨content, hcontent, rfl⟩⟩

/-! ### Roots of classes -/

/-- Whether a path leads to a root in which every class file is well formed and stored under the
internal name of its class; in an archive, not under `META-INF/`. -/
structure ClassRoot [ArchiveReader] (tree : FileTree) (p : Path) : Prop where
  kind : IsDirectory tree p ∨ IsArchive tree p
  classes : ∀ names content, Holds tree p names content → isClassEntry names = true →
    ∃ internal s, InternalName internal ∧ namesOf (classFile internal) = names ∧
      (IsArchive tree p → ∀ rest, internal ≠ "META-INF/" ++ rest) ∧
        ClassFile.summary content = .ok s ∧ s.name = QualifiedName.dotted internal

/-- A directory is a root of this kind, whatever it is named. -/
lemma kindOf_eq_directory (h : tree.find c = .ok (.dir entries)) :
    Root.kindOf tree c = .directory := by
  unfold Root.kindOf
  rw [if_pos (FileTree.isDir_eq_true_iff.2 ⟨entries, h⟩)]

/-- A file is an archive by its extension. -/
lemma kindOf_eq_archive (h : tree.find c = .ok (.file content))
    (hextension : Root.hasArchiveExtension c = true) : Root.kindOf tree c = .archive := by
  unfold Root.kindOf FileTree.isDir FileTree.isFile
  rw [h, hextension]
  rfl

variable {b base : String}

/-- Below a directory, the class files that are found are those which names lead to and which
can be read. -/
lemma exists_mem_root_iff_of_dir [ArchiveReader] (htree : tree.WellFormed)
    (hb : Namespace.path b = .ok base) (h : IsDirectory tree p) :
    (Root.contains tree base (Root.classify tree (tree.canonical p)) = true ∧
        ∃ f ∈ Scan.root tree base (Root.classify tree (tree.canonical p)), f.content = content) ↔
      ∃ rest, rest ≠ [] ∧ Holds tree p (Namespace.directory base ++ rest) content ∧
        isClassEntry (Namespace.directory base ++ rest) = true := by
  obtain ⟨entries, hp, hlinks, hread⟩ := h
  have hc := FileTree.find_canonical htree hp
  have hbase := Namespace.segment_directory hb
  unfold Root.contains Scan.root Root.classify
  rw [kindOf_eq_directory hc]
  dsimp only
  rw [← ofNames_directory]
  constructor
  · rintro ⟨hdir, f, hf, rfl⟩
    obtain ⟨rest, content, hne, hat, hentry, -, rfl⟩ :=
      (mem_below_join_iff htree hc hlinks hbase).1 ⟨hdir, hf⟩
    exact ⟨rest, hne, (holds_iff_of_dir hp).2 hat, hentry⟩
  · rintro ⟨rest, hne, hholds, hentry⟩
    have hat := (holds_iff_of_dir hp).1 hholds
    have hshort := FileTree.isTooLong_of_readFile (hread _ _ hat hentry)
    obtain ⟨hdir, hf⟩ := (mem_below_join_iff htree hc hlinks hbase).2
      ⟨rest, content, hne, hat, hentry, hshort, rfl⟩
    exact ⟨hdir, _, hf, rfl⟩

/-- A member of an archive is wanted if it is a class file below the namespace and not under
`META-INF/`. -/
lemma wantsMember_iff (hb : Namespace.path b = .ok base) {m : Archive.Member}
    (hlink : m.isLink = false) :
    Scan.wantsMember base m = true ↔ Root.startsWith "META-INF/" m.name = false ∧
      isClassEntry (namesOf m.name) = true ∧
        ∃ rest, rest ≠ [] ∧ namesOf m.name = Namespace.directory base ++ rest := by
  rw [isClassEntry_namesOf, ← Namespace.startsWith_memberPrefix_iff hb]
  simp only [Scan.wantsMember, hlink, Bool.and_eq_true, Bool.not_eq_true', Bool.not_false,
    true_and]
  constructor
  · rintro ⟨⟨hstarts, hmanifest⟩, hname⟩
    exact ⟨hmanifest, hname, hstarts⟩
  · rintro ⟨hmanifest, hname, hstarts⟩
    exact ⟨⟨hstarts, hmanifest⟩, hname⟩

/-- In an archive, the class files that are found are the members with names below the
namespace. -/
lemma exists_mem_root_iff_of_archive [ArchiveReader] (htree : tree.WellFormed)
    (hb : Namespace.path b = .ok base) (h : ClassRoot tree p) (harchive : IsArchive tree p) :
    (Root.contains tree base (Root.classify tree (tree.canonical p)) = true ∧
        ∃ f ∈ Scan.root tree base (Root.classify tree (tree.canonical p)), f.content = content) ↔
      ∃ rest, rest ≠ [] ∧ Holds tree p (Namespace.directory base ++ rest) content ∧
        isClassEntry (Namespace.directory base ++ rest) = true := by
  obtain ⟨hextension, file, members, hp, hopen, hmembers⟩ := harchive
  have hc := FileTree.find_canonical htree (FileTree.readFile_eq_ok_iff.1 hp)
  have hread := FileTree.readFile_eq_ok_iff.2 hc
  have hsome := openArchive?_eq_some_iff.2 ⟨hread, hopen⟩
  unfold Root.contains Scan.root Root.classify
  rw [kindOf_eq_archive hc hextension]
  dsimp only
  rw [hsome]
  dsimp only
  constructor
  · rintro ⟨-, f, hf, rfl⟩
    obtain ⟨m, hm, hwants, content, hcontent, rfl⟩ := (mem_members_iff hread hopen).1 hf
    obtain ⟨-, hname, rest, hne, hrest⟩ := (wantsMember_iff hb (hmembers m hm).1).1 hwants
    have hfile : m.isDirectory = false := by
      rw [isClassEntry_namesOf] at hname
      exact isDirectory_eq_false hname
    rw [hrest] at hname
    exact ⟨rest, hne, (holds_iff_of_archive hp hopen).2 ⟨m, hm, hfile, hrest, hcontent⟩, hname⟩
  · rintro ⟨rest, hne, hholds, hentry⟩
    obtain ⟨m, hm, -, hrest, hcontent⟩ := (holds_iff_of_archive hp hopen).1 hholds
    obtain ⟨internal, -, -, hinternal, hmeta, -⟩ := h.classes _ _ hholds hentry
    have hname : m.name = classFile internal := namesOf_injective (hrest.trans hinternal.symm)
    have hmanifest : Root.startsWith "META-INF/" m.name = false := by
      rw [Bool.eq_false_iff, hname]
      intro hstarts
      obtain ⟨rest, heq⟩ := (startsWith_slash_classFile_iff "META-INF" internal).1 hstarts
      exact hmeta ⟨hextension, file, members, hp, hopen, hmembers⟩ rest heq
    have hwants : Scan.wantsMember base m = true := by
      rw [← hrest] at hentry
      exact (wantsMember_iff hb (hmembers m hm).1).2 ⟨hmanifest, hentry, rest, hne, hrest⟩
    have hstarts := (Namespace.startsWith_memberPrefix_iff hb m.name).2 ⟨rest, hne, hrest⟩
    refine ⟨?_, ⟨_, content⟩, (mem_members_iff hread hopen).2
      ⟨m, hm, hwants, content, hcontent, rfl⟩, rfl⟩
    rw [Bool.or_eq_true, List.any_eq_true]
    exact .inr ⟨m, hm, hstarts⟩

/-- The contents that a scan finds below a namespace are those of the class files that the root
holds there. -/
lemma exists_mem_root_iff [ArchiveReader] (htree : tree.WellFormed)
    (hb : Namespace.path b = .ok base) (h : ClassRoot tree p) :
    (Root.contains tree base (Root.classify tree (tree.canonical p)) = true ∧
        ∃ f ∈ Scan.root tree base (Root.classify tree (tree.canonical p)), f.content = content) ↔
      ∃ rest, rest ≠ [] ∧ Holds tree p (Namespace.directory base ++ rest) content ∧
        isClassEntry (Namespace.directory base ++ rest) = true := by
  rcases h.kind with hdir | harchive
  · exact exists_mem_root_iff_of_dir htree hb hdir
  · exact exists_mem_root_iff_of_archive htree hb h harchive

end Classpath

end ClasspathIndex
