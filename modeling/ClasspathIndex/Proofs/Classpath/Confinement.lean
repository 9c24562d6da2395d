import ClasspathIndex.Archive.Directory
import ClasspathIndex.Proofs.Classpath.Reach
import ClasspathIndex.Proofs.Index.Selection

/-!
# Scans stay in their roots

The segments of an accepted namespace are free of separators, so its slashed form is a relative
path, the components of which are these segments, none of them `.` or `..`
(`Namespace.IsSlashedForm`).  A scan below such a path does not leave its roots: in a directory it
goes on from the directory of the namespace through the names of entries alone, and in an archive
it takes members below that directory (`Scan.Confined`).
-/

namespace ClasspathIndex

open Text

/-! ### Slashed forms -/

namespace Namespace

variable {b base : String}

/-- How the slashed form of a namespace gives the namespace back, and what it is as a path. -/
structure IsSlashedForm (b base : String) : Prop where
  segments : base.toList.splitOn '/' = b.toList.splitOn '.'
  dotted : QualifiedName.dotted base = b
  relative : (Path.ofString base).isAbsolute = false
  plain : base ≠ "" → ∀ piece ∈ (Path.ofString base).pieces,
    piece ≠ [] ∧ piece ≠ Path.here ∧ piece ≠ Path.above
  components : (Path.ofString base).components =
    if b = "" then [] else (b.toList.splitOn '.').map fun segment =>
      Utf8.encode (String.ofList segment)

/-- The dotted form leads back to the namespace. -/
lemma dotted_of_path (h : path b = .ok base) : QualifiedName.dotted base = b := by
  rcases path_eq_ok h with ⟨rfl, rfl⟩ | ⟨-, rfl, hsegments⟩
  · rfl
  · exact QualifiedName.dotted_slashed (slash_not_mem hsegments)

/-- The names of a namespace are the components of its path. -/
lemma components_ofString (h : path b = .ok base) :
    (Path.ofString base).components = directory base := by
  rw [← Classpath.ofNames_directory]
  refine Path.components_ofNames fun name hname => ?_
  obtain ⟨hsegment, hhere, -⟩ := segment_directory h name hname
  exact ⟨hsegment, hhere⟩

/-- An accepted namespace is given its slashed form. -/
lemma isSlashedForm_of_path (h : path b = .ok base) : IsSlashedForm b base where
  segments := splitOn_of_path h
  dotted := dotted_of_path h
  relative := Classpath.isAbsolute_ofString h
  plain := by
    intro hbase piece hpiece
    have hname : piece ∈ directory base := by
      rw [directory, if_neg hbase]
      exact hpiece
    obtain ⟨⟨hnil, -⟩, hhere, habove⟩ := segment_directory h piece hname
    exact ⟨hnil, hhere, habove⟩
  components := by
    rw [components_ofString h]
    split
    · rename_i hb
      subst hb
      rcases path_eq_ok h with ⟨-, rfl⟩ | ⟨hb, -⟩
      · rfl
      · exact absurd rfl hb
    · rename_i hb
      exact directory_eq h hb

end Namespace

/-! ### Scanned files -/

namespace Scan

variable {tree : FileTree} {start p : Path} {b base : String} {r : Root} {f : ScannedFile}

/-- Whether a file lies below a directory: from there the names of entries lead on to it, and they
are the last components of its origin. -/
def LiesBelow (tree : FileTree) (start : Path) (f : ScannedFile) : Prop :=
  ∃ entries names leaf, tree.find start = .ok (.dir entries) ∧ names ≠ [] ∧
    (Node.dir entries).at? names = some leaf ∧ (∀ name ∈ names, EntryName name) ∧
      f.origin = start.join (.ofNames names) ∧ f.origin.isAbsolute = start.isAbsolute ∧
        f.origin.components = start.components ++ names

/-- Whether a file is a member of an archive below a directory of it, and not one under
`META-INF/`. -/
def IsMemberBelow [ArchiveReader] (tree : FileTree) (archive : Path) (base : String)
    (f : ScannedFile) : Prop :=
  ∃ file members m, Root.openArchive? tree archive = some (file, members) ∧ m ∈ members.entries ∧
    ArchiveReader.content? file m = some f.content ∧ f.origin = memberOrigin archive m.name ∧
      (base = "" ∨ ∃ rest, m.name = base ++ "/" ++ rest) ∧ ∀ rest, m.name ≠ "META-INF/" ++ rest

/-- Whether a file comes from below the directory `base` of a root. -/
def Confined [ArchiveReader] (tree : FileTree) (base : String) (r : Root) (f : ScannedFile) :
    Prop :=
  match r.kind with
  | .directory => LiesBelow tree (r.path.join (.ofString base)) f ∧
      (r.path.join (.ofString base)).components =
        r.path.components ++ (Path.ofString base).components
  | .archive => IsMemberBelow tree r.path base f
  | .unsupported => False

/-- What a scan finds below a directory lies below it. -/
lemma liesBelow_of_mem_below (htree : tree.WellFormed) (hstart : tree.isDir start = true)
    (hf : f ∈ below tree start) : LiesBelow tree start f := by
  obtain ⟨entries, hfind⟩ := FileTree.isDir_eq_true_iff.1 hstart
  obtain ⟨names, leaf, hne, hleaf, horigin⟩ := exists_names_of_mem_below htree hfind hf
  have hnames := (htree.of_find hfind).entryName hleaf
  have hrelative := Path.isAbsolute_ofNames fun name hname => (hnames name hname).segment
  refine ⟨entries, names, leaf, hfind, hne, hleaf, hnames, horigin, ?_, ?_⟩
  · rw [horigin, Path.isAbsolute_join (FileTree.bytes_ne_nil_of_find hfind) hrelative]
  · rw [horigin, Path.components_join_ofNames start fun name hname =>
      ⟨(hnames name hname).segment, (hnames name hname).notHere⟩]

/-- What starts with the prefix of a directory is below it, or the directory is the archive
itself. -/
lemma eq_empty_or_exists_of_startsWith_memberPrefix {text : String}
    (h : Root.startsWith (Root.memberPrefix base) text = true) :
    base = "" ∨ ∃ rest, text = base ++ "/" ++ rest := by
  unfold Root.memberPrefix at h
  split at h
  · rename_i hempty
    exact .inl (String.isEmpty_iff.1 hempty)
  · exact .inr (startsWith_iff.1 h)

/-- A file that is found in an archive is one of its members below the directory. -/
lemma isMemberBelow_of_mem_members [ArchiveReader] (hf : f ∈ members tree p base) :
    IsMemberBelow tree p base f := by
  obtain ⟨file, entries, m, hsome, hm, hwants, hcontent, horigin⟩ :=
    exists_member_of_mem_members hf
  obtain ⟨hstarts, hmanifest⟩ := startsWith_of_wantsMember hwants
  refine ⟨file, entries, m, hsome, hm, hcontent, horigin,
    eq_empty_or_exists_of_startsWith_memberPrefix hstarts, fun rest hname => ?_⟩
  rw [startsWith_iff.2 ⟨rest, hname⟩] at hmanifest
  exact absurd hmanifest (by decide)

/-- A scan below an accepted namespace does not leave the root. -/
lemma confined_of_mem_root [ArchiveReader] (htree : tree.WellFormed)
    (hb : Namespace.path b = .ok base) (hf : f ∈ root tree base r) : Confined tree base r f := by
  unfold root at hf
  unfold Confined
  cases hkind : r.kind with
  | directory =>
    rw [hkind] at hf
    have hdir : tree.isDir (r.path.join (.ofString base)) = true := by
      rw [← Classpath.ofNames_directory] at hf ⊢
      exact Classpath.isDir_of_mem_below hb hf
    exact ⟨liesBelow_of_mem_below htree hdir hf,
      Path.components_join r.path (Classpath.isAbsolute_ofString hb)⟩
  | archive =>
    rw [hkind] at hf
    exact isMemberBelow_of_mem_members hf
  | unsupported => simp [hkind] at hf

/-- A namespace is accepted exactly if its segments are free of separators and blanks.  Different
ones have different slashed forms, which are relative paths of these segments, and below them a
scan of any roots yields files that come from below them in these roots only. -/
theorem path_isOk_iff_and_confined [ArchiveReader] {tree : FileTree} (htree : tree.WellFormed)
    (b : String) :
    (∀ base, Namespace.path b = .ok base ↔
        Namespace.Accepted b ∧ base = QualifiedName.slashed b) ∧
      ∀ base, Namespace.path b = .ok base →
        Namespace.IsSlashedForm b base ∧
          (∀ other, Namespace.path other = .ok base → other = b) ∧
            ∀ rs : List Root, ∀ f ∈ roots tree rs base,
              (∃ r ∈ rs, f ∈ root tree base r) ∧
                ∀ r ∈ rs, f ∈ root tree base r → Confined tree base r f := by
  refine ⟨fun base => Namespace.path_eq_ok_iff, fun base hb => ?_⟩
  have hform := Namespace.isSlashedForm_of_path hb
  refine ⟨hform, fun other hother => ?_, fun rs f hf => ⟨?_, fun r _ hr => ?_⟩⟩
  · exact (Namespace.dotted_of_path hother).symm.trans hform.dotted
  · exact List.mem_flatMap.1 hf
  · exact confined_of_mem_root htree hb hr

/-- A directory with `a/B.class` and an archive with `a/C.class`. -/
def sampleRoots : List Root :=
  [⟨Index.directoryPath, .directory⟩, ⟨Index.archivePath, .archive⟩]

/-- A directory and an archive, scanned below the namespace `a`. -/
theorem path_isOk_iff_and_confined_sampleRoots :
    Namespace.Accepted "a" ∧ Namespace.IsSlashedForm "a" "a" ∧
      (roots Index.sampleTree sampleRoots "a").map ScannedFile.origin =
        [.ofString "lib/a/B.class", .ofString "c.jar!/a/C.class"] ∧
      ∀ f ∈ roots Index.sampleTree sampleRoots "a",
        ∃ r ∈ sampleRoots, Confined Index.sampleTree "a" r f := by
  have hb : Namespace.path "a" = .ok "a" := by decide +kernel
  obtain ⟨hpath, hall⟩ := path_isOk_iff_and_confined Index.wellFormed_sampleTree "a"
  obtain ⟨hform, -, hconfined⟩ := hall "a" hb
  refine ⟨((hpath "a").1 hb).1, hform, by decide +kernel, fun f hf => ?_⟩
  obtain ⟨⟨r, hr, hfound⟩, hroots⟩ := hconfined sampleRoots f hf
  exact ⟨r, hr, hroots r hr hfound⟩

end Scan

end ClasspathIndex
