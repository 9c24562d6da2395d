import ClasspathIndex.Proofs.Classpath.Location
import ClasspathIndex.Proofs.Classpath.RootKinds
import ClasspathIndex.Proofs.FileTree.Text

/-!
# How far roots reach

The origins of the class files in a root all start alike: with the path of the directory of the
namespace in a directory, and with the path of the archive, an exclamation mark and the directory
of the namespace in an archive (`Root.reach`).  A root does not yield the same origin twice, so
that only two roots of which one reaches into the other can yield the same origin
(`Scan.exists_roots_of_origin_eq`).
-/

namespace ClasspathIndex

open Text

/-- What the origins of the class files in the directory `base` of a root start with. -/
def Root.reach (base : String) (r : Root) : Bytes :=
  match r.kind with
  | .archive => (Scan.memberOrigin r.path (Root.memberPrefix base)).bytes
  | _ => ((r.path.join (.ofString base)).join ⟨[]⟩).bytes

/-- Whether neither of two roots reaches into the other. -/
def Root.Apart (base : String) (r s : Root) : Prop :=
  ¬ r.reach base <+: s.reach base ∧ ¬ s.reach base <+: r.reach base

namespace Scan

variable {tree : FileTree} {start : Path} {base : String} {r : Root} {rs : List Root}
  {f g : ScannedFile}

/-! ### Origins in one root -/

/-- The origin of a file below a directory is that of the directory with the names on the way. -/
lemma exists_names_of_mem_below (htree : tree.WellFormed) {entries : List (Name × Node)}
    (hstart : tree.find start = .ok (.dir entries)) (hf : f ∈ below tree start) :
    ∃ names leaf, names ≠ [] ∧ (Node.dir entries).at? names = some leaf ∧
      f.origin = start.join (.ofNames names) := by
  have hnode := htree.of_find hstart
  obtain ⟨p, es, name, leaf, -, henters, hp, hmem, horigin, -⟩ :=
    ((mem_below_iff_classFileBelow htree hstart).1 hf).entry
  obtain ⟨names, rfl, hat⟩ := henters.exists_names htree hstart hp
  have hleaf := at?_concat_of_mem hnode hat hmem
  refine ⟨names ++ [name], leaf, by simp, hleaf, ?_⟩
  rw [horigin, ← Path.foldl_child_eq_join (FileTree.bytes_ne_nil_of_find hstart) (by simp)
    (hnode.segment hleaf), List.foldl_append]
  rfl

/-- A member that is wanted has a name below the directory of the namespace. -/
lemma startsWith_of_wantsMember {m : Archive.Member} (h : wantsMember base m = true) :
    Root.startsWith (Root.memberPrefix base) m.name = true ∧
      Root.startsWith "META-INF/" m.name = false := by
  simp only [wantsMember, Bool.and_eq_true, Bool.not_eq_true'] at h
  obtain ⟨⟨⟨-, hstarts⟩, hmanifest⟩, -⟩ := h
  exact ⟨hstarts, hmanifest⟩

variable [ArchiveReader]

/-- What is found in an archive is one of its members that are wanted. -/
lemma exists_member_of_mem_members {archive : Path} (hf : f ∈ members tree archive base) :
    ∃ file members m, Root.openArchive? tree archive = some (file, members) ∧ m ∈ members.entries ∧
      wantsMember base m = true ∧ ArchiveReader.content? file m = some f.content ∧
        f.origin = memberOrigin archive m.name := by
  cases hsome : Root.openArchive? tree archive with
  | none =>
    unfold members at hf
    rw [hsome] at hf
    exact absurd hf List.not_mem_nil
  | some p =>
    obtain ⟨file, listing⟩ := p
    obtain ⟨hfile, hopen⟩ := Classpath.openArchive?_eq_some_iff.1 hsome
    obtain ⟨m, hm, hwants, content, hcontent, rfl⟩ := (Classpath.mem_members_iff hfile hopen).1 hf
    exact ⟨file, listing, m, rfl, hm, hwants, hcontent, rfl⟩

/-- The name of a member that is found goes on behind the directory of the namespace. -/
lemma exists_name_of_mem_members {archive : Path} (hf : f ∈ members tree archive base) :
    ∃ rest, f.origin = memberOrigin archive (Root.memberPrefix base ++ rest) := by
  obtain ⟨file, listing, m, -, -, hwants, -, horigin⟩ := exists_member_of_mem_members hf
  obtain ⟨rest, hname⟩ := startsWith_iff.1 (startsWith_of_wantsMember hwants).1
  exact ⟨rest, by rw [horigin, ← hname]⟩

/-- A class file in a root that has the namespace is a file below the directory of the namespace,
or a member below that of an archive. -/
lemma origin_of_mem_root (htree : tree.WellFormed) (hr : Root.contains tree base r = true)
    (hf : f ∈ root tree base r) :
    (r.kind = .directory ∧ tree.readFile f.origin = .ok f.content ∧
      ∃ entries names leaf, tree.find (r.path.join (.ofString base)) = .ok (.dir entries) ∧
        names ≠ [] ∧ (Node.dir entries).at? names = some leaf ∧
        f.origin = (r.path.join (.ofString base)).join (.ofNames names)) ∨
    (r.kind = .archive ∧
      ∃ rest, f.origin = memberOrigin r.path (Root.memberPrefix base ++ rest)) := by
  unfold root at hf
  unfold Root.contains at hr
  cases hkind : r.kind with
  | directory =>
    rw [hkind] at hf hr
    obtain ⟨entries, hstart⟩ := FileTree.isDir_eq_true_iff.1 hr
    obtain ⟨names, leaf, hnames, hleaf, horigin⟩ := exists_names_of_mem_below htree hstart hf
    have hread := ((mem_below_iff_classFileBelow htree hstart).1 hf).content
    exact .inl ⟨rfl, hread, entries, names, leaf, hstart, hnames, hleaf, horigin⟩
  | archive =>
    rw [hkind] at hf
    exact .inr ⟨rfl, exists_name_of_mem_members hf⟩
  | unsupported => simp [hkind] at hf

/-- The origins of the class files in a root are within its reach. -/
lemma reach_prefix_origin (htree : tree.WellFormed) (hr : Root.contains tree base r = true)
    (hf : f ∈ root tree base r) : r.reach base <+: f.origin.bytes := by
  unfold Root.reach
  rcases origin_of_mem_root htree hr hf with
    ⟨hkind, -, entries, names, leaf, hstart, -, hleaf, horigin⟩ | ⟨hkind, rest, horigin⟩
  · have hrelative := Path.isAbsolute_ofNames ((htree.of_find hstart).segment hleaf)
    rw [hkind, horigin,
      Path.bytes_join_eq_append (FileTree.bytes_ne_nil_of_find hstart) hrelative]
    exact List.prefix_append _ _
  · rw [hkind, horigin, Classpath.bytes_memberOrigin, Classpath.bytes_memberOrigin,
      Utf8.encode_append, ← List.append_assoc]
    exact List.prefix_append _ _

/-- In a file tree whose names are text, origins are text. -/
lemma isText_origin (htree : tree.WellFormed) (hnames : tree.root.NamesAreText)
    (hr : Root.contains tree base r = true) (hf : f ∈ root tree base r) :
    Utf8.IsText f.origin.bytes := by
  rcases origin_of_mem_root htree hr hf with ⟨-, hread, -⟩ | ⟨-, rest, horigin⟩
  · exact FileTree.isText_of_find hnames (FileTree.readFile_eq_ok_iff.1 hread)
  · rw [horigin]
    exact Path.isText_ofString _

/-! ### Origins in several roots -/

/-- A repeated origin comes from two roots, the first of them before the second. -/
lemma exists_sublist_of_origin_eq (htree : tree.WellFormed)
    (hfg : [f, g].Sublist (roots tree rs base)) (horigin : f.origin = g.origin) :
    ∃ r s, [r, s].Sublist rs ∧ f ∈ root tree base r ∧ g ∈ root tree base s := by
  have hpairwise : (roots tree rs base).Pairwise fun f g =>
      f.origin = g.origin →
        ∃ r s, [r, s].Sublist rs ∧ f ∈ root tree base r ∧ g ∈ root tree base s := by
    refine List.pairwise_flatMap.2 ⟨fun r _ => ?_, ?_⟩
    · have hdistinct := List.pairwise_map.1 (Classpath.nodup_origins_root htree base r)
      exact hdistinct.imp fun hne heq => absurd heq hne
    · refine List.pairwise_iff_forall_sublist.2 fun {r s} hrs f hf g hg _ => ?_
      exact ⟨r, s, hrs, hf, hg⟩
  exact List.pairwise_iff_forall_sublist.1 hpairwise hfg horigin

/-- A repeated origin comes from two roots one of which reaches into the other. -/
lemma exists_roots_of_origin_eq (htree : tree.WellFormed)
    (hrs : ∀ r ∈ rs, Root.contains tree base r = true) (hfg : [f, g].Sublist (roots tree rs base))
    (horigin : f.origin = g.origin) :
    ∃ r s, [r, s].Sublist rs ∧ f ∈ root tree base r ∧ g ∈ root tree base s ∧
      ¬ Root.Apart base r s := by
  obtain ⟨r, s, hsublist, hf, hg⟩ := exists_sublist_of_origin_eq htree hfg horigin
  have hr : Root.contains tree base r = true := hrs r (hsublist.subset (by simp))
  have hs : Root.contains tree base s = true := hrs s (hsublist.subset (by simp))
  have hreach := reach_prefix_origin htree hr hf
  rw [horigin] at hreach
  refine ⟨r, s, hsublist, hf, hg, fun hapart => ?_⟩
  rcases List.prefix_or_prefix_of_prefix hreach (reach_prefix_origin htree hs hg) with h | h
  · exact hapart.1 h
  · exact hapart.2 h

end Scan

end ClasspathIndex
