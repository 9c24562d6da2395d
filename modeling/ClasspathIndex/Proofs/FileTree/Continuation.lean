import ClasspathIndex.Proofs.FileTree.Names
import ClasspathIndex.Proofs.FileTree.Resolution

/-!
# Canonical and continued paths

The canonical path spells out the position that a path leads to, so it leads to the same place
(`FileTree.find_canonical`).  A path that is continued is followed from there on, so that going
from entry to entry through directories leads to what the names say
(`FileTree.find_foldl_child`), and below a directory without links, relative paths lead there and
nowhere else (`FileTree.find_join_ofNames_eq_ok_iff`).
-/

namespace ClasspathIndex

namespace FileTree

variable {root : Node}

/-! ### Canonical paths -/

/-- An empty piece stands before the first slash, and another one behind the slash of the root. -/
lemma pieces_ofPosition {ps : List Name} (h : ∀ name ∈ ps, Path.slash ∉ name) :
    (Path.ofPosition ps).pieces = [] :: (if ps = [] then [[]] else ps) := by
  have hsplit := List.splitOn_append_cons_self (a := Path.slash) [] ([Path.slash].intercalate ps)
  rw [List.nil_append] at hsplit
  unfold Path.pieces Path.ofPosition
  rw [hsplit]
  split
  · rename_i hnil
    subst hnil
    rfl
  · rename_i hnil
    rw [List.splitOn_intercalate Path.slash h hnil]
    rfl

/-- The path of a position starts at the root. -/
lemma startOf_ofPosition (ps position : List Name) :
    startOf (Path.ofPosition ps) position = [] := by
  simp [startOf, Path.isAbsolute, Path.ofPosition]

/-- Along the path of a real position no links are followed. -/
lemma descendLinks_pieces_ofPosition {tree : FileTree} (htree : tree.WellFormed) {ps : List Name}
    (hreal : Real tree.root ps) (links : Nat) (cs : List Bytes) :
    descendLinks tree.root links [] ((Path.ofPosition ps).pieces ++ cs) =
      descendLinks tree.root links ps cs := by
  obtain ⟨entries, hroot⟩ := htree.root
  have hdir : tree.root.at? [] = some (.dir entries) := by rw [Node.at?_nil, hroot]
  have hnames : ∀ name ∈ ps, EntryName name := by
    obtain ⟨node, hnode, -⟩ := hreal
    exact htree.names.entryName hnode
  obtain ⟨follow, hfollow⟩ := exists_descendLinks_eq tree.root links
  rw [pieces_ofPosition fun name hname => (hnames name hname).slash, hfollow, List.cons_append,
    descend_nil_cons hdir]
  split
  · rename_i hnil
    rw [List.singleton_append, descend_nil_cons hdir, hnil]
  · rw [← List.nil_append ps] at hreal
    rw [descend_append_eq htree.names hreal, List.nil_append]

/-- The path of a real position leads there. -/
lemma positionOf_ofPosition {tree : FileTree} (htree : tree.WellFormed) {ps : List Name}
    (hreal : Real tree.root ps) : tree.positionOf (Path.ofPosition ps) = .ok ps := by
  have hnames : ∀ name ∈ ps, EntryName name := by
    obtain ⟨node, hnode, -⟩ := hreal
    exact htree.names.entryName hnode
  rw [positionOf_eq_ok_iff]
  refine ⟨by simp [Path.ofPosition], ?_, ?_⟩
  · intro hzero
    rw [Path.ofPosition, List.mem_cons] at hzero
    rcases hzero with hzero | hzero
    · exact absurd hzero (by decide)
    · obtain ⟨name, hname, hzero⟩ := Path.exists_mem_of_mem_ofNames (by decide) hzero
      exact (hnames name hname).zero hzero
  · have hway := descendLinks_pieces_ofPosition htree hreal maxLinks []
    rw [List.append_nil] at hway
    obtain ⟨follow, hfollow⟩ := exists_descendLinks_eq tree.root maxLinks
    rw [startOf_ofPosition, hway, hfollow, descend]

/-- A canonical path spells out a position, or it is the path as it was given. -/
lemma canonical_eq_or (tree : FileTree) (p : Path) :
    tree.canonical p = p ∨ ∃ ps, tree.positionOf p = .ok ps ∧
      tree.canonical p = .ofPosition ps ∧ (Path.ofPosition ps).isTooLong = false := by
  unfold canonical
  cases hps : tree.positionOf p with
  | error e => exact .inl rfl
  | ok ps =>
    cases hlong : (Path.ofPosition ps).isTooLong with
    | true => exact .inl (if_pos hlong)
    | false => exact .inr ⟨ps, rfl, if_neg (by simp [hlong]), hlong⟩

/-- A canonical path leads to where the path leads. -/
lemma positionOf_canonical {tree : FileTree} (htree : tree.WellFormed) {p : Path} {ps : List Name}
    (h : tree.positionOf p = .ok ps) : tree.positionOf (tree.canonical p) = .ok ps := by
  rcases canonical_eq_or tree p with hself | ⟨qs, hqs, hcanonical, -⟩
  · rw [hself]
    exact h
  · obtain rfl := Except.ok.inj (h.symm.trans hqs)
    rw [hcanonical]
    exact positionOf_ofPosition htree (real_of_positionOf h)

/-- Paths that are not too long and lead to the same position find the same. -/
lemma find_eq_of_positionOf_eq {tree : FileTree} {p q : Path} (hp : p.isTooLong = false)
    (hq : q.isTooLong = false) (h : tree.positionOf p = tree.positionOf q) :
    tree.find p = tree.find q := by
  unfold find
  rw [hp, hq, h, Bool.false_and, Bool.false_and]

/-- Where a path is not too long, its canonical form leads to the same, or nowhere for the same
reason. -/
lemma find_canonical_eq {tree : FileTree} (htree : tree.WellFormed) {p : Path}
    (hp : p.isTooLong = false) : tree.find (tree.canonical p) = tree.find p := by
  rcases canonical_eq_or tree p with hself | ⟨ps, hps, hcanonical, hshort⟩
  · rw [hself]
  · refine find_eq_of_positionOf_eq (by rw [hcanonical]; exact hshort) hp ?_
    rw [positionOf_canonical htree hps, hps]

/-- A canonical path finds what the path does. -/
lemma find_canonical {tree : FileTree} (htree : tree.WellFormed) {p : Path} {node : Node}
    (h : tree.find p = .ok node) : tree.find (tree.canonical p) = .ok node := by
  rw [find_canonical_eq htree (find_eq_ok_iff.1 h).1]
  exact h

/-! ### Continued paths -/

/-- More components are followed from where the first ones lead, with the links that are left. -/
lemma exists_descendLinks_append {links : Nat} {position : List Name} {cs : List Bytes}
    {ps : List Name} (h : descendLinks root links position cs = .ok ps) (ds : List Bytes) :
    ∃ left ≤ links, descendLinks root links position (cs ++ ds) =
      descendLinks root left ps ds := by
  induction links generalizing position cs with
  | zero =>
    have hlinks : descendLinks root 0 = descend root _ := rfl
    exact exists_descend_append (fun _ _ _ h => by simp at h) hlinks h
  | succ links ih =>
    have hlinks : descendLinks root (links + 1) = descend root _ := rfl
    refine exists_descend_append (fun position target cs hfollow => ?_) hlinks h
    rw [← List.append_assoc]
    obtain ⟨left, hleft, hway⟩ := ih hfollow
    exact ⟨left, Nat.le_succ_of_le hleft, hway⟩

/-- An empty component before another one makes no difference. -/
lemma descendLinks_append_nil_cons {links : Nat} {position : List Name} {cs : List Bytes}
    {d : Bytes} {ds : List Bytes} :
    descendLinks root links position (cs ++ [] :: d :: ds) =
      descendLinks root links position (cs ++ d :: ds) := by
  induction links generalizing position cs with
  | zero => exact descend_append_nil_cons fun _ _ _ => rfl
  | succ links ih =>
    refine descend_append_nil_cons fun position target cs => ?_
    rw [← List.append_assoc, ← List.append_assoc]
    exact ih

/-- A continued path is followed piece by piece, as are the path and what continues it. -/
lemma positionOf_join {tree : FileTree} {p q : Path} {ps : List Name}
    (h : tree.positionOf p = .ok ps) (hq : q.isAbsolute = false) (hzero : 0 ∉ q.bytes) :
    tree.positionOf (p.join q) = descendLinks tree.root maxLinks
      (startOf p tree.workingDirectory) (p.pieces ++ q.pieces) := by
  obtain ⟨hnil, hpzero, -⟩ := positionOf_eq_ok_iff.1 h
  obtain ⟨cs, hpieces, hp⟩ := Path.exists_pieces_join p hq
  have hbytes := Path.bytes_join hnil hq
  have hstart : startOf (p.join q) tree.workingDirectory = startOf p tree.workingDirectory := by
    unfold startOf
    rw [Path.isAbsolute_join hnil hq]
  have hway : descendLinks tree.root maxLinks (startOf p tree.workingDirectory) (cs ++ q.pieces) =
      descendLinks tree.root maxLinks (startOf p tree.workingDirectory) (p.pieces ++ q.pieces) := by
    rcases hp with hp | hp
    · rw [hp]
    · obtain ⟨d, ds, hcons⟩ := List.exists_cons_of_ne_nil (pieces_ne_nil q)
      rw [hp, hcons, List.append_assoc]
      exact descendLinks_append_nil_cons.symm
  unfold positionOf
  rw [if_neg, if_neg, hstart, hpieces, hway]
  · rw [List.contains_iff_mem, hbytes]
    have hslash : (0 : UInt8) ≠ Path.slash := by decide
    split <;> simp [hpzero, hzero, hslash]
  · rw [List.isEmpty_iff, hbytes]
    split <;> simp [hnil]

/-- A continued path is followed from where the path leads, with the links that are left. -/
lemma exists_positionOf_join {tree : FileTree} {p q : Path} {ps : List Name}
    (h : tree.positionOf p = .ok ps) (hq : q.isAbsolute = false) (hzero : 0 ∉ q.bytes) :
    ∃ links ≤ maxLinks, tree.positionOf (p.join q) =
      descendLinks tree.root links ps q.pieces := by
  rw [positionOf_join h hq hzero]
  exact exists_descendLinks_append (positionOf_eq_ok_iff.1 h).2.2 q.pieces

/-! ### Below a directory -/

variable {tree : FileTree} {p : Path} {node : Node}

/-- From a directory, the path of names is followed as the names are. -/
lemma descendLinks_pieces_ofNames {position : List Name} {entries : List (Name × Node)}
    (hdir : root.at? position = some (.dir entries)) {names : List Name}
    (hnames : ∀ name ∈ names, Path.slash ∉ name) (links : Nat) :
    descendLinks root links position (Path.ofNames names).pieces =
      descendLinks root links position names := by
  by_cases hnil : names = []
  · subst hnil
    obtain ⟨follow, hfollow⟩ := exists_descendLinks_eq root links
    have hpieces : (Path.ofNames []).pieces = [[]] := rfl
    rw [hpieces, hfollow, descend_nil_cons hdir]
  · rw [Path.pieces_ofNames hnil hnames]

/-- A way with an empty last piece ends at a directory, if those after a link do. -/
lemma dir_of_descend_append_nil {position ps : List Name} {cs : List Bytes}
    (hfollow : ∀ position target cs, follow position target (cs ++ [[]]) = .ok ps →
      ∃ entries, root.at? ps = some (.dir entries))
    (h : descend root follow position (cs ++ [[]]) = .ok ps) :
    ∃ entries, root.at? ps = some (.dir entries) := by
  induction cs generalizing position with
  | nil =>
    rw [List.nil_append, descend] at h
    split at h
    · rename_i entries hdir
      rw [if_pos (.inl rfl), descend] at h
      exact ⟨entries, Except.ok.inj h ▸ hdir⟩
    · simp at h
    · simp at h
  | cons c cs ih =>
    rw [List.cons_append, descend_cons] at h
    split at h
    · exact ih h
    · exact hfollow _ _ _ h
    · simp at h

/-- What an empty component is followed from is a directory. -/
lemma dir_of_descendLinks_append_nil {links : Nat} {position ps : List Name} {cs : List Bytes}
    (h : descendLinks root links position (cs ++ [[]]) = .ok ps) :
    ∃ entries, root.at? ps = some (.dir entries) := by
  induction links generalizing position cs with
  | zero => exact dir_of_descend_append_nil (fun _ _ _ h => by simp at h) h
  | succ links ih =>
    refine dir_of_descend_append_nil (fun position target cs hfollow => ?_) h
    rw [← List.append_assoc] at hfollow
    exact ih hfollow

/-- Where a path that nothing continues leads to, there is a directory: it ends in a slash. -/
lemma exists_eq_dir_of_find_join_nil (h : tree.find (p.join (.ofNames [])) = .ok node) :
    ∃ entries, node = .dir entries := by
  have hempty : (Path.ofNames []).pieces = [[]] := rfl
  obtain ⟨-, ps, hps, hnode⟩ := find_eq_ok_iff.1 h
  obtain ⟨cs, hpieces, -⟩ := Path.exists_pieces_join p (q := .ofNames []) rfl
  have hway := (positionOf_eq_ok_iff.1 hps).2.2
  rw [hpieces, hempty] at hway
  obtain ⟨entries, hdir⟩ := dir_of_descendLinks_append_nil hway
  exact ⟨entries, Option.some.inj (hnode.symm.trans hdir)⟩

/-- Names that lead through directories to a file or a directory do so from its path, too. -/
lemma positionOf_join_ofNames (htree : tree.WellFormed) {ps : List Name}
    {entries : List (Name × Node)} (hps : tree.positionOf p = .ok ps)
    (hdir : tree.root.at? ps = some (.dir entries)) {names : List Name}
    (hreal : Real tree.root (ps ++ names)) :
    tree.positionOf (p.join (.ofNames names)) = .ok (ps ++ names) := by
  have hentry : ∀ name ∈ names, EntryName name := by
    obtain ⟨leaf, hleaf, -⟩ := hreal
    intro name hname
    exact htree.names.entryName hleaf name (List.mem_append_right _ hname)
  have hrelative : (Path.ofNames names).isAbsolute = false :=
    Path.isAbsolute_ofNames fun name hname => (hentry name hname).segment
  have hzero : 0 ∉ (Path.ofNames names).bytes := by
    intro hzero
    obtain ⟨name, hname, hzero⟩ := Path.exists_mem_of_mem_ofNames (by decide) hzero
    exact (hentry name hname).zero hzero
  obtain ⟨links, -, hjoin⟩ := exists_positionOf_join hps hrelative hzero
  obtain ⟨follow, hfollow⟩ := exists_descendLinks_eq tree.root links
  rw [hjoin, descendLinks_pieces_ofNames hdir fun name hname => (hentry name hname).slash, hfollow]
  exact descend_eq_ok htree.names hreal

/-- Below a directory without links, relative paths lead to what their names say. -/
lemma find_join_ofNames_eq_ok_iff (htree : tree.WellFormed) {entries : List (Name × Node)}
    (hp : tree.find p = .ok (.dir entries)) (hlinks : (Node.dir entries).LinkFree)
    {names : List Name}
    (hnames : ∀ name ∈ names, Path.Segment name ∧ name ≠ Path.here ∧ name ≠ Path.above) :
    tree.find (p.join (.ofNames names)) = .ok node ↔
      (p.join (.ofNames names)).isTooLong = false ∧ (Node.dir entries).at? names = some node := by
  obtain ⟨-, ps, hps, hdir⟩ := find_eq_ok_iff.1 hp
  have hlinks' (rest : List Name) (target : Path) :
      tree.root.at? (ps ++ rest) ≠ some (.link target) := by
    intro h
    obtain ⟨next, hnext, hlink⟩ := Node.at?_append_eq_some_iff.1 h
    obtain rfl := Option.some.inj (hdir.symm.trans hnext)
    exact hlinks rest target hlink
  rw [find_eq_ok_iff, and_congr_right_iff]
  intro _
  constructor
  · rintro ⟨qs, hqs, hnode⟩
    have hrelative : (Path.ofNames names).isAbsolute = false :=
      Path.isAbsolute_ofNames fun name hname => (hnames name hname).1
    have hzero : 0 ∉ (Path.ofNames names).bytes := fun hzero =>
      (positionOf_eq_ok_iff.1 hqs).2.1 (Path.mem_join_of_mem hzero)
    obtain ⟨links, -, hjoin⟩ := exists_positionOf_join hps hrelative hzero
    obtain ⟨follow, hfollow⟩ := exists_descendLinks_eq tree.root links
    rw [hjoin, descendLinks_pieces_ofNames hdir fun name hname => (hnames name hname).1.2,
      hfollow] at hqs
    have hplain : ∀ name ∈ names, name ≠ [] ∧ name ≠ Path.here ∧ name ≠ Path.above :=
      fun name hname => ⟨(hnames name hname).1.1, (hnames name hname).2⟩
    obtain rfl := eq_of_descend hlinks' hplain hqs
    rw [Node.at?_append, hdir] at hnode
    exact hnode
  · intro hnode
    have hat : tree.root.at? (ps ++ names) = some node := by
      rw [Node.at?_append, hdir]
      exact hnode
    have hreal : Real tree.root (ps ++ names) :=
      ⟨node, hat, fun target hlink => hlinks' names target (hlink ▸ hat)⟩
    exact ⟨ps ++ names, positionOf_join_ofNames htree hps hdir hreal, hat⟩

/-- Going from entry to entry leads to what the names say, if that is no link. -/
lemma find_foldl_child (htree : tree.WellFormed) {start : Node} (hp : tree.find p = .ok start)
    {names : List Name} (hat : start.at? names = some node) (hlink : ∀ target, node ≠ .link target)
    (hlong : (names.foldl Path.child p).isTooLong = false) :
    tree.find (names.foldl Path.child p) = .ok node := by
  obtain ⟨-, ps, hps, hstart⟩ := find_eq_ok_iff.1 hp
  have hwhole : tree.root.at? (ps ++ names) = some node :=
    Node.at?_append_eq_some_iff.2 ⟨start, hstart, hat⟩
  refine find_eq_ok_iff.2 ⟨hlong, ps ++ names, ?_, hwhole⟩
  cases names with
  | nil => rw [List.foldl_nil, List.append_nil, hps]
  | cons name names =>
    obtain ⟨entries, next, rfl, -, -⟩ := Node.at?_cons_eq_some_iff.1 hat
    have hsegments : ∀ n ∈ name :: names, Path.Segment n := fun n hn =>
      htree.names.segment hwhole n (List.mem_append_right _ hn)
    rw [Path.foldl_child_eq_join (positionOf_eq_ok_iff.1 hps).1 (by simp) hsegments]
    exact positionOf_join_ofNames htree hps hstart ⟨node, hwhole, hlink⟩

end FileTree

end ClasspathIndex
