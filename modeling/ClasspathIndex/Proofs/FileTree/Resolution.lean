import ClasspathIndex.Proofs.FileTree.Nodes

/-!
# Where paths lead

A path is followed piece by piece (`FileTree.step`).  Whatever way it takes, through links,
dots and empty pieces, it ends at a position of the tree: a sequence of names that leads from
the root to a file or a directory with no link on it (`FileTree.real_of_positionOf`).  Where
there are no links, names lead to what they name, and nowhere else.
-/

namespace ClasspathIndex

namespace FileTree

/-- Whether the root is a directory, and all names are as they have to be. -/
structure WellFormed (tree : FileTree) : Prop where
  root : ∃ entries, tree.root = .dir entries
  names : tree.root.WellFormed

/-- Whether a position is that of a file or a directory. -/
def Real (root : Node) (position : List Name) : Prop :=
  ∃ node, root.at? position = some node ∧ ∀ target, node ≠ .link target

/-! ### One piece of a path -/

/-- What becomes of one piece of a path: it leads on to a position, or meets a link. -/
inductive Step where
  | goto (position : List Name)
  | link (target : Path)

/-- Goes one piece of a path from a position. -/
def step (root : Node) (position : List Name) (c : Bytes) : Except PathError Step :=
  match root.at? position with
  | some (.dir entries) =>
    if c = [] ∨ c = Path.here then .ok (.goto position)
    else if c = Path.above then .ok (.goto position.dropLast)
    else if Path.maxNameLength < c.length then .error .nameTooLong
    else
      match entries.lookup c with
      | none => .error .notFound
      | some (.link target) => .ok (.link target)
      | some _ => .ok (.goto (position ++ [c]))
  | some _ => .error .notDirectory
  | none => .error .notFound

variable {root : Node}
  {follow : List Name → Path → List Bytes → Except PathError (List Name)}

/-- A path is followed piece by piece. -/
lemma descend_cons (position : List Name) (c : Bytes) (cs : List Bytes) :
    descend root follow position (c :: cs) =
      match step root position c with
      | .ok (.goto next) => descend root follow next cs
      | .ok (.link target) => follow position target cs
      | .error e => .error e := by
  rw [descend, step]
  cases root.at? position with
  | none => rfl
  | some node =>
    cases node with
    | file content => rfl
    | link target => rfl
    | dir entries =>
      dsimp only
      split
      · rfl
      split
      · rfl
      split
      · rfl
      cases entries.lookup c with
      | none => rfl
      | some next => cases next <;> rfl

/-- An empty component stays in a directory. -/
lemma step_nil {position : List Name} {entries : List (Name × Node)}
    (h : root.at? position = some (.dir entries)) :
    step root position [] = .ok (.goto position) := by
  simp [step, h]

/-- Without a directory, no piece leads anywhere. -/
lemma step_eq_error {position : List Name} {c : Bytes} {e : PathError}
    (h : step root position [] = .error e) : step root position c = .error e := by
  unfold step at h ⊢
  split
  · rename_i entries hdir
    simp [hdir] at h
  · rename_i hnode hdir
    simpa [hdir] using h
  · rename_i hdir
    simpa [hdir] using h

/-- A name of the tree that is no link leads to its entry. -/
lemma step_entry {position : List Name} {entries : List (Name × Node)} {name : Name} {next : Node}
    (hname : EntryName name) (hdir : root.at? position = some (.dir entries))
    (hnext : entries.lookup name = some next) (hlink : ∀ target, next ≠ .link target) :
    step root position name = .ok (.goto (position ++ [name])) := by
  unfold step
  simp only [hdir, hname.nonempty, hname.notHere, hname.notAbove, Nat.not_lt.2 hname.length,
    or_self, if_false, hnext]

/-- Where names go on, there is a directory with an entry of the next name. -/
lemma exists_dir_of_at?_append_cons {position names : List Name} {name : Name} {leaf : Node}
    (h : root.at? (position ++ name :: names) = some leaf) :
    ∃ entries next, root.at? position = some (.dir entries) ∧ entries.lookup name = some next ∧
      next.at? names = some leaf := by
  obtain ⟨node, hnode, hleaf⟩ := Node.at?_append_eq_some_iff.1 h
  obtain ⟨entries, next, rfl, hnext, hleaf⟩ := Node.at?_cons_eq_some_iff.1 hleaf
  exact ⟨entries, next, hnode, hnext, hleaf⟩

/-- The position of a directory is real. -/
lemma real_dir {position : List Name} {entries : List (Name × Node)}
    (h : root.at? position = some (.dir entries)) : Real root position :=
  ⟨_, h, fun _ => by simp⟩

/-- The directory above a directory is one. -/
lemma real_dropLast {position : List Name} {entries : List (Name × Node)}
    (h : root.at? position = some (.dir entries)) : Real root position.dropLast := by
  rcases List.eq_nil_or_concat position with rfl | ⟨above, name, rfl⟩
  · exact real_dir h
  · rw [List.concat_eq_append] at h ⊢
    rw [List.dropLast_concat]
    obtain ⟨_, _, habove, -, -⟩ := exists_dir_of_at?_append_cons h
    exact real_dir habove

/-- A step leads to a file or a directory. -/
lemma real_of_step {position next : List Name} {c : Bytes}
    (h : step root position c = .ok (.goto next)) : Real root next := by
  unfold step at h
  split at h
  · rename_i entries hdir
    split at h
    · simp only [Except.ok.injEq, Step.goto.injEq] at h
      exact h ▸ real_dir hdir
    split at h
    · simp only [Except.ok.injEq, Step.goto.injEq] at h
      exact h ▸ real_dropLast hdir
    split at h
    · simp at h
    split at h
    · simp at h
    · simp at h
    · rename_i node hlink hnode
      simp only [Except.ok.injEq, Step.goto.injEq] at h
      refine h ▸ ⟨node, ?_, hlink⟩
      rw [Node.at?_append_eq_some_iff]
      exact ⟨_, hdir, Node.at?_cons_eq_some_iff.2 ⟨entries, node, rfl, hnode, Node.at?_nil node⟩⟩
  · simp at h
  · simp at h

/-! ### Many pieces -/

/-- An empty component is passed over in a directory. -/
lemma descend_nil_cons {position : List Name} {entries : List (Name × Node)} {cs : List Bytes}
    (h : root.at? position = some (.dir entries)) :
    descend root follow position ([] :: cs) = descend root follow position cs := by
  rw [descend_cons, step_nil h]

/-- On names of the tree that are no links, the way is that through the tree. -/
lemma descend_append_eq {position names : List Name} (hroot : root.WellFormed)
    (hreal : Real root (position ++ names)) (cs : List Bytes) :
    descend root follow position (names ++ cs) = descend root follow (position ++ names) cs := by
  induction names generalizing position with
  | nil => rw [List.nil_append, List.append_nil]
  | cons name names ih =>
    obtain ⟨leaf, hleaf, hlink⟩ := hreal
    obtain ⟨entries, next, hdir, hnext, hrest⟩ := exists_dir_of_at?_append_cons hleaf
    have hname : EntryName name := hroot.entryName hleaf name (by simp)
    have hnext' : ∀ target, next ≠ .link target := by
      rintro target rfl
      cases names with
      | nil => exact hlink target (Option.some.inj hrest).symm
      | cons n ns => simp [Node.at?] at hrest
    have hassoc : position ++ name :: names = position ++ [name] ++ names := by simp
    rw [List.cons_append, descend_cons, step_entry hname hdir hnext hnext', hassoc]
    exact ih (hassoc ▸ ⟨leaf, hleaf, hlink⟩)

/-- The names of a real position lead along it. -/
lemma descend_eq_ok {position names : List Name} (hroot : root.WellFormed)
    (hreal : Real root (position ++ names)) :
    descend root follow position names = .ok (position ++ names) := by
  have h : descend root follow position (names ++ []) =
      descend root follow (position ++ names) [] := descend_append_eq hroot hreal []
  rwa [List.append_nil, descend] at h

/-- A step by a name leads to the entry with the name, if that is no link. -/
lemma eq_of_step {position next : List Name} {c : Bytes} (hnil : c ≠ []) (hhere : c ≠ Path.here)
    (habove : c ≠ Path.above) (h : step root position c = .ok (.goto next)) :
    next = position ++ [c] := by
  unfold step at h
  simp only [hnil, hhere, habove, or_self, if_false] at h
  split at h
  · split at h
    · simp at h
    split at h
    · simp at h
    · simp at h
    · simpa using h.symm
  · simp at h
  · simp at h

/-- A step to a link ends where the link stands. -/
lemma at?_of_step_link {position : List Name} {c : Bytes} {target : Path}
    (h : step root position c = .ok (.link target)) :
    root.at? (position ++ [c]) = some (.link target) := by
  unfold step at h
  split at h
  · rename_i entries hdir
    split at h
    · simp at h
    split at h
    · simp at h
    split at h
    · simp at h
    split at h
    · simp at h
    · rename_i htarget
      simp only [Except.ok.injEq, Step.link.injEq] at h
      rw [Node.at?_append_eq_some_iff]
      exact ⟨_, hdir, Node.at?_cons_eq_some_iff.2 ⟨entries, _, rfl, h ▸ htarget, Node.at?_nil _⟩⟩
    · simp at h
  · simp at h
  · simp at h

/-- Where there are no links, a way by names ends where the names say. -/
lemma eq_of_descend {position names ps : List Name}
    (hlinks : ∀ rest target, root.at? (position ++ rest) ≠ some (.link target))
    (hnames : ∀ name ∈ names, name ≠ [] ∧ name ≠ Path.here ∧ name ≠ Path.above)
    (h : descend root follow position names = .ok ps) : ps = position ++ names := by
  induction names generalizing position with
  | nil =>
    rw [descend] at h
    rw [List.append_nil]
    exact (Except.ok.inj h).symm
  | cons name names ih =>
    rw [List.forall_mem_cons] at hnames
    obtain ⟨⟨hnil, hhere, habove⟩, hnames⟩ := hnames
    rw [descend_cons] at h
    split at h
    · rename_i next hstep
      obtain rfl := eq_of_step hnil hhere habove hstep
      have hrest := ih (fun rest target => by simpa using hlinks (name :: rest) target) hnames h
      simpa using hrest
    · rename_i target hstep
      exact absurd (at?_of_step_link hstep) (hlinks [name] target)
    · simp at h

/-- Every way ends at a real position, if links lead to such. -/
lemma real_of_descend {position : List Name} {cs : List Bytes} {ps : List Name}
    (hfollow : ∀ position target cs, follow position target cs = .ok ps → Real root ps)
    (hstart : cs = [] → Real root position) (h : descend root follow position cs = .ok ps) :
    Real root ps := by
  induction cs generalizing position with
  | nil =>
    rw [descend] at h
    obtain rfl := Except.ok.inj h
    exact hstart rfl
  | cons c cs ih =>
    rw [descend_cons] at h
    split at h
    · rename_i next hstep
      exact ih (fun _ => real_of_step hstep) h
    · exact hfollow _ _ _ h
    · simp at h

/-- A way that is continued goes on from its end, with the links that are left. -/
lemma exists_descend_append {links : Nat} {position : List Name} {cs ds : List Bytes}
    {ps : List Name}
    (hfollow : ∀ position target cs, follow position target cs = .ok ps →
      ∃ left ≤ links, follow position target (cs ++ ds) = descendLinks root left ps ds)
    (hlinks : descendLinks root links = descend root follow)
    (h : descend root follow position cs = .ok ps) :
    ∃ left ≤ links, descend root follow position (cs ++ ds) = descendLinks root left ps ds := by
  induction cs generalizing position with
  | nil =>
    rw [descend] at h
    obtain rfl := Except.ok.inj h
    exact ⟨links, le_rfl, by rw [hlinks, List.nil_append]⟩
  | cons c cs ih =>
    rw [descend_cons] at h
    rw [List.cons_append, descend_cons]
    cases hstep : step root position c with
    | error e => simp [hstep] at h
    | ok s =>
      rw [hstep] at h
      cases s with
      | goto next => exact ih h
      | link target => exact hfollow _ _ _ h

/-- An empty piece before another one changes nothing. -/
lemma descend_append_nil_cons {position : List Name} {cs : List Bytes} {d : Bytes}
    {ds : List Bytes}
    (hfollow : ∀ position target cs, follow position target (cs ++ [] :: d :: ds) =
      follow position target (cs ++ d :: ds)) :
    descend root follow position (cs ++ [] :: d :: ds) =
      descend root follow position (cs ++ d :: ds) := by
  induction cs generalizing position with
  | nil =>
    rw [List.nil_append, List.nil_append, descend_cons]
    cases hstep : step root position [] with
    | error e => rw [descend_cons, step_eq_error hstep]
    | ok s =>
      unfold step at hstep
      split at hstep
      · simp only [true_or, if_true, Except.ok.injEq] at hstep
        rw [← hstep]
      · simp at hstep
      · simp at hstep
  | cons c cs ih =>
    rw [List.cons_append, List.cons_append, descend_cons, descend_cons]
    cases step root position c with
    | error e => rfl
    | ok s =>
      cases s with
      | goto next => exact ih
      | link target => exact hfollow _ _ _

/-! ### Whole paths -/

/-- A path has at least one piece. -/
lemma pieces_ne_nil (p : Path) : p.pieces ≠ [] :=
  List.splitOn_ne_nil _ _

/-- Following links is one way of going along components. -/
lemma exists_descendLinks_eq (root : Node) (links : Nat) :
    ∃ follow, descendLinks root links = descend root follow := by
  cases links <;> exact ⟨_, rfl⟩

/-- A way ends at a real position, if it starts at one or goes on from there. -/
lemma real_of_descendLinks {links : Nat} {position : List Name} {cs : List Bytes} {ps : List Name}
    (hstart : cs = [] → Real root position) (h : descendLinks root links position cs = .ok ps) :
    Real root ps := by
  induction links generalizing position cs with
  | zero => exact real_of_descend (fun _ _ _ h => by simp at h) hstart h
  | succ links ih =>
    refine real_of_descend (fun position target cs hfollow => ih (fun hnil => ?_) hfollow) hstart h
    exact absurd (List.append_eq_nil_iff.1 hnil).1 (pieces_ne_nil target)

/-- A path leads to a position if it has bytes, none of them zero, and its pieces lead there. -/
lemma positionOf_eq_ok_iff {tree : FileTree} {p : Path} {ps : List Name} :
    tree.positionOf p = .ok ps ↔ p.bytes ≠ [] ∧ 0 ∉ p.bytes ∧
      descendLinks tree.root maxLinks (startOf p tree.workingDirectory) p.pieces = .ok ps := by
  unfold positionOf
  split
  · rename_i h
    simp [List.isEmpty_iff.1 h]
  split
  · rename_i h
    simp only [List.contains_iff_mem] at h
    simp [h]
  · rename_i hnil hzero
    simp only [List.contains_iff_mem] at hzero
    simp only [List.isEmpty_iff] at hnil
    simp [hnil, hzero]

/-- A path leads to a file or a directory. -/
lemma real_of_positionOf {tree : FileTree} {p : Path} {ps : List Name}
    (h : tree.positionOf p = .ok ps) : Real tree.root ps :=
  real_of_descendLinks (fun hnil => absurd hnil (pieces_ne_nil p)) (positionOf_eq_ok_iff.1 h).2.2

/-- A path finds what stands at its position, if it is not too long. -/
lemma find_eq_ok_iff {tree : FileTree} {p : Path} {node : Node} :
    tree.find p = .ok node ↔ p.isTooLong = false ∧
      ∃ ps, tree.positionOf p = .ok ps ∧ tree.root.at? ps = some node := by
  have hzero (hzero : 0 ∈ p.bytes) (ps : List Name) : tree.positionOf p ≠ .ok ps := fun h =>
    (positionOf_eq_ok_iff.1 h).2.1 hzero
  unfold find
  cases hp : tree.positionOf p with
  | error e =>
    simp only [reduceCtorEq, false_and, exists_false, and_false, iff_false]
    split <;> simp [bind, Except.bind]
  | ok ps =>
    have hno : 0 ∉ p.bytes := fun h => hzero h ps hp
    cases hlong : p.isTooLong with
    | true => simp [hno]
    | false =>
      simp only [Bool.false_and, Bool.false_eq_true, if_false, Except.ok.injEq, exists_eq_left',
        true_and]
      cases hnode : tree.root.at? ps <;> simp [bind, Except.bind, hnode, pure, Except.pure]

/-- A file is read where one is found. -/
lemma readFile_eq_ok_iff {tree : FileTree} {p : Path} {content : Bytes} :
    tree.readFile p = .ok content ↔ tree.find p = .ok (.file content) := by
  unfold readFile
  split <;> simp_all

/-- A directory is where one is found. -/
lemma isDir_eq_true_iff {tree : FileTree} {p : Path} :
    tree.isDir p = true ↔ ∃ entries, tree.find p = .ok (.dir entries) := by
  unfold isDir
  split <;> simp_all

/-! ### What is found -/

section Found

variable {tree : FileTree} {p : Path} {node : Node} {content : Bytes}

/-- What is found in a well-formed tree is well formed. -/
lemma WellFormed.of_find (htree : tree.WellFormed) (h : tree.find p = .ok node) :
    node.WellFormed := by
  obtain ⟨-, ps, -, hnode⟩ := find_eq_ok_iff.1 h
  exact htree.names.of_at? hnode

/-- A path that finds something has bytes. -/
lemma bytes_ne_nil_of_find (h : tree.find p = .ok node) : p.bytes ≠ [] := by
  obtain ⟨-, ps, hps, -⟩ := find_eq_ok_iff.1 h
  exact (positionOf_eq_ok_iff.1 hps).1

/-- A path by which a file is read is not too long. -/
lemma isTooLong_of_readFile (h : tree.readFile p = .ok content) : p.isTooLong = false :=
  (find_eq_ok_iff.1 (readFile_eq_ok_iff.1 h)).1

end Found

end FileTree

end ClasspathIndex
