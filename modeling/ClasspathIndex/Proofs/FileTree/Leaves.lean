import ClasspathIndex.FileTree.Leaves
import ClasspathIndex.Proofs.FileTree.Continuation

/-!
# The leaves of a tree are the ways to them

In a well-formed tree, the leaves below a node are the files and links to which names lead, and
the path of a leaf is that of the node with these names after it.  Sorting the entries of a
directory changes the order of the leaves only.
-/

namespace ClasspathIndex

namespace Node

/-- Induction on the directories of a tree. -/
lemma induction {motive : Node → Prop} (file : ∀ content, motive (file content))
    (link : ∀ target, motive (link target))
    (dir : ∀ entries, (∀ e ∈ entries, motive e.2) → motive (dir entries)) : ∀ node, motive node
  | .file content => file content
  | .link target => link target
  | .dir entries => dir entries fun e he => by
    have hlt : sizeOf e.2 < 1 + sizeOf entries := by
      have hmem := List.sizeOf_lt_of_mem he
      have hsnd : sizeOf e = 1 + sizeOf e.1 + sizeOf e.2 := rfl
      omega
    exact induction file link dir e.2
termination_by node => sizeOf node

/-- The leaves of a directory are told entry by entry. -/
lemma leavesByName_eq_map (p : Path) (entries : List (Name × Node)) :
    leavesByName p entries = entries.map fun e => (e.1, leaves (p.child e.1) e.2) := by
  induction entries with
  | nil => rfl
  | cons e entries ih => rw [leavesByName, ih, List.map_cons]

/-- The leaves of a directory are those of its entries, in the order of their names. -/
lemma leaves_dir (p : Path) (entries : List (Name × Node)) :
    (dir entries).leaves p = (sortByName entries).flatMap fun e => e.2.leaves (p.child e.1) := by
  have hsort : sortByName (leavesByName p entries) =
      (sortByName entries).map fun e => (e.1, e.2.leaves (p.child e.1)) := by
    unfold sortByName
    rw [leavesByName_eq_map]
    symm
    apply List.map_mergeSort
    intro a _ b _
    rfl
  rw [leaves, hsort, List.flatMap_map]

/-- A leaf of a directory is one of an entry. -/
lemma mem_leaves_dir_iff {p : Path} {entries : List (Name × Node)} {leaf : Path × Node} :
    leaf ∈ (dir entries).leaves p ↔ ∃ e ∈ entries, leaf ∈ e.2.leaves (p.child e.1) := by
  rw [leaves_dir, List.mem_flatMap]
  simp only [sortByName, List.mem_mergeSort]

/-- With distinct names, an entry is looked up under its name. -/
lemma lookup_eq_some_of_mem {entries : List (Name × Node)} (h : (entries.map Prod.fst).Nodup)
    {e : Name × Node} (he : e ∈ entries) : entries.lookup e.1 = some e.2 := by
  induction entries with
  | nil => simp at he
  | cons d entries ih =>
    obtain ⟨hfresh, hrest⟩ := List.nodup_cons.1 h
    rw [List.lookup_cons]
    split
    · rename_i hname
      rcases List.mem_cons.1 he with rfl | hmem
      · rfl
      · have hold : d.1 ∈ entries.map Prod.fst := beq_iff_eq.1 hname ▸ List.mem_map_of_mem hmem
        exact absurd hold hfresh
    · rename_i hname
      rcases List.mem_cons.1 he with rfl | hmem
      · simp at hname
      · exact ih hrest hmem

/-- The leaves are what names lead to, other than directories. -/
lemma mem_leaves_iff {node : Node} (h : node.WellFormed) {p q : Path} {leaf : Node} :
    (q, leaf) ∈ node.leaves p ↔ (∀ entries, leaf ≠ dir entries) ∧
      ∃ names, node.at? names = some leaf ∧ q = names.foldl Path.child p := by
  induction node using induction generalizing p with
  | file content =>
    rw [leaves, List.mem_singleton, Prod.mk.injEq]
    simp only [at?_file_eq_some_iff]
    constructor
    · rintro ⟨rfl, rfl⟩
      exact ⟨by simp, [], ⟨rfl, rfl⟩, rfl⟩
    · rintro ⟨-, _, ⟨rfl, rfl⟩, rfl⟩
      exact ⟨rfl, rfl⟩
  | link target =>
    rw [leaves, List.mem_singleton, Prod.mk.injEq]
    simp only [at?_link_eq_some_iff]
    constructor
    · rintro ⟨rfl, rfl⟩
      exact ⟨by simp, [], ⟨rfl, rfl⟩, rfl⟩
    · rintro ⟨-, _, ⟨rfl, rfl⟩, rfl⟩
      exact ⟨rfl, rfl⟩
  | dir entries ih =>
    have hdistinct := (h [] entries (at?_nil _)).1
    have hat {e : Name × Node} (he : e ∈ entries) : (dir entries).at? [e.1] = some e.2 :=
      at?_cons_eq_some_iff.2 ⟨entries, e.2, rfl, lookup_eq_some_of_mem hdistinct he, at?_nil _⟩
    rw [mem_leaves_dir_iff]
    constructor
    · rintro ⟨e, he, hleaf⟩
      obtain ⟨hdir, names, hnames, rfl⟩ := (ih e he (h.of_at? (hat he))).1 hleaf
      refine ⟨hdir, e.1 :: names, ?_, rfl⟩
      exact at?_cons_eq_some_iff.2
        ⟨entries, e.2, rfl, lookup_eq_some_of_mem hdistinct he, hnames⟩
    · rintro ⟨hdir, names, hnames, rfl⟩
      rcases eq_nil_or_exists_mem_of_at?_dir hnames with ⟨-, hleaf⟩ | ⟨e, he, rest, rfl, hleaf⟩
      · exact absurd hleaf (hdir entries)
      · exact ⟨e, he, (ih e he (h.of_at? (hat he))).2 ⟨hdir, rest, hleaf, rfl⟩⟩

end Node

end ClasspathIndex
