import ClasspathIndex.Proofs.FileTree.Leaves
import ClasspathIndex.Proofs.Sorting

/-!
# The order of the leaves

Paths are compared component by component, and components byte by byte.  The path of an entry has
one component more than that of its directory, so the leaves below a smaller name come before
those below a greater one, whatever characters follow the names in the paths: the leaves of a
well-formed tree stand in strictly increasing order (`Node.pairwise_leaves`).
-/

namespace ClasspathIndex

namespace Path

/-- The components of a path: what stands between the slashes, without empty pieces and `.`. -/
def components (p : Path) : List Name :=
  p.pieces.filter fun c => c ≠ [] && c ≠ here

variable {p q : Path} {name : Name} {names : List Name}

/-- A joined path has the components of both. -/
lemma components_join (p : Path) (hq : q.isAbsolute = false) :
    (p.join q).components = p.components ++ q.components := by
  obtain ⟨cs, hpieces, hcs⟩ := exists_pieces_join p hq
  have hfront : p.components = cs.filter fun c => c ≠ [] && c ≠ here := by
    unfold components
    rcases hcs with hcs | hcs
    · rw [hcs]
    · rw [hcs, List.filter_append]
      simp
  rw [hfront, components, hpieces, List.filter_append]
  rfl

/-- The components of a path of names are these names. -/
lemma components_ofNames (hnames : ∀ n ∈ names, Segment n ∧ n ≠ here) :
    (ofNames names).components = names := by
  by_cases hnil : names = []
  · subst hnil
    rfl
  · unfold components
    rw [pieces_ofNames hnil fun n hn => (hnames n hn).1.2, List.filter_eq_self]
    intro n hn
    simp [(hnames n hn).1.1, (hnames n hn).2]

/-- The components of a path go on with the names that it is joined with. -/
lemma components_join_ofNames (p : Path) (hnames : ∀ n ∈ names, Segment n ∧ n ≠ here) :
    (p.join (ofNames names)).components = p.components ++ names := by
  rw [components_join p (isAbsolute_ofNames fun n hn => (hnames n hn).1),
    components_ofNames hnames]

/-- The path of an entry has one component more. -/
lemma components_child (p : Path) (hname : EntryName name) :
    (p.child name).components = p.components ++ [name] := by
  rw [child_eq_join]
  exact components_join_ofNames p fun n hn =>
    List.mem_singleton.1 hn ▸ ⟨hname.segment, hname.notHere⟩

/-- Going from entry to entry adds all names. -/
lemma components_foldl_child (p : Path) (hnames : ∀ n ∈ names, EntryName n) :
    (names.foldl child p).components = p.components ++ names := by
  induction names generalizing p with
  | nil => rw [List.foldl_nil, List.append_nil]
  | cons name names ih =>
    rw [List.forall_mem_cons] at hnames
    rw [List.foldl_cons, ih (p.child name) hnames.2, components_child p hnames.1,
      List.append_assoc, List.singleton_append]

end Path

namespace Node

/-- The entries of a directory are sorted strictly, since their names are distinct. -/
lemma pairwise_sortByName {entries : List (Name × Node)} (h : (entries.map Prod.fst).Nodup) :
    (sortByName entries).Pairwise fun d e => d.1 < e.1 :=
  pairwise_lt_mergeSort_key h

/-- The leaves of a tree stand in strictly increasing order of their paths. -/
lemma pairwise_leaves {node : Node} (h : node.WellFormed) (p : Path) :
    (node.leaves p).Pairwise fun a b => a.1.components < b.1.components := by
  induction node using induction generalizing p with
  | file content =>
    rw [leaves]
    exact List.pairwise_singleton _ _
  | link target =>
    rw [leaves]
    exact List.pairwise_singleton _ _
  | dir entries ih =>
    obtain ⟨hdistinct, hnames⟩ := h [] entries (at?_nil _)
    have hmem {e : Name × Node} (he : e ∈ sortByName entries) : e ∈ entries :=
      List.mem_mergeSort.1 he
    have hentry {e : Name × Node} (he : e ∈ entries) : e.2.WellFormed :=
      h.of_at? (at?_cons_eq_some_iff.2
        ⟨entries, e.2, rfl, lookup_eq_some_of_mem hdistinct he, at?_nil _⟩)
    -- The leaves of an entry have its name as their first component below the directory.
    have hleaf {e : Name × Node} (he : e ∈ entries) {leaf : Path × Node}
        (hleaf : leaf ∈ e.2.leaves (p.child e.1)) :
        ∃ rest, leaf.1.components = p.components ++ e.1 :: rest := by
      obtain ⟨-, rest, hrest, hpath⟩ := (mem_leaves_iff (hentry he)).1 hleaf
      refine ⟨rest, ?_⟩
      rw [hpath, Path.components_foldl_child _ ((hentry he).entryName hrest),
        Path.components_child p (hnames e he), List.append_assoc, List.singleton_append]
    rw [leaves_dir, List.pairwise_flatMap]
    constructor
    · intro e he
      exact ih e (hmem he) (hentry (hmem he)) (p.child e.1)
    · refine (pairwise_sortByName hdistinct).imp_of_mem ?_
      intro d e hd he hlt x hx y hy
      obtain ⟨xs, hxs⟩ := hleaf (hmem hd) hx
      obtain ⟨ys, hys⟩ := hleaf (hmem he) hy
      rw [hxs, hys]
      exact List.append_left_lt (List.cons_lt_cons_iff.2 (.inl hlt))

end Node

end ClasspathIndex
