import ClasspathIndex.Proofs.Classpath.Location
import ClasspathIndex.Proofs.FileTree.Order

/-!
# Paths compared by their components

The roots of a class path are told apart by the bytes of their paths.  Systems often compare paths
by their components instead, so that `a//b` and `a/b/` are the same (`Path.sameComponents`).
A canonical path is spelled in one way only, so that for canonical paths this comes to the same
(`FileTree.sameComponents_canonical_iff`), and where the paths that lead nowhere are not spelled
like a canonical one, the same roots are located (`Root.locate_eq_filter_eraseDupsBy`).

Two kinds of paths are left out by that.  A path can lead to a root while its canonical form is too
long, and an absolute path can lead nowhere for the only reason that a slash follows the name of
a file, as in `/a.jar/`.  Both are kept as they are given, and the comparison by components would
drop a root that follows in another spelling.
-/

namespace ClasspathIndex

namespace Path

variable {p q : Path} {ps qs : List Name}

/-- Whether two paths have the same components: they start alike, at the root of the tree, with `.`
or with a name, and the same names follow, whatever slashes and `.` stand between them. -/
def sameComponents (p q : Path) : Bool :=
  p.isAbsolute == q.isAbsolute && (p.pieces.head? == some here) == (q.pieces.head? == some here) &&
    p.components == q.components

/-- A path has the components that it has. -/
lemma sameComponents_self (p : Path) : p.sameComponents p = true := by
  simp [sameComponents]

/-- It does not matter which of two paths is compared with the other. -/
lemma sameComponents_comm (p q : Path) : p.sameComponents q = q.sameComponents p := by
  unfold sameComponents
  rw [Bool.beq_comm (a := p.isAbsolute), Bool.beq_comm (a := p.pieces.head? == some here),
    BEq.comm (a := p.components)]

/-- Paths with the same components are both absolute or both relative. -/
lemma isAbsolute_eq_of_sameComponents (h : p.sameComponents q = true) :
    p.isAbsolute = q.isAbsolute := by
  simp only [sameComponents, Bool.and_eq_true, beq_iff_eq] at h
  exact h.1.1

/-- Of the names on the way, both have the same. -/
lemma components_eq_of_sameComponents (h : p.sameComponents q = true) :
    p.components = q.components := by
  simp only [sameComponents, Bool.and_eq_true, beq_iff_eq] at h
  exact h.2

/-- The path of a position is absolute. -/
lemma isAbsolute_ofPosition (ps : List Name) : (ofPosition ps).isAbsolute = true := by
  simp [isAbsolute, ofPosition]

/-- The names of a position are the components of its path. -/
lemma components_ofPosition (h : ∀ name ∈ ps, EntryName name) :
    (ofPosition ps).components = ps := by
  unfold components
  rw [FileTree.pieces_ofPosition fun name hname => (h name hname).slash,
    List.filter_cons_of_neg (by simp)]
  split
  · rename_i hnil
    simp [hnil]
  · rw [List.filter_eq_self]
    intro name hname
    simp [(h name hname).segment.1, (h name hname).notHere]

end Path

namespace FileTree

variable {tree : FileTree} {p q : Path}

/-- Whether a path has a canonical form: it leads somewhere, and the path of this place is not too
long. -/
def HasCanonical (tree : FileTree) (p : Path) : Prop :=
  ∃ position, tree.positionOf p = .ok position ∧ (Path.ofPosition position).isTooLong = false

/-- The canonical form spells out a position. -/
lemma HasCanonical.exists_eq_ofPosition (htree : tree.WellFormed) (h : tree.HasCanonical p) :
    ∃ ps, tree.canonical p = .ofPosition ps ∧ ∀ name ∈ ps, EntryName name := by
  obtain ⟨ps, hps, hshort⟩ := h
  obtain ⟨node, hnode, -⟩ := real_of_positionOf hps
  refine ⟨ps, ?_, htree.names.entryName hnode⟩
  unfold canonical
  rw [hps]
  exact if_neg (by simp [hshort])

/-- Without a canonical form a path is kept as it is given. -/
lemma canonical_of_not_hasCanonical (h : ¬ tree.HasCanonical p) : tree.canonical p = p := by
  rcases canonical_eq_or tree p with hself | ⟨ps, hps, -, hshort⟩
  · exact hself
  · exact absurd ⟨ps, hps, hshort⟩ h

/-- Canonical forms with the same components are the same. -/
lemma sameComponents_canonical_iff (htree : tree.WellFormed) (hp : tree.HasCanonical p)
    (hq : tree.HasCanonical q) :
    (tree.canonical p).sameComponents (tree.canonical q) = true ↔
      tree.canonical p = tree.canonical q := by
  constructor
  · intro hsame
    obtain ⟨ps, hps, hpnames⟩ := hp.exists_eq_ofPosition htree
    obtain ⟨qs, hqs, hqnames⟩ := hq.exists_eq_ofPosition htree
    have hcomponents := Path.components_eq_of_sameComponents hsame
    rw [hps, hqs, Path.components_ofPosition hpnames, Path.components_ofPosition hqnames]
      at hcomponents
    rw [hps, hqs, hcomponents]
  · intro heq
    rw [heq]
    exact Path.sameComponents_self _

/-- A relative path does not have the components of a canonical form. -/
lemma sameComponents_canonical_of_relative (htree : tree.WellFormed) (hp : p.isAbsolute = false)
    (hq : tree.HasCanonical q) : p.sameComponents (tree.canonical q) = false := by
  obtain ⟨qs, hqs, -⟩ := hq.exists_eq_ofPosition htree
  rw [Bool.eq_false_iff]
  intro hsame
  have habsolute := Path.isAbsolute_eq_of_sameComponents hsame
  rw [hp, hqs, Path.isAbsolute_ofPosition] at habsolute
  cases habsolute

end FileTree

namespace Root

/-- Whether every path has a canonical form, or leads nowhere and is not spelled like the canonical
form of another one. -/
def Spelled (tree : FileTree) (paths : List Path) : Prop :=
  ∀ p ∈ paths, tree.HasCanonical p ∨ (∃ e, tree.find p = .error e) ∧
    ∀ q ∈ paths, tree.HasCanonical q → p.sameComponents (tree.canonical q) = false

/-- Relative paths are not spelled like canonical ones, so it is enough that they have a canonical
form or lead nowhere. -/
lemma spelled_of_relative {tree : FileTree} {paths : List Path} (htree : tree.WellFormed)
    (h : ∀ p ∈ paths, tree.HasCanonical p ∨ p.isAbsolute = false ∧ ∃ e, tree.find p = .error e) :
    Spelled tree paths := by
  intro p hp
  rcases h p hp with hcanonical | ⟨hrelative, herror⟩
  · exact .inl hcanonical
  · exact .inr ⟨herror, fun _ _ hq =>
      FileTree.sameComponents_canonical_of_relative htree hrelative hq⟩

section Spelled

variable [ArchiveReader] {tree : FileTree} {paths : List Path} {p q : Path} {base : String}

/-- A path that leads nowhere contains nothing. -/
lemma contains_of_error {e : PathError} (h : tree.find p = .error e) :
    contains tree base (classify tree p) = false := by
  unfold classify
  rw [kindOf_of_error h]
  rfl

/-- What contains the namespace has a canonical form. -/
lemma Spelled.hasCanonical (h : Spelled tree paths) (hp : p ∈ paths)
    (hcontains : contains tree base (classify tree (tree.canonical p)) = true) :
    tree.HasCanonical p := by
  by_contra hnot
  rcases h p hp with hcanonical | ⟨⟨e, herror⟩, -⟩
  · exact hnot hcanonical
  · rw [FileTree.canonical_of_not_hasCanonical hnot, contains_of_error herror] at hcontains
    cases hcontains

/-- Where a path contains the namespace, components tell its canonical form as bytes do. -/
lemma Spelled.sameComponents_iff (htree : tree.WellFormed) (h : Spelled tree paths)
    (hp : p ∈ paths) (hcontains : contains tree base (classify tree (tree.canonical p)) = true)
    (hq : q ∈ paths) :
    (tree.canonical p).sameComponents (tree.canonical q) = true ↔
      tree.canonical p = tree.canonical q := by
  have hcanonical := h.hasCanonical hp hcontains
  by_cases hother : tree.HasCanonical q
  · exact FileTree.sameComponents_canonical_iff htree hcanonical hother
  · rcases h q hq with hyes | ⟨-, hdiffers⟩
    · exact absurd hyes hother
    · have hfalse := hdiffers p hp hcanonical
      rw [FileTree.canonical_of_not_hasCanonical hother]
      constructor
      · intro hsame
        rw [Path.sameComponents_comm, hfalse] at hsame
        cases hsame
      · intro heq
        rw [heq]
        exact Path.sameComponents_self q

end Spelled

/-- Told apart by their components, the same roots are located, in the same order, if every path
has a canonical form, or leads nowhere and is not spelled like the canonical form of another. -/
theorem locate_eq_filter_eraseDupsBy [ArchiveReader] {tree : FileTree} {paths : List Path}
    {b base : String} (htree : tree.WellFormed) (hb : Namespace.path b = .ok base)
    (h : Spelled tree paths) :
    locate tree paths b = .ok ((((paths.map tree.canonical).eraseDupsBy Path.sameComponents).map
      (classify tree)).filter (contains tree base)) := by
  have htold : ((paths.map tree.canonical).eraseDupsBy Path.sameComponents).filter
      (fun c => contains tree base (classify tree c)) =
        ((paths.map tree.canonical).filter
          fun c => contains tree base (classify tree c)).eraseDups := by
    refine filter_eraseDupsBy _ fun c hc d hd hcontains => ?_
    obtain ⟨p, hp, rfl⟩ := List.mem_map.1 hc
    obtain ⟨q, hq, rfl⟩ := List.mem_map.1 hd
    rcases hcontains with hcontains | hcontains
    · exact h.sameComponents_iff htree hp hcontains hq
    · rw [Path.sameComponents_comm, h.sameComponents_iff htree hq hcontains hp, eq_comm]
  rw [locate_of_path tree paths hb, filter_candidates, ← htold, List.filter_map]
  rfl

end Root

end ClasspathIndex
