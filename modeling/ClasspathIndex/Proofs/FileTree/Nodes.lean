import ClasspathIndex.FileTree.Basic
import ClasspathIndex.Proofs.FileTree.Names

/-!
# Ways through a tree

A sequence of names leads from a node to what lies below it (`Node.at?`).  In a tree as file
systems have them, the names in a directory are distinct and contain neither slashes nor zero
bytes (`Node.WellFormed`); a tree may be without links (`Node.LinkFree`).  Both pass on to what
lies below.
-/

namespace ClasspathIndex

/-- What can be the name of a directory entry. -/
structure EntryName (name : Name) : Prop where
  nonempty : name ≠ []
  notHere : name ≠ Path.here
  notAbove : name ≠ Path.above
  slash : Path.slash ∉ name
  zero : 0 ∉ name
  length : name.length ≤ Path.maxNameLength

/-- The name of an entry stands between two slashes. -/
lemma EntryName.segment {name : Name} (h : EntryName name) : Path.Segment name :=
  ⟨h.nonempty, h.slash⟩

/-- A name is followed as it is. -/
lemma EntryName.plain {name : Name} (h : EntryName name) :
    Path.Segment name ∧ name ≠ Path.here ∧ name ≠ Path.above :=
  ⟨h.segment, h.notHere, h.notAbove⟩

instance (name : Name) : Decidable (EntryName name) :=
  decidable_of_iff (name ≠ [] ∧ name ≠ Path.here ∧ name ≠ Path.above ∧ Path.slash ∉ name ∧
      0 ∉ name ∧ name.length ≤ Path.maxNameLength)
    ⟨fun ⟨h₁, h₂, h₃, h₄, h₅, h₆⟩ => ⟨h₁, h₂, h₃, h₄, h₅, h₆⟩,
      fun ⟨h₁, h₂, h₃, h₄, h₅, h₆⟩ => ⟨h₁, h₂, h₃, h₄, h₅, h₆⟩⟩

namespace Node

/-- Whether every directory in a tree has distinct names, which are such of directory entries. -/
def WellFormed (node : Node) : Prop :=
  ∀ names entries, node.at? names = some (dir entries) →
    (entries.map Prod.fst).Nodup ∧ ∀ e ∈ entries, EntryName e.1

/-- Whether nothing in a tree is a link. -/
def LinkFree (node : Node) : Prop :=
  ∀ names target, node.at? names ≠ some (link target)

/-- A node stands at the end of no names. -/
lemma at?_nil (node : Node) : node.at? [] = some node := by
  cases node <;> rfl

/-- A name leads through a directory to its entry, and the others on from there. -/
lemma at?_cons_eq_some_iff {node leaf : Node} {name : Name} {names : List Name} :
    node.at? (name :: names) = some leaf ↔
      ∃ entries next, node = dir entries ∧ entries.lookup name = some next ∧
        next.at? names = some leaf := by
  cases node <;> simp [at?, Option.bind_eq_some_iff]

/-- What is looked up is an entry. -/
lemma mem_of_lookup_eq_some {entries : List (Name × Node)} {name : Name} {next : Node}
    (h : entries.lookup name = some next) : (name, next) ∈ entries := by
  obtain ⟨front, back, rfl, -⟩ := List.lookup_eq_some_iff.1 h
  exact List.mem_append_right _ List.mem_cons_self

/-- A way into a directory leads to itself, or on from one of its entries. -/
lemma eq_nil_or_exists_mem_of_at?_dir {entries : List (Name × Node)} {leaf : Node}
    {names : List Name} (h : (dir entries).at? names = some leaf) :
    names = [] ∧ leaf = dir entries ∨
      ∃ e ∈ entries, ∃ rest, names = e.1 :: rest ∧ e.2.at? rest = some leaf := by
  cases names with
  | nil => exact .inl ⟨rfl, (Option.some.inj h).symm⟩
  | cons name rest =>
    obtain ⟨_, next, heq, hnext, hleaf⟩ := at?_cons_eq_some_iff.1 h
    obtain rfl := dir.inj heq
    exact .inr ⟨(name, next), mem_of_lookup_eq_some hnext, rest, rfl, hleaf⟩

/-- A directory is well formed if its own names are such, and what its entries hold is. -/
lemma wellFormed_dir {entries : List (Name × Node)} (hdistinct : (entries.map Prod.fst).Nodup)
    (hnames : ∀ e ∈ entries, EntryName e.1) (hentries : ∀ e ∈ entries, e.2.WellFormed) :
    (dir entries).WellFormed := by
  intro names below hbelow
  rcases eq_nil_or_exists_mem_of_at?_dir hbelow with ⟨-, heq⟩ | ⟨e, he, rest, -, hrest⟩
  · obtain rfl := dir.inj heq
    exact ⟨hdistinct, hnames⟩
  · exact hentries e he rest below hrest

/-- A directory of entries without links is without links. -/
lemma linkFree_dir {entries : List (Name × Node)} (h : ∀ e ∈ entries, e.2.LinkFree) :
    (dir entries).LinkFree := by
  intro names target htarget
  rcases eq_nil_or_exists_mem_of_at?_dir htarget with ⟨-, heq⟩ | ⟨e, he, rest, -, hrest⟩
  · simp at heq
  · exact h e he rest target hrest

/-- Nothing lies below a node that is no directory. -/
lemma at?_eq_some_iff_of_not_dir {node leaf : Node} {names : List Name}
    (h : ∀ entries, node ≠ dir entries) :
    node.at? names = some leaf ↔ names = [] ∧ leaf = node := by
  cases names with
  | nil => simp [at?_nil, eq_comm]
  | cons name names =>
    rw [at?_cons_eq_some_iff]
    constructor
    · rintro ⟨entries, next, hdir, -⟩
      exact absurd hdir (h entries)
    · rintro ⟨hnames, -⟩
      simp at hnames

/-- No names lead through a file. -/
lemma at?_file_eq_some_iff {content : Bytes} {leaf : Node} {names : List Name} :
    (file content).at? names = some leaf ↔ names = [] ∧ leaf = file content :=
  at?_eq_some_iff_of_not_dir fun _ => by simp

/-- No names lead through a link. -/
lemma at?_link_eq_some_iff {target : Path} {leaf : Node} {names : List Name} :
    (link target).at? names = some leaf ↔ names = [] ∧ leaf = link target :=
  at?_eq_some_iff_of_not_dir fun _ => by simp

/-- A file is well formed. -/
lemma wellFormed_file (content : Bytes) : (file content).WellFormed := by
  intro names entries h
  obtain ⟨-, hfile⟩ := at?_file_eq_some_iff.1 h
  simp at hfile

/-- A link is well formed. -/
lemma wellFormed_link (target : Path) : (link target).WellFormed := by
  intro names entries h
  obtain ⟨-, hlink⟩ := at?_link_eq_some_iff.1 h
  simp at hlink

/-- A file is without links. -/
lemma linkFree_file (content : Bytes) : (file content).LinkFree := by
  intro names target h
  obtain ⟨-, hfile⟩ := at?_file_eq_some_iff.1 h
  simp at hfile

/-- A way in two parts. -/
lemma at?_append (node : Node) (xs ys : List Name) :
    node.at? (xs ++ ys) = (node.at? xs).bind fun next => next.at? ys := by
  induction xs generalizing node with
  | nil => simp [at?_nil]
  | cons x xs ih =>
    cases node with
    | file content => rfl
    | link target => rfl
    | dir entries =>
      simp only [List.cons_append, at?]
      cases entries.lookup x with
      | none => rfl
      | some next => exact ih next

/-- Names in two parts lead through what the first part leads to. -/
lemma at?_append_eq_some_iff {node leaf : Node} {xs ys : List Name} :
    node.at? (xs ++ ys) = some leaf ↔
      ∃ next, node.at? xs = some next ∧ next.at? ys = some leaf := by
  rw [at?_append, Option.bind_eq_some_iff]

/-- What names lead to in a well-formed node is well formed. -/
lemma WellFormed.of_at? {node next : Node} {names : List Name} (h : node.WellFormed)
    (hnext : node.at? names = some next) : next.WellFormed := by
  intro rest entries hentries
  exact h (names ++ rest) entries (at?_append_eq_some_iff.2 ⟨next, hnext, hentries⟩)

/-- What names lead to in a node without links is without links. -/
lemma LinkFree.of_at? {node next : Node} {names : List Name} (h : node.LinkFree)
    (hnext : node.at? names = some next) : next.LinkFree := by
  intro rest target htarget
  exact h (names ++ rest) target (at?_append_eq_some_iff.2 ⟨next, hnext, htarget⟩)

/-- The names on a way are names of directory entries. -/
lemma WellFormed.entryName {node leaf : Node} {names : List Name} (h : node.WellFormed)
    (hleaf : node.at? names = some leaf) : ∀ name ∈ names, EntryName name := by
  induction names generalizing node with
  | nil => simp
  | cons name names ih =>
    obtain ⟨entries, next, rfl, hnext, hleaf⟩ := at?_cons_eq_some_iff.1 hleaf
    have hwell : next.WellFormed := by
      have hnext' : (dir entries).at? [name] = some next :=
        at?_cons_eq_some_iff.2 ⟨entries, next, rfl, hnext, at?_nil next⟩
      exact h.of_at? hnext'
    rw [List.forall_mem_cons]
    exact ⟨(h [] entries (at?_nil _)).2 _ (mem_of_lookup_eq_some hnext), ih hwell hleaf⟩

/-- Names that lead through a well-formed node stand between slashes. -/
lemma WellFormed.segment {node leaf : Node} {names : List Name} (h : node.WellFormed)
    (hleaf : node.at? names = some leaf) : ∀ name ∈ names, Path.Segment name :=
  fun name hname => (h.entryName hleaf name hname).segment

end Node

end ClasspathIndex
