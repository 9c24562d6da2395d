import ClasspathIndex.Proofs.FileTree.Resolution
import ClasspathIndex.Proofs.Text.Utf8

/-!
# Paths that are text

If all names in a file tree are text, every path that leads somewhere is text as well
(`isText_of_find`): each piece on its way, those of the links included, is a name of the tree, or
one of the pieces that stand for no name.  Such paths are told apart by how they are shown
(`Path.eq_of_display_eq`).
-/

namespace ClasspathIndex

open Text

/-- Whether a byte string is that of a text. -/
def Text.Utf8.IsText (bs : Bytes) : Prop :=
  ∃ text, Utf8.encode text = bs

instance (bs : Bytes) : Decidable (Utf8.IsText bs) :=
  decidable_of_iff ((Utf8.decode? bs).isSome = true) <| by
    rw [Option.isSome_iff_exists]
    constructor
    · rintro ⟨text, htext⟩
      exact ⟨text, Utf8.encode_of_decode? htext⟩
    · rintro ⟨text, rfl⟩
      exact ⟨text, Utf8.decode?_encode text⟩

namespace Path

variable {p q : Path} {names : List Name}

/-- The path of a text is text. -/
lemma isText_ofString (text : String) : Utf8.IsText (ofString text).bytes :=
  ⟨text, rfl⟩

/-- Names that are text are joined to a text. -/
lemma isText_ofNames (h : ∀ name ∈ names, Utf8.IsText name) :
    Utf8.IsText (ofNames names).bytes := by
  induction names with
  | nil => exact ⟨"", rfl⟩
  | cons name names ih =>
    rw [List.forall_mem_cons] at h
    obtain ⟨⟨first, rfl⟩, hrest⟩ := h
    by_cases hnil : names = []
    · rw [hnil, bytes_ofNames_singleton]
      exact ⟨first, rfl⟩
    · obtain ⟨rest, hbytes⟩ := ih hrest
      refine ⟨first ++ "/" ++ rest, ?_⟩
      rw [bytes_ofNames_cons _ hnil, ← hbytes, Utf8.encode_append, Utf8.encode_append,
        List.append_assoc]
      rfl

/-- A path of pieces that are text is text. -/
lemma isText_of_pieces (h : ∀ piece ∈ p.pieces, Utf8.IsText piece) : Utf8.IsText p.bytes := by
  rw [← ofNames_pieces p]
  exact isText_ofNames h

/-- Paths that are text are shown as different texts. -/
lemma eq_of_display_eq (hp : Utf8.IsText p.bytes) (hq : Utf8.IsText q.bytes)
    (h : p.display = q.display) : p = q := by
  obtain ⟨bytes⟩ := p
  obtain ⟨bytes'⟩ := q
  obtain ⟨text, rfl⟩ := hp
  obtain ⟨text', rfl⟩ := hq
  unfold display at h
  rw [Utf8.decodeLossy_encode, Utf8.decodeLossy_encode] at h
  rw [h]

end Path

namespace Node

variable {entries : List (Name × Node)}

/-- Whether all names in a tree are text. -/
def NamesAreText (node : Node) : Prop :=
  ∀ names entries, node.at? names = some (dir entries) → ∀ e ∈ entries, Utf8.IsText e.1

/-- In a directory all names are text if those of the entries are, and those in them. -/
lemma namesAreText_dir (hnames : ∀ e ∈ entries, Utf8.IsText e.1)
    (hentries : ∀ e ∈ entries, e.2.NamesAreText) : (dir entries).NamesAreText := by
  intro names below hbelow
  rcases eq_nil_or_exists_mem_of_at?_dir hbelow with ⟨-, heq⟩ | ⟨e, he, rest, -, hrest⟩
  · obtain rfl := dir.inj heq
    exact hnames
  · exact hentries e he rest below hrest

/-- In a file there are no names. -/
lemma namesAreText_file (content : Bytes) : (file content).NamesAreText := by
  intro names entries h
  obtain ⟨-, hfile⟩ := at?_file_eq_some_iff.1 h
  simp at hfile

end Node

namespace FileTree

variable {root : Node} {follow : List Name → Path → List Bytes → Except PathError (List Name)}
  {tree : FileTree} {p : Path} {node : Node} {position : List Name} {c : Bytes} {cs : List Bytes}
  {ps : List Name}

/-- A piece of a way is the name of an entry, or stands for no name. -/
lemma entry_of_step {s : Step} (h : step root position c = .ok s) :
    ∃ entries, root.at? position = some (.dir entries) ∧
      (c = [] ∨ c = Path.here ∨ c = Path.above ∨ ∃ next, (c, next) ∈ entries) := by
  unfold step at h
  split at h
  · rename_i entries hdir
    refine ⟨entries, hdir, ?_⟩
    split at h
    · rename_i hsame
      exact hsame.imp_right .inl
    split at h
    · rename_i habove
      exact .inr (.inr (.inl habove))
    split at h
    · simp at h
    cases hnext : entries.lookup c with
    | none => simp [hnext] at h
    | some next => exact .inr (.inr (.inr ⟨next, Node.mem_of_lookup_eq_some hnext⟩))
  · simp at h
  · simp at h

/-- A component that leads somewhere is text. -/
lemma isText_of_step (hroot : root.NamesAreText) {s : Step} (h : step root position c = .ok s) :
    Utf8.IsText c := by
  obtain ⟨entries, hdir, rfl | rfl | rfl | ⟨next, hmem⟩⟩ := entry_of_step h
  · exact ⟨"", rfl⟩
  · exact ⟨".", rfl⟩
  · exact ⟨"..", rfl⟩
  · exact hroot position entries hdir _ hmem

/-- All pieces of a way that leads somewhere are text, if those after a link are. -/
lemma isText_of_descend (hroot : root.NamesAreText)
    (hfollow : ∀ position target cs, follow position target cs = .ok ps →
      ∀ piece ∈ cs, Utf8.IsText piece) (h : descend root follow position cs = .ok ps) :
    ∀ piece ∈ cs, Utf8.IsText piece := by
  induction cs generalizing position with
  | nil => simp
  | cons c cs ih =>
    rw [descend_cons] at h
    rw [List.forall_mem_cons]
    split at h
    · rename_i next hstep
      exact ⟨isText_of_step hroot hstep, ih h⟩
    · rename_i target hstep
      exact ⟨isText_of_step hroot hstep, hfollow _ _ _ h⟩
    · simp at h

/-- Every component of a way that leads somewhere is text. -/
lemma isText_of_descendLinks (hroot : root.NamesAreText) {links : Nat}
    (h : descendLinks root links position cs = .ok ps) : ∀ piece ∈ cs, Utf8.IsText piece := by
  induction links generalizing position cs with
  | zero => exact isText_of_descend hroot (fun _ _ _ h => by simp at h) h
  | succ links ih =>
    refine isText_of_descend hroot (fun position target cs hfollow piece hpiece => ?_) h
    exact ih hfollow piece (List.mem_append_right _ hpiece)

/-- A path that leads somewhere is text, if all names are. -/
lemma isText_of_find (hnames : tree.root.NamesAreText) (h : tree.find p = .ok node) :
    Utf8.IsText p.bytes := by
  obtain ⟨-, ps, hps, -⟩ := find_eq_ok_iff.1 h
  exact Path.isText_of_pieces (isText_of_descendLinks hnames (positionOf_eq_ok_iff.1 hps).2.2)

end FileTree

end ClasspathIndex
