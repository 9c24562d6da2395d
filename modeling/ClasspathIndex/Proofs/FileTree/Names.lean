import Mathlib
import ClasspathIndex.FileTree.Path

/-!
# Relative paths by names

A relative path is written as names with slashes between them (`Path.ofNames`).  Joined to
another path, its names are the last pieces, and going from entry to entry joins one name after
the other.
-/

namespace ClasspathIndex

namespace Path

/-- The relative path of a sequence of names. -/
def ofNames (names : List Name) : Path :=
  ⟨[slash].intercalate names⟩

/-- What stands between two slashes. -/
def Segment (name : Name) : Prop :=
  name ≠ [] ∧ slash ∉ name

variable {p q : Path} {name : Name} {names rest : List Name}

/-! ### Names and bytes -/

/-- The path of one name is this name. -/
lemma bytes_ofNames_singleton (name : Name) : (ofNames [name]).bytes = name := by
  simp [ofNames, List.intercalate]

/-- A slash stands behind the first of several names. -/
lemma bytes_ofNames_cons (name : Name) (h : names ≠ []) :
    (ofNames (name :: names)).bytes = name ++ slash :: (ofNames names).bytes := by
  obtain ⟨next, names, rfl⟩ := List.exists_cons_of_ne_nil h
  simp [ofNames, List.intercalate]

/-- A slash stands between two sequences of names. -/
lemma bytes_ofNames_append (h : names ≠ []) (hrest : rest ≠ []) :
    (ofNames (names ++ rest)).bytes = (ofNames names).bytes ++ slash :: (ofNames rest).bytes := by
  induction names with
  | nil => exact absurd rfl h
  | cons name names ih =>
    by_cases hnames : names = []
    · subst hnames
      rw [List.singleton_append, bytes_ofNames_cons name hrest, bytes_ofNames_singleton]
    · rw [List.cons_append, bytes_ofNames_cons name (by simp [hrest]), ih hnames,
        bytes_ofNames_cons name hnames, List.append_assoc, List.cons_append]

/-- No byte but a slash stands between the names. -/
lemma exists_mem_of_mem_ofNames {b : UInt8} (hb : b ≠ slash) (h : b ∈ (ofNames names).bytes) :
    ∃ name ∈ names, b ∈ name := by
  induction names with
  | nil => simp [ofNames, List.intercalate] at h
  | cons name names ih =>
    by_cases hnames : names = []
    · subst hnames
      rw [bytes_ofNames_singleton] at h
      exact ⟨name, by simp, h⟩
    · rw [bytes_ofNames_cons name hnames, List.mem_append, List.mem_cons] at h
      rcases h with h | h | h
      · exact ⟨name, by simp, h⟩
      · exact absurd h hb
      · obtain ⟨other, hother, h⟩ := ih h
        exact ⟨other, List.mem_cons_of_mem _ hother, h⟩

/-- The pieces of a path of names are these names. -/
lemma pieces_ofNames (hne : names ≠ []) (h : ∀ name ∈ names, slash ∉ name) :
    (ofNames names).pieces = names :=
  List.splitOn_intercalate slash h hne

/-- A path is that of its pieces. -/
lemma ofNames_pieces (p : Path) : ofNames p.pieces = p := by
  unfold ofNames pieces
  rw [List.intercalate_splitOn]

/-- A path of names is relative. -/
lemma isAbsolute_ofNames (h : ∀ name ∈ names, Segment name) :
    (ofNames names).isAbsolute = false := by
  cases names with
  | nil => rfl
  | cons name names =>
    obtain ⟨hnil, hslash⟩ := h name (by simp)
    obtain ⟨b, bs, rfl⟩ := List.exists_cons_of_ne_nil hnil
    have hb : b ≠ slash := fun hb => hslash (by simp [hb])
    by_cases hnames : names = []
    · subst hnames
      simp [isAbsolute, bytes_ofNames_singleton, hb]
    · simp [isAbsolute, bytes_ofNames_cons _ hnames, hb]

/-- A path of names does not end in a slash. -/
lemma exists_bytes_ofNames_eq_concat (hne : names ≠ []) (h : ∀ name ∈ names, Segment name) :
    ∃ bs b, (ofNames names).bytes = bs ++ [b] ∧ b ≠ slash := by
  obtain ⟨names, name, rfl⟩ := List.eq_nil_or_concat' names |>.resolve_left hne
  obtain ⟨hnil, hslash⟩ := h name (by simp)
  obtain ⟨bs, b, rfl⟩ := List.eq_nil_or_concat' name |>.resolve_left hnil
  have hb : b ≠ slash := fun hb => hslash (by simp [hb])
  by_cases hnames : names = []
  · subst hnames
    exact ⟨bs, b, bytes_ofNames_singleton _, hb⟩
  · refine ⟨(ofNames names).bytes ++ slash :: bs, b, ?_, hb⟩
    rw [bytes_ofNames_append hnames (by simp), bytes_ofNames_singleton]
    simp

/-! ### Joined paths -/

/-- The bytes of the second path are among those of the joined one. -/
lemma mem_join_of_mem {b : UInt8} (h : b ∈ q.bytes) : b ∈ (p.join q).bytes := by
  unfold join
  split
  · exact h
  split <;> simp [h]

/-- A relative path is put behind the other, with a slash between them. -/
lemma bytes_join (hp : p.bytes ≠ []) (hq : q.isAbsolute = false) :
    (p.join q).bytes =
      if p.bytes.getLast? = some slash then p.bytes ++ q.bytes
      else p.bytes ++ slash :: q.bytes := by
  unfold join
  rw [hq, List.isEmpty_eq_false_iff.2 hp]
  simp only [Bool.or_self, Bool.false_eq_true, if_false, beq_iff_eq]
  split <;> rfl

/-- All relative paths are put behind the same bytes. -/
lemma bytes_join_eq_append (hp : p.bytes ≠ []) (hq : q.isAbsolute = false) :
    (p.join q).bytes = (p.join ⟨[]⟩).bytes ++ q.bytes := by
  have hempty : (⟨[]⟩ : Path).isAbsolute = false := rfl
  rw [bytes_join hp hq, bytes_join hp hempty]
  split <;> simp

/-- A path that a relative one is joined to stays absolute or relative. -/
lemma isAbsolute_join (hp : p.bytes ≠ []) (hq : q.isAbsolute = false) :
    (p.join q).isAbsolute = p.isAbsolute := by
  obtain ⟨b, bs, hb⟩ := List.exists_cons_of_ne_nil hp
  unfold isAbsolute
  rw [bytes_join hp hq, hb]
  split <;> rfl

/-- The pieces of a relative path are the last ones of a joined path. -/
lemma exists_pieces_join (p : Path) (hq : q.isAbsolute = false) :
    ∃ cs, (p.join q).pieces = cs ++ q.pieces ∧ (p.pieces = cs ∨ p.pieces = cs ++ [[]]) := by
  by_cases hp : p.bytes = []
  · refine ⟨[], ?_, .inr ?_⟩
    · simp [join, hp]
    · simp [pieces, hp]
  unfold pieces
  rw [bytes_join hp hq]
  split
  · rename_i hlast
    obtain ⟨bs, hbytes⟩ := List.getLast?_eq_some_iff.1 hlast
    refine ⟨bs.splitOn slash, ?_, .inr ?_⟩
    · rw [hbytes, List.append_assoc, List.singleton_append, List.splitOn_append_cons_self]
    · rw [hbytes, List.splitOn_append_cons_self]
      rfl
  · exact ⟨p.bytes.splitOn slash, List.splitOn_append_cons_self _ _, .inl rfl⟩

/-- The path of an entry is joined with its name. -/
lemma child_eq_join (p : Path) (name : Name) : p.child name = p.join (ofNames [name]) := by
  simp [child, ofNames, List.intercalate]

/-- The path of an entry has one name more. -/
lemma child_join_ofNames (hp : p.bytes ≠ []) (hnames : ∀ n ∈ names, Segment n)
    (hname : Segment name) :
    (p.join (ofNames names)).child name = p.join (ofNames (names ++ [name])) := by
  have hrelative := isAbsolute_ofNames hnames
  have hentry : (ofNames [name]).isAbsolute = false := isAbsolute_ofNames (by simpa using hname)
  have hall : (ofNames (names ++ [name])).isAbsolute = false :=
    isAbsolute_ofNames fun n hn => by
      rcases List.mem_append.1 hn with hn | hn
      · exact hnames n hn
      · exact List.mem_singleton.1 hn ▸ hname
  have hbytes := bytes_join hp hrelative
  have hjoined : (p.join (ofNames names)).bytes ≠ [] := by
    rw [hbytes]
    split <;> simp [hp]
  have heq : ((p.join (ofNames names)).join (ofNames [name])).bytes =
      (p.join (ofNames (names ++ [name]))).bytes := by
    rw [bytes_join hjoined hentry, bytes_join hp hall, hbytes]
    by_cases hnil : names = []
    · subst hnil
      have hempty : (ofNames []).bytes = [] := rfl
      rw [hempty, List.nil_append]
      by_cases hlast : p.bytes.getLast? = some slash
      · simp [hlast]
      · simp [hlast]
    · obtain ⟨bs, b, hend, hb⟩ := exists_bytes_ofNames_eq_concat hnil hnames
      rw [bytes_ofNames_append hnil (by simp), hend]
      have hslash : (slash :: (bs ++ [b])).getLast? = some b := by
        rw [← List.cons_append, List.getLast?_concat]
      by_cases hlast : p.bytes.getLast? = some slash
      · simp [hlast, hb]
      · simp [hlast, hb, hslash]
  rw [child_eq_join]
  exact congrArg Path.mk heq

/-- Going from entry to entry joins all names. -/
lemma foldl_child_join_ofNames (hp : p.bytes ≠ []) (hnames : ∀ n ∈ names, Segment n)
    (hrest : ∀ n ∈ rest, Segment n) :
    rest.foldl child (p.join (ofNames names)) = p.join (ofNames (names ++ rest)) := by
  induction rest generalizing names with
  | nil => rw [List.foldl_nil, List.append_nil]
  | cons name rest ih =>
    rw [List.forall_mem_cons] at hrest
    have hmore : ∀ n ∈ names ++ [name], Segment n := fun n hn => by
      rcases List.mem_append.1 hn with hn | hn
      · exact hnames n hn
      · exact List.mem_singleton.1 hn ▸ hrest.1
    rw [List.foldl_cons, child_join_ofNames hp hnames hrest.1, ih hmore hrest.2, List.append_assoc,
      List.singleton_append]

/-- Going from entry to entry is joining the names to the path. -/
lemma foldl_child_eq_join (hp : p.bytes ≠ []) (hne : names ≠ []) (hnames : ∀ n ∈ names, Segment n) :
    names.foldl child p = p.join (ofNames names) := by
  obtain ⟨name, names, rfl⟩ := List.exists_cons_of_ne_nil hne
  rw [List.forall_mem_cons] at hnames
  rw [List.foldl_cons, child_eq_join,
    foldl_child_join_ofNames hp (by simpa using hnames.1) hnames.2, List.singleton_append]

/-- A path is not longer than one with more names. -/
lemma length_join_ofNames_le (hp : p.bytes ≠ []) (hnames : ∀ n ∈ names ++ rest, Segment n) :
    (p.join (ofNames names)).bytes.length ≤ (p.join (ofNames (names ++ rest))).bytes.length := by
  have hfirst : ∀ n ∈ names, Segment n := fun n hn => hnames n (List.mem_append_left _ hn)
  rw [bytes_join hp (isAbsolute_ofNames hfirst), bytes_join hp (isAbsolute_ofNames hnames)]
  have hle : (ofNames names).bytes.length ≤ (ofNames (names ++ rest)).bytes.length := by
    by_cases hnil : names = []
    · subst hnil
      exact Nat.zero_le _
    · by_cases hrest : rest = []
      · rw [hrest, List.append_nil]
      · rw [bytes_ofNames_append hnil hrest, List.length_append]
        exact Nat.le_add_right _ _
  split
  · simpa using hle
  · simpa using hle

/-- If a path is not too long, neither is one with fewer names. -/
lemma isTooLong_join_ofNames (hp : p.bytes ≠ []) (hnames : ∀ n ∈ names ++ rest, Segment n)
    (h : (p.join (ofNames (names ++ rest))).isTooLong = false) :
    (p.join (ofNames names)).isTooLong = false := by
  have hle := length_join_ofNames_le hp hnames
  unfold isTooLong at h ⊢
  rw [decide_eq_false_iff_not] at h ⊢
  intro hlt
  exact h (lt_of_lt_of_le hlt hle)

end Path

end ClasspathIndex
