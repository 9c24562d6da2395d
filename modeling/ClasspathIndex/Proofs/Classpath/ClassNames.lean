import ClasspathIndex.Classpath.Scan
import ClasspathIndex.Proofs.FileTree.Names
import ClasspathIndex.Proofs.QualifiedName
import ClasspathIndex.Proofs.Text.Utf8

/-!
# Names of classes and of their files

The class with the internal name `a/b/C` has the full name `a.b.C`, and its file is `C.class` in
the directory `a/b` of its root.  So a namespace selects a class by its full name
(`Namespace.Selects`) exactly if the names on the way to its file start with those of the
namespace (`Namespace.selects_dotted_iff`), and exactly if the path of its file starts with the
slashed namespace and a slash (`startsWith_slash_classFile_iff`).
-/

namespace ClasspathIndex

open Text

/-! ### Files of classes -/

/-- What can be the internal name of a class that has a file: segments without dots, the last of
which is not reserved for other files. -/
structure InternalName (internal : String) : Prop where
  segments : ∀ segment ∈ internal.toList.splitOn '/', segment ≠ [] ∧ '.' ∉ segment
  last : ∀ stem ∈ ["module-info", "package-info"],
    (internal.toList.splitOn '/').getLast? ≠ some stem.toList

/-- The path of the file of a class in its root. -/
def classFile (internal : String) : String :=
  internal ++ Scan.classSuffix

/-- The names on the way that a text gives as a path. -/
def namesOf (text : String) : List Name :=
  (Path.ofString text).pieces

/-- The names on the way are the encoded segments of the text. -/
lemma namesOf_eq (text : String) :
    namesOf text = (text.toList.splitOn '/').map fun segment =>
      Utf8.encode (String.ofList segment) :=
  Utf8.splitOn_encode (by decide) text

/-- A text is told by the names on its way. -/
lemma namesOf_injective : Function.Injective namesOf := by
  intro s t h
  have hpath : Path.ofString s = Path.ofString t := by
    rw [← Path.ofNames_pieces (Path.ofString s), ← Path.ofNames_pieces (Path.ofString t)]
    exact congrArg Path.ofNames h
  exact Utf8.encode_injective (Path.mk.inj hpath)

/-- An internal name is told by the text of its class file. -/
lemma classFile_injective : Function.Injective classFile := by
  intro s t h
  rw [← String.toList_inj] at h ⊢
  simpa [classFile] using h

/-- An internal name holds no dot. -/
lemma InternalName.not_mem {internal : String} (h : InternalName internal) :
    '.' ∉ internal.toList := by
  intro hdot
  have hne : '.' ≠ '/' := by decide
  obtain ⟨segment, hsegment, hmem⟩ := (exists_mem_splitOn_iff hne).2 hdot
  exact (h.segments segment hsegment).2 hmem

/-- A class file has its ending on the last segment. -/
lemma InternalName.exists_last {internal : String} (h : InternalName internal) :
    ∃ segments last, last ≠ [] ∧ last ≠ "module-info".toList ∧ last ≠ "package-info".toList ∧
      (classFile internal).toList.splitOn '/' = segments ++ [last ++ Scan.classSuffix.toList] := by
  obtain ⟨segments, last, -, happend⟩ := exists_splitOn_append internal.toList
  have hsplit : internal.toList.splitOn '/' = segments ++ [last] := by
    have hnil := happend [] (by simp)
    rwa [List.append_nil, List.append_nil] at hnil
  have hlast (stem : String) (hstem : stem ∈ ["module-info", "package-info"]) :
      last ≠ stem.toList := by
    intro heq
    exact h.last stem hstem (by rw [hsplit, List.getLast?_concat, heq])
  refine ⟨segments, last, ?_, hlast _ (by simp), hlast _ (by simp), ?_⟩
  · exact (h.segments last (by rw [hsplit]; simp)).1
  · rw [classFile, String.toList_append]
    exact happend _ (by decide)

/-- The last name on a way is that of a class file. -/
def isClassEntry (names : List Name) : Bool :=
  match names.getLast?.bind Utf8.decode? with
  | some name => Scan.isClassFileName name
  | none => false

/-- The name of a member after its last slash is the last name on the way to it. -/
lemma isClassEntry_namesOf (text : String) :
    isClassEntry (namesOf text) = Scan.isClassFileName (Scan.memberFileName text) := by
  have hlast : (namesOf text).getLast? = some (Utf8.encode (Scan.memberFileName text)) := by
    rw [namesOf_eq]
    unfold Scan.memberFileName
    cases h : breakLast '/' text.toList with
    | none =>
      rw [List.splitOn_eq_singleton (breakLast_eq_none.1 h)]
      simp
    | some p =>
      obtain ⟨front, last⟩ := p
      obtain ⟨htext, hlast⟩ := breakLast_eq_some.1 h
      rw [htext, List.splitOn_append_cons_self, List.splitOn_eq_singleton hlast]
      simp
  unfold isClassEntry
  rw [hlast, Option.bind_some, Utf8.decode?_encode]

/-- The file of a class is an entry with the name of a class file. -/
lemma isClassEntry_classFile {internal : String} (h : InternalName internal) :
    isClassEntry (namesOf (classFile internal)) = true := by
  obtain ⟨segments, last, hnil, hmodule, hpackage, hsplit⟩ := h.exists_last
  unfold isClassEntry
  rw [namesOf_eq, hsplit, List.map_append, List.map_singleton, List.getLast?_concat,
    Option.bind_some, Utf8.decode?_encode]
  have hsuffix : Scan.hasClassSuffix (last ++ Scan.classSuffix.toList) = true := by
    have hlength : 0 < last.length := List.length_pos_iff.2 hnil
    have hstem : (last ++ Scan.classSuffix.toList).length - Scan.classSuffix.length =
        last.length := by
      rw [List.length_append, String.length_toList, Nat.add_sub_cancel]
    unfold Scan.hasClassSuffix
    simp only [hstem, List.drop_left, decide_eq_true hlength, Bool.true_and]
    exact beq_self_eq_true _
  have hnames : String.ofList (last ++ Scan.classSuffix.toList) ∉ Scan.nonClassFiles := by
    intro hmem
    have hstem (stem : String) (hne : last ≠ stem.toList) :
        String.ofList (last ++ Scan.classSuffix.toList) ≠ stem ++ Scan.classSuffix := by
      intro heq
      rw [← String.toList_inj, String.toList_ofList, String.toList_append,
        List.append_left_inj] at heq
      exact hne heq
    rcases List.mem_pair.1 hmem with heq | heq
    · exact hstem _ hmodule heq
    · exact hstem _ hpackage heq
  simp only [Scan.isClassFileName, String.toList_ofList, hsuffix, Bool.true_and]
  simpa using hnames

/-! ### Namespaces -/

/-- Segments are told by their bytes. -/
lemma encodeSegment_injective :
    Function.Injective fun segment : List Char => Utf8.encode (String.ofList segment) := by
  intro s t h
  exact String.ofList_injective (Utf8.encode_injective h)

/-- A text starts with another if it goes on from there. -/
lemma startsWith_iff {start text : String} :
    Root.startsWith start text = true ↔ ∃ rest, text = start ++ rest := by
  unfold Root.startsWith
  rw [List.isPrefixOf_iff_prefix]
  constructor
  · intro h
    obtain ⟨rest, hrest⟩ := h
    exact ⟨String.ofList rest, by rw [← String.toList_inj]; simpa using hrest.symm⟩
  · intro h
    obtain ⟨rest, rfl⟩ := h
    exact ⟨rest.toList, by simp⟩

/-- A text starts with a directory if a slash and something else follow it. -/
lemma startsWith_slash_iff (base text : String) :
    Root.startsWith (base ++ "/") text = true ↔
      ∃ rest, text.toList = base.toList ++ '/' :: rest := by
  rw [startsWith_iff]
  constructor
  · intro h
    obtain ⟨rest, rfl⟩ := h
    exact ⟨rest.toList, by simp⟩
  · intro h
    obtain ⟨rest, hrest⟩ := h
    exact ⟨String.ofList rest, by rw [← String.toList_inj, hrest]; simp⟩

/-- A text starts with another one and a slash exactly if the names on its way do so. -/
lemma startsWith_slash_iff_namesOf (base text : String) :
    Root.startsWith (base ++ "/") text = true ↔
      ∃ rest, rest ≠ [] ∧ namesOf text = namesOf base ++ rest := by
  rw [startsWith_slash_iff, exists_append_cons_iff, namesOf_eq, namesOf_eq]
  constructor
  · rintro ⟨segments, hne, h⟩
    exact ⟨segments.map _, by simpa using hne, by rw [h, List.map_append]⟩
  · rintro ⟨rest, hne, h⟩
    obtain ⟨front, segments, hsplit, hfront, rfl⟩ := List.map_eq_append_iff.1 h
    rw [List.map_injective_iff.2 encodeSegment_injective hfront] at hsplit
    exact ⟨segments, by simpa using hne, hsplit⟩

/-- The ending of a class file is not what a directory is told by. -/
lemma startsWith_slash_classFile_iff (base internal : String) :
    Root.startsWith (base ++ "/") (classFile internal) = true ↔
      ∃ rest, internal = base ++ "/" ++ rest := by
  have hsuffix : '/' ∉ Scan.classSuffix.toList := by decide
  rw [startsWith_slash_iff, classFile, String.toList_append, exists_append_append_cons_iff hsuffix]
  constructor
  · rintro ⟨rest, h⟩
    exact ⟨String.ofList rest, by rw [← String.toList_inj]; simpa using h⟩
  · rintro ⟨rest, rfl⟩
    exact ⟨rest.toList, by simp⟩

namespace Namespace

/-- Whether a namespace selects a full name: it is empty, or the name starts with it and a dot. -/
def Selects (namespaceName name : String) : Prop :=
  namespaceName = "" ∨ ∃ rest, name = namespaceName ++ "." ++ rest

/-- The names on the way to the directory of a slashed namespace. -/
def directory (base : String) : List Name :=
  if base = "" then [] else namesOf base

variable {b base internal : String}

/-- What a segment of a namespace is: a text without slashes, backslashes and blanks that is not
empty. -/
def IsSegment (segment : List Char) : Prop :=
  segment ≠ [] ∧ ∀ c ∈ segment, c ≠ '/' ∧ c ≠ '\\' ∧ isBlank c = false

/-- What a namespace is: nothing, or segments with dots between them. -/
def Accepted (b : String) : Prop :=
  b = "" ∨ ∀ segment ∈ b.toList.splitOn '.', IsSegment segment

/-- A segment has no fault exactly if it is one. -/
lemma segmentFault_eq_none_iff {segment : List Char} :
    segmentFault segment = none ↔ IsSegment segment := by
  unfold segmentFault IsSegment
  split
  · rename_i hempty
    simp [List.isEmpty_iff.1 hempty]
  split
  · rename_i hnil hillegal
    obtain ⟨c, hc, hfault⟩ := List.any_eq_true.1 hillegal
    simp only [reduceCtorEq, false_iff, not_and]
    intro _ hall
    obtain ⟨hslash, hbackslash, hblank⟩ := hall c hc
    simp [hslash, hbackslash, hblank] at hfault
  · rename_i hnil hlegal
    simp only [true_iff]
    refine ⟨by simpa using hnil, fun c hc => ?_⟩
    have hgood := fun hfault => hlegal (List.any_eq_true.2 ⟨c, hc, hfault⟩)
    simpa [and_assoc] using hgood

/-- The accepted namespaces are turned into their slashed forms. -/
lemma path_eq_ok_iff : path b = .ok base ↔ Accepted b ∧ base = QualifiedName.slashed b := by
  unfold path Accepted
  split
  · rename_i hempty
    obtain rfl := String.isEmpty_iff.1 hempty
    have hslashed : QualifiedName.slashed "" = "" := rfl
    simp [hslashed, eq_comm]
  · rename_i hempty
    have hb : b ≠ "" := fun hb => hempty (String.isEmpty_iff.2 hb)
    split
    · rename_i fault hfault
      obtain ⟨segment, hsegment, hfound⟩ := List.exists_of_findSome?_eq_some hfault
      simp only [reduceCtorEq, false_iff, not_and]
      rintro (rfl | hall)
      · exact absurd rfl hb
      · rw [segmentFault_eq_none_iff.2 (hall segment hsegment)] at hfound
        simp at hfound
    · rename_i hnone
      have hall : ∀ segment ∈ b.toList.splitOn '.', IsSegment segment := fun segment hsegment =>
        segmentFault_eq_none_iff.1 (List.findSome?_eq_none_iff.1 hnone segment hsegment)
      rw [Except.ok.injEq, and_iff_right (.inr hall), eq_comm]

/-- A namespace that is accepted has segments without slashes. -/
lemma path_eq_ok (h : path b = .ok base) :
    (b = "" ∧ base = "") ∨ (b ≠ "" ∧ base = QualifiedName.slashed b ∧
      ∀ segment ∈ b.toList.splitOn '.', segment ≠ [] ∧ '/' ∉ segment) := by
  obtain ⟨haccepted, rfl⟩ := path_eq_ok_iff.1 h
  by_cases hb : b = ""
  · subst hb
    exact .inl ⟨rfl, rfl⟩
  · refine .inr ⟨hb, rfl, fun segment hsegment => ?_⟩
    obtain ⟨hnil, hchars⟩ := haccepted.resolve_left hb segment hsegment
    exact ⟨hnil, fun hslash => (hchars '/' hslash).1 rfl⟩

/-- A text whose segments hold no slash holds none. -/
lemma slash_not_mem (hsegments : ∀ segment ∈ b.toList.splitOn '.', segment ≠ [] ∧ '/' ∉ segment) :
    '/' ∉ b.toList := by
  intro hslash
  have hne : '/' ≠ '.' := by decide
  obtain ⟨segment, hsegment, hmem⟩ := (exists_mem_splitOn_iff hne).2 hslash
  exact (hsegments segment hsegment).2 hmem

/-- A namespace that is not empty is not so with slashes either. -/
lemma slashed_ne_empty (h : b ≠ "") : QualifiedName.slashed b ≠ "" := by
  intro hslashed
  rw [← String.toList_inj, QualifiedName.toList_slashed] at hslashed
  exact h (by rw [← String.toList_inj]; simpa using hslashed)

/-- The slashes of an accepted namespace stand where its dots stood. -/
lemma splitOn_of_path (h : path b = .ok base) :
    base.toList.splitOn '/' = b.toList.splitOn '.' := by
  rcases path_eq_ok h with ⟨rfl, rfl⟩ | ⟨-, rfl, hsegments⟩
  · rfl
  · rw [QualifiedName.toList_slashed, splitOn_map_replace (slash_not_mem hsegments)]

/-- The names of a namespace are the texts between its dots. -/
lemma directory_eq (h : path b = .ok base) (hb : b ≠ "") :
    directory base = (b.toList.splitOn '.').map fun segment =>
      Utf8.encode (String.ofList segment) := by
  have hbase : base ≠ "" := by
    rw [(path_eq_ok_iff.1 h).2]
    exact slashed_ne_empty hb
  rw [directory, if_neg hbase, namesOf_eq, splitOn_of_path h]

/-- The directory of a namespace is named by segments without slashes and dots. -/
lemma exists_segment_of_mem_directory (h : path b = .ok base) {name : Name}
    (hname : name ∈ directory base) :
    ∃ segment, name = Utf8.encode (String.ofList segment) ∧ segment ≠ [] ∧ '/' ∉ segment ∧
      '.' ∉ segment := by
  rcases path_eq_ok h with ⟨-, rfl⟩ | ⟨hb, -, hsegments⟩
  · simp [directory] at hname
  · rw [directory_eq h hb, List.mem_map] at hname
    obtain ⟨segment, hsegment, rfl⟩ := hname
    obtain ⟨hnil, hslash⟩ := hsegments segment hsegment
    exact ⟨segment, rfl, hnil, hslash, not_mem_of_mem_splitOn hsegment⟩

/-- The names of a namespace are names of directories. -/
lemma segment_directory (h : path b = .ok base) :
    ∀ name ∈ directory base, Path.Segment name ∧ name ≠ Path.here ∧ name ≠ Path.above := by
  intro name hname
  obtain ⟨segment, rfl, hnil, hslash, hdot⟩ := exists_segment_of_mem_directory h hname
  have hbyte (c : Char) (hc : c.toNat < 128) (hmem : c ∉ segment) :
      c.toUInt8 ∉ Utf8.encode (String.ofList segment) := by
    rw [Utf8.mem_encode_iff hc, String.toList_ofList]
    exact hmem
  refine ⟨⟨?_, hbyte '/' (by decide) hslash⟩, ?_, ?_⟩
  · intro hempty
    have heq : Utf8.encode (String.ofList segment) = Utf8.encode (String.ofList []) := by
      rw [hempty]
      rfl
    exact hnil (encodeSegment_injective heq)
  · intro hhere
    exact hbyte '.' (by decide) hdot (by rw [hhere]; decide)
  · intro habove
    exact hbyte '.' (by decide) hdot (by rw [habove]; decide)

/-- The members below a namespace are those whose names go through its directory. -/
lemma startsWith_memberPrefix_iff (h : path b = .ok base) (text : String) :
    Root.startsWith (Root.memberPrefix base) text = true ↔
      ∃ rest, rest ≠ [] ∧ namesOf text = directory base ++ rest := by
  rcases path_eq_ok h with ⟨-, rfl⟩ | ⟨hb, rfl, -⟩
  · have hnames : namesOf text ≠ [] := List.splitOn_ne_nil _ _
    simp [Root.startsWith, Root.memberPrefix, directory, hnames]
  · have hbase := slashed_ne_empty hb
    rw [Root.memberPrefix, if_neg (by simpa using hbase), directory, if_neg hbase]
    exact startsWith_slash_iff_namesOf _ _

/-- A class is selected if and only if its file is below the directory of the namespace. -/
lemma selects_dotted_iff (h : path b = .ok base) (hinternal : InternalName internal) :
    Selects b (QualifiedName.dotted internal) ↔
      ∃ rest, rest ≠ [] ∧ namesOf (classFile internal) = directory base ++ rest := by
  rw [← startsWith_memberPrefix_iff h]
  rcases path_eq_ok h with ⟨rfl, rfl⟩ | ⟨hb, rfl, hsegments⟩
  · simp [Selects, Root.startsWith, Root.memberPrefix]
  · have hbase := slashed_ne_empty hb
    rw [Root.memberPrefix, if_neg (by simpa using hbase), startsWith_slash_classFile_iff, Selects,
      or_iff_right hb]
    exact QualifiedName.dotted_eq_append_iff hinternal.not_mem (slash_not_mem hsegments)

end Namespace

end ClasspathIndex
