import ClasspathIndex.Proofs.Classpath.Scanned
import ClasspathIndex.Proofs.FileTree.Order

/-!
# The files of a directory walk

A walk enters the directory that it starts from, and from there every directory that is an entry
of an entered one; a link is no such entry, whatever it leads to (`Scan.Enters`).  It yields the
class files that are entries of the entered directories and can be read, links to files among
them, and it does so in strictly increasing order of their paths
(`Scan.mem_below_iff_and_pairwise`).
-/

namespace ClasspathIndex

open Text

namespace Path

variable {p : Path} {names rest : List Name}

/-- The path of an entry is not shorter than that of its directory. -/
lemma length_le_child (hp : p.bytes ≠ []) {name : Name} (hname : Segment name) :
    p.bytes.length ≤ (p.child name).bytes.length := by
  have hrelative : (ofNames [name]).isAbsolute = false :=
    isAbsolute_ofNames fun n hn => List.mem_singleton.1 hn ▸ hname
  rw [child_eq_join, bytes_join hp hrelative]
  split <;> simp

/-- The path of an entry is not empty. -/
lemma bytes_child_ne_nil {name : Name} (hname : name ≠ []) : (p.child name).bytes ≠ [] := by
  obtain ⟨b, hb⟩ := List.exists_mem_of_ne_nil name hname
  exact List.ne_nil_of_mem (mem_join_of_mem hb)

/-- A path that goes on with names is not empty. -/
lemma bytes_foldl_child_ne_nil (hp : p.bytes ≠ []) (hnames : ∀ n ∈ names, Segment n) :
    (names.foldl child p).bytes ≠ [] := by
  induction names generalizing p with
  | nil => exact hp
  | cons name names ih =>
    rw [List.forall_mem_cons] at hnames
    exact ih (bytes_child_ne_nil hnames.1.1) hnames.2

/-- If the path of an entry is not too long, neither is that of its directory. -/
lemma isTooLong_foldl_child (hp : p.bytes ≠ []) {name : Name}
    (hnames : ∀ n ∈ names ++ [name], Segment n)
    (h : ((names ++ [name]).foldl child p).isTooLong = false) :
    (names.foldl child p).isTooLong = false := by
  have hfront : ∀ n ∈ names, Segment n := fun n hn => hnames n (List.mem_append_left _ hn)
  have hlast : Segment name := hnames name (by simp)
  have hle := length_le_child (bytes_foldl_child_ne_nil hp hfront) hlast
  rw [List.foldl_append, List.foldl_cons, List.foldl_nil] at h
  unfold isTooLong at h ⊢
  rw [decide_eq_false_iff_not] at h ⊢
  omega

end Path

namespace Scan

/-! ### The names of class files -/

/-- What the name of a class file is: a text of more than six bytes that ends in `.class` in upper
or lower case, but neither `module-info.class` nor `package-info.class`. -/
structure ClassFileName (name : Name) (text : String) : Prop where
  encoded : Utf8.encode text = name
  length : 6 < name.length
  suffix : ∃ stem ending, text.toList = stem ++ ending ∧ ending.map Char.toLower = ".class".toList
  notModule : text ≠ "module-info.class"
  notPackage : text ≠ "package-info.class"

/-- Only ASCII characters have ASCII characters as their lower case. -/
lemma ascii_of_toLower_ascii {c : Char} (h : c.toLower.toNat < 128) : c.toNat < 128 := by
  unfold Char.toLower at h
  split at h
  · rename_i hupper
    have hle : c.toNat ≤ 'Z'.toNat := hupper.2
    exact lt_of_le_of_lt hle (by decide)
  · exact h

/-- The ending of a class file is compared without case, and something comes before it. -/
lemma hasClassSuffix_iff {cs : List Char} :
    hasClassSuffix cs = true ↔
      ∃ stem ending, stem ≠ [] ∧ cs = stem ++ ending ∧
        ending.map Char.toLower = ".class".toList := by
  unfold hasClassSuffix
  rw [Bool.and_eq_true, decide_eq_true_iff]
  constructor
  · rintro ⟨hlength, hsuffix⟩
    refine ⟨cs.take (cs.length - classSuffix.length), cs.drop (cs.length - classSuffix.length),
      ?_, (List.take_append_drop _ _).symm, ?_⟩
    · intro hnil
      have := congrArg List.length hnil
      rw [List.length_take, List.length_nil] at this
      omega
    · exact beq_iff_eq.1 hsuffix
  · rintro ⟨stem, ending, hstem, rfl, hending⟩
    have hsix : ending.length = classSuffix.length := by
      have := congrArg List.length hending
      rwa [List.length_map] at this
    have hcut : (stem ++ ending).length - classSuffix.length = stem.length := by
      rw [List.length_append, hsix, Nat.add_sub_cancel]
    rw [hcut, List.drop_left]
    refine ⟨List.length_pos_iff.2 hstem, ?_⟩
    exact beq_iff_eq.2 hending

/-- Six letters of ASCII text are six bytes. -/
lemma length_encode_of_toLower {ending : List Char} {lower : List Char}
    (h : ending.map Char.toLower = lower) (hascii : ∀ c ∈ lower, c.toNat < 128) :
    (Utf8.encode (String.ofList ending)).length = ending.length := by
  subst h
  rw [Utf8.encode_ofList]
  induction ending with
  | nil => rfl
  | cons c ending ih =>
    rw [List.map_cons, List.forall_mem_cons] at hascii
    rw [List.flatMap_cons, Utf8.utf8EncodeChar_of_ascii (ascii_of_toLower_ascii hascii.1),
      List.length_append, ih hascii.2, List.length_singleton, List.length_cons, Nat.add_comm]

/-- The name of a class file is the encoding of one. -/
lemma classFileName_iff {name : Name} {text : String} :
    ClassFileName name text ↔ Utf8.encode text = name ∧ isClassFileName text = true := by
  have hnames : nonClassFiles.contains text = false ↔
      text ≠ "module-info.class" ∧ text ≠ "package-info.class" := by
    simp [nonClassFiles]
  -- A text that ends like a class file is longer than the ending if and only if its bytes are.
  have hlength {stem ending : List Char} (htext : text.toList = stem ++ ending)
      (hending : ending.map Char.toLower = ".class".toList) :
      (Utf8.encode text).length = (Utf8.encode (String.ofList stem)).length + 6 := by
    have hparts : text = String.ofList stem ++ String.ofList ending := by
      rw [← String.toList_inj, htext]
      simp
    have hsix : ending.length = 6 := by
      have := congrArg List.length hending
      rwa [List.length_map] at this
    rw [hparts, Utf8.encode_append, List.length_append,
      length_encode_of_toLower hending (by simp), hsix]
  unfold isClassFileName
  rw [Bool.and_eq_true, Bool.not_eq_true', hnames, hasClassSuffix_iff]
  constructor
  · rintro ⟨rfl, hlong, ⟨stem, ending, htext, hending⟩, hmodule, hpackage⟩
    refine ⟨rfl, ⟨stem, ending, ?_, htext, hending⟩, hmodule, hpackage⟩
    rintro rfl
    rw [hlength htext hending, Utf8.encode_ofList, List.flatMap_nil, List.length_nil] at hlong
    omega
  · rintro ⟨rfl, ⟨stem, ending, hstem, htext, hending⟩, hmodule, hpackage⟩
    refine ⟨rfl, ?_, ⟨stem, ending, htext, hending⟩, hmodule, hpackage⟩
    rw [hlength htext hending]
    have hpos : 0 < (Utf8.encode (String.ofList stem)).length := by
      rw [List.length_pos_iff]
      intro hnil
      have hempty : Utf8.encode (String.ofList stem) = Utf8.encode (String.ofList []) := by
        rw [hnil]
        rfl
      exact hstem (String.ofList_injective (Utf8.encode_injective hempty))
    omega

/-- An entry is a class file by its own name, which is the last one. -/
lemma isClassEntry_concat_iff {names : List Name} {name : Name} :
    isClassEntry (names ++ [name]) = true ↔ ∃ text, ClassFileName name text := by
  unfold isClassEntry
  rw [List.getLast?_concat, Option.bind_some]
  simp only [classFileName_iff]
  constructor
  · intro h
    split at h
    · rename_i text htext
      exact ⟨text, Utf8.encode_of_decode? htext, h⟩
    · simp at h
  · rintro ⟨text, rfl, h⟩
    rw [Utf8.decode?_encode]
    exact h

/-! ### The directories that are entered -/

/-- The directories that a walk enters: the start, and the directories among the entries of those
entered.  A link to a directory is no directory. -/
inductive Enters (tree : FileTree) (start : Path) : Path → Prop
  | start : Enters tree start start
  | entry {p : Path} {name : Name} {entries below : List (Name × Node)} :
    Enters tree start p → tree.find p = .ok (.dir entries) → (name, .dir below) ∈ entries →
      Enters tree start (p.child name)

variable {tree : FileTree} {start p : Path} {node : Node} {entries : List (Name × Node)}
  {names : List Name} {name : Name}

/-- An entry of a directory of the tree is at the end of one name more. -/
lemma at?_concat_of_mem (hnode : node.WellFormed) (hat : node.at? names = some (.dir entries))
    {leaf : Node} (h : (name, leaf) ∈ entries) : node.at? (names ++ [name]) = some leaf := by
  have hdistinct := (hnode names entries hat).1
  have hlookup : entries.lookup name = some leaf := Node.lookup_eq_some_of_mem hdistinct h
  exact Node.at?_append_eq_some_iff.2
    ⟨_, hat, Node.at?_cons_eq_some_iff.2 ⟨entries, leaf, rfl, hlookup, Node.at?_nil _⟩⟩

/-- Names lead to the entered directories. -/
lemma Enters.exists_names (htree : tree.WellFormed) (hstart : tree.find start = .ok node)
    (h : Enters tree start p) (hp : tree.find p = .ok (.dir entries)) :
    ∃ names, p = names.foldl Path.child start ∧ node.at? names = some (.dir entries) := by
  have hnode : node.WellFormed := htree.of_find hstart
  induction h generalizing entries with
  | start =>
    obtain rfl := Except.ok.inj (hstart.symm.trans hp)
    exact ⟨[], rfl, Node.at?_nil _⟩
  | @entry q name es below _ hdir hmem ih =>
    obtain ⟨names, rfl, hat⟩ := ih hdir
    have hbelow := at?_concat_of_mem hnode hat hmem
    have hpath : (names.foldl Path.child start).child name =
        (names ++ [name]).foldl Path.child start := by
      rw [List.foldl_append]
      rfl
    refine ⟨names ++ [name], hpath, ?_⟩
    obtain ⟨hlong, -⟩ := FileTree.find_eq_ok_iff.1 hp
    rw [hpath] at hp hlong
    have hfind := FileTree.find_foldl_child htree hstart hbelow (by simp) hlong
    rw [hp] at hfind
    exact (Except.ok.inj hfind) ▸ hbelow

/-- The directories to which names lead are entered, unless their paths are too long. -/
lemma enters_foldl_child (htree : tree.WellFormed) (hstart : tree.find start = .ok node)
    (hat : node.at? names = some (.dir entries))
    (hlong : (names.foldl Path.child start).isTooLong = false) :
    Enters tree start (names.foldl Path.child start) := by
  have hnode : node.WellFormed := htree.of_find hstart
  have hnil := FileTree.bytes_ne_nil_of_find hstart
  induction names using List.reverseRecOn generalizing entries with
  | nil => exact .start
  | append_singleton front name ih =>
    obtain ⟨es, next, hfront, hnext, hlast⟩ := FileTree.exists_dir_of_at?_append_cons hat
    rw [Node.at?_nil, Option.some.injEq] at hlast
    subst hlast
    have hshort := Path.isTooLong_foldl_child hnil (hnode.segment hat) hlong
    rw [List.foldl_append]
    exact .entry (ih hfront hshort)
      (FileTree.find_foldl_child htree hstart hfront (by simp) hshort)
      (Node.mem_of_lookup_eq_some hnext)

/-! ### What is yielded -/

/-- What is found at a leaf has the path of the leaf as its origin. -/
lemma origin_of_ofLeaf {leaf : Path × Node} {f : ScannedFile} (h : ofLeaf tree leaf = some f) :
    f.origin = leaf.1 := by
  obtain ⟨q, node⟩ := leaf
  unfold ofLeaf at h
  dsimp only at h
  split at h
  · cases node with
    | file content => exact congrArg ScannedFile.origin (Option.some.inj h).symm
    | link target =>
      obtain ⟨content, -, rfl⟩ := Option.map_eq_some_iff.1 h
      rfl
    | dir entries => simp at h
  · simp at h

/-- Whether a file is one that a walk has to yield: an entry of an entered directory with the name
of a class file, which is no directory and can be read. -/
structure ClassFileBelow (tree : FileTree) (start : Path) (f : ScannedFile) : Prop where
  entry : ∃ p entries name node text, Enters tree start p ∧ tree.find p = .ok (.dir entries) ∧
    (name, node) ∈ entries ∧ f.origin = p.child name ∧ ClassFileName name text
  notDirectory : tree.isDir f.origin = false
  content : tree.readFile f.origin = .ok f.content

/-- A leaf is read by its path, whether it is a file or a link. -/
lemma ofLeaf_eq_map_readFile {q : Path} {leaf : Node} (hleaf : ∀ entries, leaf ≠ .dir entries)
    (hfile : ∀ content, leaf = .file content → q.isTooLong = false →
      tree.readFile q = .ok content) (hclass : isClassFilePath q = true) :
    ofLeaf tree (q, leaf) = (tree.readFile q).toOption.map (ScannedFile.mk q) := by
  unfold ofLeaf
  dsimp only
  rw [hclass, Bool.true_and]
  cases hlong : q.isTooLong with
  | true =>
    have hfails : (tree.readFile q).toOption = none := by
      cases hread : tree.readFile q with
      | error e => rfl
      | ok content =>
        have hshort := FileTree.isTooLong_of_readFile hread
        rw [hlong] at hshort
        exact absurd hshort (by decide)
    rw [hfails]
    rfl
  | false =>
    cases leaf with
    | file content =>
      rw [hfile content rfl hlong]
      rfl
    | link target => rfl
    | dir entries => exact absurd rfl (hleaf entries)

/-- A leaf at the end of some names gives a file, if its name is that of a class file and it can be
read. -/
lemma ofLeaf_eq_some_iff (htree : tree.WellFormed) (hstart : tree.find start = .ok node)
    {leaf : Node} (hat : node.at? (names ++ [name]) = some leaf)
    (hleaf : ∀ entries, leaf ≠ .dir entries) {f : ScannedFile} :
    ofLeaf tree ((names ++ [name]).foldl Path.child start, leaf) = some f ↔
      f.origin = (names ++ [name]).foldl Path.child start ∧ (∃ text, ClassFileName name text) ∧
        tree.readFile f.origin = .ok f.content := by
  have hnode : node.WellFormed := htree.of_find hstart
  have hnil := FileTree.bytes_ne_nil_of_find hstart
  have hclass : isClassFilePath ((names ++ [name]).foldl Path.child start) = true ↔
      ∃ text, ClassFileName name text := by
    rw [Path.foldl_child_eq_join hnil (by simp) (hnode.segment hat),
      Classpath.isClassFilePath_join_ofNames start (by simp) fun name hname =>
        (hnode.entryName hat name hname).plain,
      isClassEntry_concat_iff]
  have hfile (content : Bytes) (hcontent : leaf = .file content)
      (hlong : ((names ++ [name]).foldl Path.child start).isTooLong = false) :
      tree.readFile ((names ++ [name]).foldl Path.child start) = .ok content :=
    FileTree.readFile_eq_ok_iff.2
      (FileTree.find_foldl_child htree hstart (hcontent ▸ hat) (by simp) hlong)
  rw [← hclass]
  generalize (names ++ [name]).foldl Path.child start = q at hfile ⊢
  cases hq : isClassFilePath q with
  | false => simp [ofLeaf, hq]
  | true =>
    rw [ofLeaf_eq_map_readFile hleaf hfile hq, Option.map_eq_some_iff]
    constructor
    · rintro ⟨content, hcontent, rfl⟩
      refine ⟨rfl, rfl, ?_⟩
      cases hread : tree.readFile q with
      | error e =>
        rw [hread] at hcontent
        simp [Except.toOption] at hcontent
      | ok c =>
        rw [hread] at hcontent
        exact congrArg Except.ok (Option.some.inj hcontent)
    · rintro ⟨rfl, -, hread⟩
      refine ⟨f.content, ?_, rfl⟩
      rw [hread]
      rfl

/-- A walk yields the class files that are entries of entered directories. -/
lemma mem_below_iff_classFileBelow (htree : tree.WellFormed)
    (hstart : tree.find start = .ok (.dir entries)) {f : ScannedFile} :
    f ∈ below tree start ↔ ClassFileBelow tree start f := by
  have hnode : (Node.dir entries).WellFormed := htree.of_find hstart
  have hnil := FileTree.bytes_ne_nil_of_find hstart
  have hdirectory {q : Path} {content : Bytes} (hread : tree.readFile q = .ok content) :
      tree.isDir q = false := by
    unfold FileTree.isDir
    rw [FileTree.readFile_eq_ok_iff.1 hread]
  rw [below_of_find hstart, List.mem_filterMap]
  constructor
  · rintro ⟨⟨q, leaf⟩, hmem, hf⟩
    obtain ⟨hleaf, names, hat, rfl⟩ := (Node.mem_leaves_iff hnode).1 hmem
    obtain ⟨front, name, rfl⟩ := List.eq_nil_or_concat' names |>.resolve_left (by
      rintro rfl
      exact hleaf entries (Option.some.inj hat).symm)
    obtain ⟨horigin, ⟨text, htext⟩, hread⟩ := (ofLeaf_eq_some_iff htree hstart hat hleaf).1 hf
    obtain ⟨es, next, hfront, hnext, hlast⟩ := FileTree.exists_dir_of_at?_append_cons hat
    rw [Node.at?_nil, Option.some.injEq] at hlast
    subst hlast
    -- The path of a file that can be read is short enough, so those of its directories are.
    have hlong : (front.foldl Path.child start).isTooLong = false := by
      refine Path.isTooLong_foldl_child hnil (hnode.segment hat) ?_
      rw [← horigin]
      exact FileTree.isTooLong_of_readFile hread
    refine ⟨⟨_, es, name, next, text, enters_foldl_child htree hstart hfront hlong,
      FileTree.find_foldl_child htree hstart hfront (by simp) hlong,
      Node.mem_of_lookup_eq_some hnext, ?_, htext⟩, hdirectory hread, hread⟩
    rw [horigin, List.foldl_append]
    rfl
  · rintro ⟨⟨p, es, name, leaf, text, henters, hp, hmem, horigin, htext⟩, hdir, hread⟩
    obtain ⟨names, rfl, hfront⟩ := henters.exists_names htree hstart hp
    have hat := at?_concat_of_mem hnode hfront hmem
    have hpath : (names.foldl Path.child start).child name =
        (names ++ [name]).foldl Path.child start := by
      rw [List.foldl_append]
      rfl
    rw [hpath] at horigin
    have hleaf : ∀ below, leaf ≠ .dir below := by
      rintro below rfl
      have hlong := FileTree.isTooLong_of_readFile hread
      rw [horigin] at hlong hdir
      have hfind := FileTree.find_foldl_child htree hstart hat (by simp) hlong
      rw [FileTree.isDir_eq_true_iff.2 ⟨below, hfind⟩] at hdir
      exact absurd hdir (by decide)
    refine ⟨((names ++ [name]).foldl Path.child start, leaf), ?_, ?_⟩
    · exact (Node.mem_leaves_iff hnode).2 ⟨hleaf, _, hat, rfl⟩
    · exact (ofLeaf_eq_some_iff htree hstart hat hleaf).2 ⟨horigin, ⟨text, htext⟩, hread⟩

/-- A walk yields them in the order of their components. -/
lemma pairwise_below (htree : tree.WellFormed) (start : Path) :
    (below tree start).Pairwise fun f g => f.origin.components < g.origin.components := by
  unfold below
  cases hstart : tree.find start with
  | error e => exact List.Pairwise.nil
  | ok node =>
    have hsorted := Node.pairwise_leaves (htree.of_find hstart) start
    change (walk tree [(start, node)]).Pairwise _
    rw [walk_eq_flatMap, List.flatMap_cons, List.flatMap_nil, List.append_nil]
    refine hsorted.filterMap _ ?_
    intro a b hlt f hf g hg
    rw [origin_of_ofLeaf hf, origin_of_ofLeaf hg]
    exact hlt

/-- No path is yielded twice. -/
lemma nodup_origins_below (htree : tree.WellFormed) (start : Path) :
    ((below tree start).map ScannedFile.origin).Nodup := by
  refine List.pairwise_map.2 ((pairwise_below htree start).imp ?_)
  intro f g hlt horigin
  rw [horigin] at hlt
  exact List.lt_irrefl _ hlt

/-- A walk from a directory yields exactly the class files below it that the entered directories
hold and that can be read, each once, in strictly increasing order of their paths. -/
theorem mem_below_iff_and_pairwise (htree : tree.WellFormed) (hstart : tree.isDir start = true) :
    (∀ f, f ∈ below tree start ↔ ClassFileBelow tree start f) ∧
      ((below tree start).map ScannedFile.origin).Nodup ∧
      (below tree start).Pairwise fun f g => f.origin.components < g.origin.components := by
  obtain ⟨entries, hfind⟩ := FileTree.isDir_eq_true_iff.1 hstart
  exact ⟨fun f => mem_below_iff_classFileBelow htree hfind, nodup_origins_below htree start,
    pairwise_below htree start⟩

/-- A directory `d` with a file `A.class`, a link `L.class` to it, a link `l` to the directory
itself and a directory `s` with a file `B.CLASS`; and a link `k` to `d`. -/
def cyclicTree : FileTree where
  root := .dir
    [([107], .link ⟨[100]⟩),
      ([100], .dir
        [([108], .link ⟨[46]⟩),
          ([115], .dir [([66, 46, 67, 76, 65, 83, 83], .file [2])]),
          ([76, 46, 99, 108, 97, 115, 115], .link ⟨[65, 46, 99, 108, 97, 115, 115]⟩),
          ([65, 46, 99, 108, 97, 115, 115], .file [1])])]
  workingDirectory := []

/-- The tree with a cycle of links is well formed. -/
lemma wellFormed_cyclicTree : cyclicTree.WellFormed where
  root := ⟨_, rfl⟩
  names := by
    refine Node.wellFormed_dir (by decide) (by decide) ?_
    intro e he
    rcases List.mem_pair.1 he with rfl | rfl
    · exact Node.wellFormed_link _
    · refine Node.wellFormed_dir (by decide) (by decide) ?_
      intro e he
      simp only [List.mem_cons, List.not_mem_nil, or_false] at he
      rcases he with rfl | rfl | rfl | rfl
      · exact Node.wellFormed_link _
      · refine Node.wellFormed_dir (by decide) (by decide) ?_
        intro e he
        obtain rfl := List.mem_singleton.1 he
        exact Node.wellFormed_file _
      · exact Node.wellFormed_link _
      · exact Node.wellFormed_file _

/-- The walk of the directory that is a link into the cycle. -/
theorem mem_below_iff_and_pairwise_cyclicTree :
    cyclicTree.isDir ⟨[107]⟩ = true ∧
      (∀ f, f ∈ below cyclicTree ⟨[107]⟩ ↔ ClassFileBelow cyclicTree ⟨[107]⟩ f) ∧
      ((below cyclicTree ⟨[107]⟩).map ScannedFile.origin).Nodup ∧
      (below cyclicTree ⟨[107]⟩).Pairwise fun f g =>
        f.origin.components < g.origin.components := by
  have hstart : cyclicTree.isDir ⟨[107]⟩ = true := by decide +kernel
  exact ⟨hstart, mem_below_iff_and_pairwise wellFormed_cyclicTree hstart⟩

end Scan

end ClasspathIndex
