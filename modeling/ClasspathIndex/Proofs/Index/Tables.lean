import ClasspathIndex.Index.Build
import ClasspathIndex.Proofs.Registry

/-!
# Classes and origins in two tables

A collection keeps a definition in one piece.  The loop that takes in class files can as well keep
the classes in one table and the origins in another one, both by the names of the classes.  The
origin of a class that is defined for the second time is then looked up with a default, and nothing
but the loop itself says that the default is never taken.

The tables stand for a collection if they hold its definitions in two pieces (`Tables.Represents`).
A class file taken in keeps this true or is refused with the same words (`Represents.add`), hence so
does any number of them.  So the two tables always have the same names
(`Tables.mem_origins_iff_of_addAll`), and the index that they give is the same
(`Index.map_ofTables_addAll`).
-/

namespace ClasspathIndex

/-- The classes found so far, their origins, and the class files passed over. -/
structure Tables where
  /-- The classes in the order in which they were first found. -/
  classes : Registry ClassSymbol ClassSymbol.name
  /-- The origin of the class with each name. -/
  origins : Std.HashMap String Path
  skipped : List Skipped

namespace Tables

/-- Nothing found. -/
def empty : Tables :=
  ⟨.empty, ∅, []⟩

/-- Takes in a class and its origin.  A class that is there already gives way or is kept, and what
is said of it names the origin that was there before; the empty path stands for none. -/
def define (policy : DuplicatePolicy) (t : Tables) (symbol : ClassSymbol) (origin : Path) :
    Except BuildError Tables :=
  let origins := t.origins.insert symbol.name origin
  match t.classes.find? symbol.name with
  | none => .ok ⟨t.classes.put symbol, origins, t.skipped⟩
  | some _ =>
    let previous := t.origins[symbol.name]?.getD ⟨[]⟩
    match policy with
    | .fail => .error (.duplicateClass symbol.name previous.display origin.display)
    | .lastWriteWins =>
      .ok ⟨t.classes.put symbol, origins, t.skipped ++ [⟨previous, .replaced symbol.name⟩]⟩

/-- Takes in a class file. -/
def add (policy : DuplicatePolicy) (t : Tables) (f : ScannedFile) : Except BuildError Tables :=
  match ClassFile.summary f.content with
  | .error e => .ok ⟨t.classes, t.origins, t.skipped ++ [⟨f.origin, .malformed e.message⟩]⟩
  | .ok s => t.define policy (ClassSymbol.ofSummary s) f.origin

/-- Takes in class files one after the other. -/
def addAll (policy : DuplicatePolicy) (files : List ScannedFile) : Except BuildError Tables :=
  files.foldlM (add policy) empty

/-- Whether tables hold the definitions of a collection in two pieces. -/
structure Represents (t : Tables) (c : Collection) : Prop where
  classes : t.classes.entries = c.definitions.entries.map Definition.symbol
  origins : ∀ name, t.origins[name]? = (c.definitions.find? name).map Definition.origin
  skipped : t.skipped = c.skipped

/-- Whether tables and a collection come out alike: they hold the same, or the same is refused. -/
inductive Agree : Except BuildError Tables → Except BuildError Collection → Prop
  | ok {t : Tables} {c : Collection} (h : t.Represents c) : Agree (.ok t) (.ok c)
  | error (e : BuildError) : Agree (.error e) (.error e)

variable {policy : DuplicatePolicy} {t : Tables} {c : Collection}

/-- At first there is nothing in either. -/
lemma represents_empty : empty.Represents .empty where
  classes := rfl
  origins _ := by rw [empty, Std.HashMap.getElem?_empty]; rfl
  skipped := rfl

namespace Represents

/-- The classes are found as the definitions are. -/
lemma find?_classes (h : t.Represents c) (name : String) :
    t.classes.find? name = (c.definitions.find? name).map Definition.symbol :=
  Registry.find?_eq_map (fun _ => rfl) h.classes name

/-- A definition can be put in piece by piece. -/
lemma put (h : t.Represents c) (d : Definition) (skipped : List Skipped) :
    Represents ⟨t.classes.put d.symbol, t.origins.insert d.name d.origin, skipped⟩
      ⟨c.definitions.put d, skipped⟩ where
  classes := Registry.entries_put_eq_map (fun _ => rfl) h.classes d
  origins name := by
    rw [Std.HashMap.getElem?_insert, Registry.find?_put, h.origins]
    by_cases hname : d.name = name
    · rw [if_pos (beq_iff_eq.2 hname), if_pos hname, Option.map_some]
    · rw [if_neg (by simpa using hname), if_neg hname]
  skipped := rfl

/-- A definition is taken in or refused alike.  If there is one of the same class, its origin is in
the other table, and the default is not taken. -/
lemma define (h : t.Represents c) (policy : DuplicatePolicy) (d : Definition) :
    Agree (t.define policy d.symbol d.origin) (c.define policy d) := by
  have hfind : t.classes.find? d.symbol.name =
      (c.definitions.find? d.name).map Definition.symbol := h.find?_classes d.name
  have horigin : t.origins[d.symbol.name]? =
      (c.definitions.find? d.name).map Definition.origin := h.origins d.name
  unfold Tables.define Collection.define
  rw [hfind, horigin]
  cases c.definitions.find? d.name with
  | none =>
    rw [h.skipped]
    exact .ok (h.put d c.skipped)
  | some earlier =>
    cases policy with
    | fail => exact .error _
    | lastWriteWins =>
      rw [h.skipped]
      exact .ok (h.put d _)

/-- A class file is taken in or refused alike. -/
lemma add (h : t.Represents c) (policy : DuplicatePolicy) (f : ScannedFile) :
    Agree (t.add policy f) (c.add policy f) := by
  unfold Tables.add Collection.add
  cases ClassFile.summary f.content with
  | error e =>
    refine .ok ⟨h.classes, h.origins, ?_⟩
    rw [h.skipped]
  | ok s => exact h.define policy ⟨ClassSymbol.ofSummary s, f.origin⟩

/-- Any number of class files are taken in or refused alike, one after the other. -/
lemma foldlM_add (h : t.Represents c) (policy : DuplicatePolicy) (files : List ScannedFile) :
    Agree (files.foldlM (Tables.add policy) t) (files.foldlM (Collection.add policy) c) := by
  induction files generalizing t c with
  | nil => exact .ok h
  | cons f files ih =>
    rw [List.foldlM_cons, List.foldlM_cons]
    have hstep := h.add policy f
    generalize t.add policy f = left, c.add policy f = right at hstep
    cases hstep with
    | ok hstep => exact ih hstep
    | error e => exact .error e

/-- The two tables have the same names. -/
lemma mem_origins_iff (h : t.Represents c) (name : String) :
    name ∈ t.origins ↔ name ∈ t.classes.names := by
  have hnames : t.classes.names = c.definitions.names :=
    Registry.names_eq_of_map (fun _ => rfl) h.classes
  rw [Std.HashMap.mem_iff_isSome_getElem?, h.origins, Option.isSome_map, hnames,
    Option.isSome_iff_ne_none, ne_eq, Registry.find?_eq_none_iff, not_not]

end Represents

/-- The tables and the collection of any class files come out alike. -/
lemma agree_addAll (policy : DuplicatePolicy) (files : List ScannedFile) :
    Agree (addAll policy files) (Collection.addAll policy files) :=
  represents_empty.foldlM_add policy files

/-- Whatever is taken in, the classes and the origins are kept under the same names. -/
theorem mem_origins_iff_of_addAll {files : List ScannedFile} (h : addAll policy files = .ok t)
    (name : String) : name ∈ t.origins ↔ name ∈ t.classes.names := by
  have hagree := agree_addAll policy files
  rw [h] at hagree
  generalize Collection.addAll policy files = collected at hagree
  cases hagree with
  | ok hrepresents => exact hrepresents.mem_origins_iff name

end Tables

namespace Index

/-- The index of the classes that were collected in tables from `files` in `rootCount` roots. -/
def ofTables (base : String) (rootCount : Nat) (files : List ScannedFile) (t : Tables) : Index where
  base := base
  classes := t.classes
  simpleNames := .ofClasses t.classes.entries
  report := {
    rootsLocated := rootCount
    entriesScanned := files.length
    classesIndexed := t.classes.entries.length
    skipped := t.skipped }

/-- Tables that stand for a collection give its index. -/
lemma ofTables_eq_ofCollection {t : Tables} {c : Collection} (h : t.Represents c) (base : String)
    (rootCount : Nat) (files : List ScannedFile) :
    ofTables base rootCount files t = ofCollection base rootCount files c := by
  obtain ⟨⟨entries, hdistinct⟩, origins, skipped⟩ := t
  obtain ⟨hclasses, -, hskipped⟩ := h
  dsimp only at hclasses hskipped
  subst hclasses hskipped
  unfold ofTables ofCollection
  rw [List.length_map]

/-- An index can be built by way of the two tables: it is the same, and so is what is said where
none is built. -/
theorem map_ofTables_addAll (policy : DuplicatePolicy) (base : String) (rootCount : Nat)
    (files : List ScannedFile) :
    (Tables.addAll policy files).map (ofTables base rootCount files) =
      ofFiles policy base rootCount files := by
  unfold ofFiles
  have hagree := Tables.agree_addAll policy files
  generalize Tables.addAll policy files = left, Collection.addAll policy files = right at hagree
  cases hagree with
  | ok h => exact congrArg Except.ok (ofTables_eq_ofCollection h base rootCount files)
  | error e => rfl

end Index

end ClasspathIndex
