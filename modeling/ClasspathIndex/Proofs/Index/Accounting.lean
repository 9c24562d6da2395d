import ClasspathIndex.Index.Build
import ClasspathIndex.Proofs.Registry

/-!
# What becomes of every class file

Of the class files that are scanned, the well-formed ones are definitions.  A definition
survives if no later one has its name, and is superseded otherwise.  `Accounts` says that a
collection holds the surviving definitions, that their names come in the order in which they
were first defined, and that the malformed files and the superseded definitions are reported.
Taking in one more file keeps it true (`accounts_add`), hence so does taking in all of them.
-/

namespace ClasspathIndex

/-! ### What a class file is -/

namespace ScannedFile

/-- The definition that a class file gives; `none` if it is malformed. -/
def definition? (f : ScannedFile) : Option Definition :=
  match ClassFile.summary f.content with
  | .ok s => some ⟨ClassSymbol.ofSummary s, f.origin⟩
  | .error _ => none

/-- The report on a malformed class file; `none` if it is well formed. -/
def fault? (f : ScannedFile) : Option Skipped :=
  match ClassFile.summary f.content with
  | .ok _ => none
  | .error e => some ⟨f.origin, .malformed e.message⟩

variable {f : ScannedFile}

/-- A well-formed class file defines the class of its summary. -/
lemma definition?_of_ok {s : ClassFile.Summary} (h : ClassFile.summary f.content = .ok s) :
    f.definition? = some ⟨ClassSymbol.ofSummary s, f.origin⟩ := by
  rw [definition?, h]

/-- A malformed class file defines nothing. -/
lemma definition?_of_error {e : ClassFile.Error} (h : ClassFile.summary f.content = .error e) :
    f.definition? = none := by
  rw [definition?, h]

/-- On a well-formed class file there is nothing to report. -/
lemma fault?_of_ok {s : ClassFile.Summary} (h : ClassFile.summary f.content = .ok s) :
    f.fault? = none := by
  rw [fault?, h]

/-- A malformed class file is reported with what is wrong with it. -/
lemma fault?_of_error {e : ClassFile.Error} (h : ClassFile.summary f.content = .error e) :
    f.fault? = some ⟨f.origin, .malformed e.message⟩ := by
  rw [fault?, h]

/-- What a class file defines comes from its summary. -/
lemma definition?_eq_some_iff {d : Definition} :
    f.definition? = some d ↔
      ∃ s, ClassFile.summary f.content = .ok s ∧ d = ⟨ClassSymbol.ofSummary s, f.origin⟩ := by
  cases hs : ClassFile.summary f.content with
  | error e => simp [definition?_of_error hs]
  | ok s => simp [definition?_of_ok hs, eq_comm]

end ScannedFile

/-- The definitions among class files, in order. -/
def definitionsOf (files : List ScannedFile) : List Definition :=
  files.filterMap ScannedFile.definition?

/-- The reports on the malformed ones among class files, in order. -/
def faultsOf (files : List ScannedFile) : List Skipped :=
  files.filterMap ScannedFile.fault?

/-! ### One more class file -/

/-- A well-formed class file adds its definition. -/
lemma definitionsOf_concat_of_ok {files : List ScannedFile} {f : ScannedFile}
    {s : ClassFile.Summary} (h : ClassFile.summary f.content = .ok s) :
    definitionsOf (files ++ [f]) =
      definitionsOf files ++ [⟨ClassSymbol.ofSummary s, f.origin⟩] := by
  simp [definitionsOf, ScannedFile.definition?_of_ok h]

/-- A malformed class file adds no definition. -/
lemma definitionsOf_concat_of_error {files : List ScannedFile} {f : ScannedFile}
    {e : ClassFile.Error} (h : ClassFile.summary f.content = .error e) :
    definitionsOf (files ++ [f]) = definitionsOf files := by
  simp [definitionsOf, ScannedFile.definition?_of_error h]

/-- A well-formed class file adds no report. -/
lemma faultsOf_concat_of_ok {files : List ScannedFile} {f : ScannedFile}
    {s : ClassFile.Summary} (h : ClassFile.summary f.content = .ok s) :
    faultsOf (files ++ [f]) = faultsOf files := by
  simp [faultsOf, ScannedFile.fault?_of_ok h]

/-- A malformed class file adds its report. -/
lemma faultsOf_concat_of_error {files : List ScannedFile} {f : ScannedFile}
    {e : ClassFile.Error} (h : ClassFile.summary f.content = .error e) :
    faultsOf (files ++ [f]) = faultsOf files ++ [⟨f.origin, .malformed e.message⟩] := by
  simp [faultsOf, ScannedFile.fault?_of_error h]

/-- Every class file gives a definition or a report, of its own origin. -/
lemma scanned_origins_perm (files : List ScannedFile) :
    (files.map ScannedFile.origin).Perm
      ((definitionsOf files).map Definition.origin ++ (faultsOf files).map Skipped.origin) := by
  induction files with
  | nil => exact .rfl
  | cons f files ih =>
    unfold definitionsOf faultsOf at ih ⊢
    cases hsummary : ClassFile.summary f.content with
    | error e =>
      rw [List.filterMap_cons_none (ScannedFile.definition?_of_error hsummary),
        List.filterMap_cons_some (ScannedFile.fault?_of_error hsummary)]
      exact (ih.cons f.origin).trans List.perm_middle.symm
    | ok s =>
      rw [List.filterMap_cons_some (ScannedFile.definition?_of_ok hsummary),
        List.filterMap_cons_none (ScannedFile.fault?_of_ok hsummary)]
      exact ih.cons f.origin

namespace Definition

/-- The report on a definition that was replaced. -/
def replaced (d : Definition) : Skipped :=
  ⟨d.origin, .replaced d.name⟩

/-- The last definition with the given name. -/
def lastNamed? (ds : List Definition) (name : String) : Option Definition :=
  (ds.filter fun d => d.name == name).getLast?

/-- The definitions that have a name which no later one has. -/
def surviving : List Definition → List Definition
  | [] => []
  | d :: ds => if d.name ∈ ds.map name then surviving ds else d :: surviving ds

/-- The definitions that have a name which a later one has, too. -/
def superseded : List Definition → List Definition
  | [] => []
  | d :: ds => if d.name ∈ ds.map name then d :: superseded ds else superseded ds

/-! ### One more definition -/

/-- One more definition survives, and those of its name do so no longer. -/
lemma surviving_append_singleton (ds : List Definition) (d : Definition) :
    surviving (ds ++ [d]) = (surviving ds).filter (fun e => !(e.name == d.name)) ++ [d] := by
  induction ds with
  | nil => simp [surviving]
  | cons e ds ih =>
    have hmem : e.name ∈ (ds ++ [d]).map name ↔ e.name ∈ ds.map name ∨ e.name = d.name := by
      simp
    rw [List.cons_append, surviving, surviving, ih]
    by_cases hlater : e.name ∈ ds.map name
    · rw [if_pos (hmem.2 (.inl hlater)), if_pos hlater]
    · by_cases hname : e.name = d.name
      · rw [if_pos (hmem.2 (.inr hname)), if_neg hlater,
          List.filter_cons_of_neg (by simpa using hname)]
      · rw [if_neg (fun h => (hmem.1 h).elim hlater hname), if_neg hlater,
          List.filter_cons_of_pos (by simpa using hname), List.cons_append]

/-- One more definition supersedes those of its name that had survived. -/
lemma superseded_append_singleton_perm (ds : List Definition) (d : Definition) :
    (superseded (ds ++ [d])).Perm
      (superseded ds ++ (surviving ds).filter (fun e => e.name == d.name)) := by
  induction ds with
  | nil => simp [surviving, superseded]
  | cons e ds ih =>
    have hmem : e.name ∈ (ds ++ [d]).map name ↔ e.name ∈ ds.map name ∨ e.name = d.name := by
      simp
    rw [List.cons_append, superseded, superseded, surviving]
    by_cases hlater : e.name ∈ ds.map name
    · rw [if_pos (hmem.2 (.inl hlater)), if_pos hlater, if_pos hlater, List.cons_append]
      exact ih.cons e
    · by_cases hname : e.name = d.name
      · rw [if_pos (hmem.2 (.inr hname)), if_neg hlater, if_neg hlater,
          List.filter_cons_of_pos (by simpa using hname)]
        exact (ih.cons e).trans List.perm_middle.symm
      · rw [if_neg (fun h => (hmem.1 h).elim hlater hname), if_neg hlater, if_neg hlater,
          List.filter_cons_of_neg (by simpa using hname)]
        exact ih

/-- The surviving definition of a name is the last one. -/
lemma filter_surviving (ds : List Definition) (name : String) :
    (surviving ds).filter (fun d => d.name == name) = (lastNamed? ds name).toList := by
  induction ds using List.reverseRecOn with
  | nil => rfl
  | append_singleton ds d ih =>
    rw [surviving_append_singleton, List.filter_append, lastNamed?, List.filter_append]
    by_cases hname : d.name = name
    · have hnone : ((surviving ds).filter (fun e => !(e.name == d.name))).filter
          (fun e => e.name == name) = [] := by
        simp [List.filter_filter, hname]
      rw [hnone, List.filter_cons_of_pos (by simpa using hname)]
      simp
    · have hsame : ((surviving ds).filter (fun e => !(e.name == d.name))).filter
          (fun e => e.name == name) = (surviving ds).filter fun e => e.name == name := by
        rw [List.filter_filter]
        refine List.filter_congr fun e _ => ?_
        by_cases he : e.name = name
        · simp [he, Ne.symm hname]
        · simp [he]
      rw [hsame, ih, List.filter_cons_of_neg (by simpa using hname)]
      simp [lastNamed?]

/-- Every definition survives or is superseded. -/
lemma surviving_append_superseded_perm (ds : List Definition) :
    (surviving ds ++ superseded ds).Perm ds := by
  induction ds with
  | nil => simp [surviving, superseded]
  | cons d ds ih =>
    rw [surviving, superseded]
    split
    · exact List.perm_middle.trans (ih.cons d)
    · exact ih.cons d

end Definition

/-! ### Collections -/

namespace Collection

open Definition

/-- What a collection holds after the given class files. -/
structure Accounts (files : List ScannedFile) (c : Collection) : Prop where
  names : c.definitions.names = ((definitionsOf files).map Definition.name).eraseDups
  entries : c.definitions.entries.Perm (surviving (definitionsOf files))
  skipped : c.skipped.Perm
    (faultsOf files ++ (superseded (definitionsOf files)).map Definition.replaced)

/-- Of no class files nothing is held and nothing reported. -/
lemma accounts_empty : Accounts [] empty :=
  ⟨rfl, .rfl, .rfl⟩

/-- Under the policy by which the last definition wins, a definition is always taken in, and the
one it replaces is reported. -/
lemma define_lastWriteWins (c : Collection) (d : Definition) :
    c.define .lastWriteWins d =
      .ok ⟨c.definitions.put d,
        c.skipped ++ (c.definitions.find? d.name).toList.map Definition.replaced⟩ := by
  unfold define
  cases h : c.definitions.find? d.name with
  | none => simp
  | some earlier =>
    simp [Definition.replaced, Registry.name_of_find?_eq_some h]

/-- The entry that a definition replaces is the last one before it with its name. -/
lemma Accounts.find?_eq {files : List ScannedFile} {c : Collection} (h : c.Accounts files)
    (name : String) :
    c.definitions.find? name = lastNamed? (definitionsOf files) name := by
  have hperm := h.entries.filter fun d => d.name == name
  rw [filter_surviving, Registry.filter_eq_toList_find?] at hperm
  exact eq_of_toList_perm hperm

/-- Taking in a class file keeps account of it. -/
lemma accounts_add {files : List ScannedFile} {c : Collection} (h : c.Accounts files)
    (f : ScannedFile) :
    ∃ c', c.add .lastWriteWins f = .ok c' ∧ c'.Accounts (files ++ [f]) := by
  unfold add
  cases hsummary : ClassFile.summary f.content with
  | error e =>
    have hdefinitions : definitionsOf (files ++ [f]) = definitionsOf files :=
      definitionsOf_concat_of_error hsummary
    refine ⟨_, rfl, ?_, ?_, ?_⟩
    · rw [hdefinitions]
      exact h.names
    · rw [hdefinitions]
      exact h.entries
    · rw [hdefinitions, faultsOf_concat_of_error hsummary, List.append_assoc]
      exact (h.skipped.append_right _).trans (by
        rw [List.append_assoc]
        exact List.perm_append_comm.append_left _)
  | ok s =>
    let d : Definition := ⟨ClassSymbol.ofSummary s, f.origin⟩
    have hdefinitions : definitionsOf (files ++ [f]) = definitionsOf files ++ [d] :=
      definitionsOf_concat_of_ok hsummary
    refine ⟨_, define_lastWriteWins c d, ?_, ?_, ?_⟩
    · rw [hdefinitions, Registry.names_put, List.map_append, List.map_singleton,
        eraseDups_append_singleton, h.names]
      simp only [List.mem_eraseDups]
    · rw [hdefinitions, surviving_append_singleton]
      exact (Registry.entries_put_perm _ d).trans ((h.entries.filter _).append_right _)
    · have hreplaced := (superseded_append_singleton_perm (definitionsOf files) d).map
        Definition.replaced
      rw [filter_surviving, ← h.find?_eq, List.map_append] at hreplaced
      rw [hdefinitions, faultsOf_concat_of_ok hsummary]
      refine (h.skipped.append_right _).trans ?_
      rw [List.append_assoc]
      exact hreplaced.symm.append_left _

/-- Taking in class files keeps account of all of them. -/
lemma accounts_foldlM {seen : List ScannedFile} {c : Collection} (h : c.Accounts seen)
    (files : List ScannedFile) :
    ∃ c', files.foldlM (add .lastWriteWins) c = .ok c' ∧ c'.Accounts (seen ++ files) := by
  induction files generalizing seen c with
  | nil => exact ⟨c, rfl, by rwa [List.append_nil]⟩
  | cons f files ih =>
    obtain ⟨c₁, hadd, h₁⟩ := accounts_add h f
    obtain ⟨c₂, hfold, h₂⟩ := ih h₁
    refine ⟨c₂, ?_, by rwa [List.append_assoc] at h₂⟩
    rw [List.foldlM_cons, hadd]
    exact hfold

/-- Where the last definition wins, any class files are taken in and accounted for. -/
lemma exists_addAll_eq_ok (files : List ScannedFile) :
    ∃ c, addAll .lastWriteWins files = .ok c ∧ c.Accounts files :=
  accounts_foldlM accounts_empty files

/-- The origins of all class files are those of the surviving definitions and of the report. -/
lemma Accounts.origins_perm {files : List ScannedFile} {c : Collection}
    (h : c.Accounts files) :
    (files.map ScannedFile.origin).Perm
      ((surviving (definitionsOf files)).map Definition.origin ++
        c.skipped.map Skipped.origin) := by
  have hdefinitions := (surviving_append_superseded_perm (definitionsOf files)).map
    Definition.origin
  have hskipped := h.skipped.map Skipped.origin
  have hreplaced : ((superseded (definitionsOf files)).map Definition.replaced).map
      Skipped.origin = (superseded (definitionsOf files)).map Definition.origin := by
    rw [List.map_map]
    rfl
  rw [List.map_append] at hdefinitions hskipped
  rw [hreplaced] at hskipped
  calc
    List.Perm (files.map ScannedFile.origin)
        ((definitionsOf files).map Definition.origin ++
          (faultsOf files).map Skipped.origin) := scanned_origins_perm files
    List.Perm _
        (((surviving (definitionsOf files)).map Definition.origin ++
          (superseded (definitionsOf files)).map Definition.origin) ++
            (faultsOf files).map Skipped.origin) := hdefinitions.symm.append_right _
    List.Perm _
        ((surviving (definitionsOf files)).map Definition.origin ++
          ((faultsOf files).map Skipped.origin ++
            (superseded (definitionsOf files)).map Definition.origin)) := by
      rw [List.append_assoc]
      exact List.perm_append_comm.append_left _
    List.Perm _
        ((surviving (definitionsOf files)).map Definition.origin ++
          c.skipped.map Skipped.origin) := hskipped.symm.append_left _

end Collection

/-! ### Indexes -/

namespace Index

open Definition

/-- What an index of class files holds and reports. -/
structure AccountsFor (index : Index) (files : List ScannedFile) : Prop where
  /-- Every name that is defined occurs once, where it was first defined. -/
  names : index.classes.names = ((definitionsOf files).map Definition.name).eraseDups
  /-- The class with a name is that of the last definition with the name. -/
  find : ∀ name, index.classes.find? name =
    (lastNamed? (definitionsOf files) name).map Definition.symbol
  /-- A class is stored under its own name. -/
  ownName : ∀ name c, index.classes.find? name = some c → c.name = name
  /-- The classes are those of the surviving definitions. -/
  classes : index.classes.entries.Perm ((surviving (definitionsOf files)).map Definition.symbol)
  /-- The report names the malformed files and the superseded definitions, each once. -/
  skipped : index.report.skipped.Perm
    (faultsOf files ++ (superseded (definitionsOf files)).map Definition.replaced)
  /-- Every class file survives or is reported, and not both. -/
  origins : (files.map ScannedFile.origin).Perm
    ((surviving (definitionsOf files)).map Definition.origin ++
      index.report.skipped.map Skipped.origin)
  scanned : index.report.entriesScanned = files.length
  total : index.report.entriesScanned =
    index.report.classesIndexed + index.report.skipped.length
  indexed : index.report.classesIndexed = index.size

/-- The index has the names of the definitions. -/
lemma ofCollection_names (base : String) (rootCount : Nat) (files : List ScannedFile)
    (c : Collection) :
    (ofCollection base rootCount files c).classes.names = c.definitions.names := by
  simp [ofCollection, Registry.names, Definition.name, Function.comp_def]

/-- The index finds the classes of the definitions. -/
lemma ofCollection_find? (base : String) (rootCount : Nat) (files : List ScannedFile)
    (c : Collection) (name : String) :
    (ofCollection base rootCount files c).classes.find? name =
      (c.definitions.find? name).map Definition.symbol := by
  simp [ofCollection, Registry.find?, List.find?_map, Definition.name]

/-- An index of class files is one of what was collected from them. -/
lemma ofFiles_eq_ok_iff {policy : DuplicatePolicy} {base : String} {rootCount : Nat}
    {files : List ScannedFile} {index : Index} :
    ofFiles policy base rootCount files = .ok index ↔
      ∃ c, Collection.addAll policy files = .ok c ∧
        ofCollection base rootCount files c = index := by
  unfold ofFiles
  cases hc : Collection.addAll policy files with
  | error e => simp [bind, Except.bind]
  | ok c => simp [bind, Except.bind, pure, Except.pure]

/-- If the last definition of a class wins, class files always give an index, and every one of
them is accounted for. -/
theorem exists_ofFiles_accountsFor (base : String) (rootCount : Nat) (files : List ScannedFile) :
    ∃ index, ofFiles .lastWriteWins base rootCount files = .ok index ∧
      index.AccountsFor files := by
  obtain ⟨c, hc, haccounts⟩ := Collection.exists_addAll_eq_ok files
  have horigins := haccounts.origins_perm
  refine ⟨ofCollection base rootCount files c, ?_, ?_⟩
  · unfold ofFiles
    rw [hc]
    rfl
  · refine ⟨?_, fun name => ?_, fun name s => Registry.name_of_find?_eq_some, ?_,
      haccounts.skipped, horigins, rfl, ?_, ?_⟩
    · rw [ofCollection_names, haccounts.names]
    · rw [ofCollection_find?, haccounts.find?_eq]
    · exact haccounts.entries.map _
    · have hlength := horigins.length_eq
      rw [List.length_append, List.length_map, List.length_map, List.length_map,
        ← haccounts.entries.length_eq] at hlength
      exact hlength
    · exact (List.length_map _).symm

end Index

end ClasspathIndex
