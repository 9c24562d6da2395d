import ClasspathIndex.Proofs.Index.Accounting

/-!
# Class files that define distinct classes

If no class is defined twice, every policy takes in all definitions, in the order in which they
were scanned (`Collection.exists_addAll_eq_ok_of_nodup`).  The policy that forbids a second
definition gives an index in this case only (`Index.exists_ofFiles_fail_iff`).
-/

namespace ClasspathIndex

namespace Collection

/-- A collection holds all definitions of class files and the reports on the malformed ones, in
order. -/
structure HoldsAll (files : List ScannedFile) (c : Collection) : Prop where
  entries : c.definitions.entries = definitionsOf files
  skipped : c.skipped = faultsOf files

variable {files seen : List ScannedFile} {f : ScannedFile} {c c' : Collection}
  {policy : DuplicatePolicy}

/-- All definitions of no class files are held. -/
lemma holdsAll_empty : HoldsAll [] empty :=
  ⟨rfl, rfl⟩

/-- The names that are held are those of the definitions, in their order. -/
lemma HoldsAll.names (h : c.HoldsAll files) :
    c.definitions.names = (definitionsOf files).map Definition.name := by
  rw [Registry.names, h.entries]

/-- The definitions that a collection holds have distinct names. -/
lemma HoldsAll.nodup (h : c.HoldsAll files) :
    ((definitionsOf files).map Definition.name).Nodup := by
  rw [← h.names]
  exact c.definitions.distinct

/-! ### One class file -/

/-- A class that was not defined before is taken in under every policy. -/
lemma define_of_notMem {d : Definition} (h : d.name ∉ c.definitions.names) :
    c.define policy d = .ok ⟨c.definitions.put d, c.skipped⟩ := by
  unfold define
  rw [Registry.find?_eq_none_iff.2 h]

/-- Where a second definition is refused, what is taken in is new. -/
lemma notMem_of_define_fail {d : Definition} (h : c.define .fail d = .ok c') :
    d.name ∉ c.definitions.names := by
  unfold define at h
  split at h
  · rename_i hnone
    exact Registry.find?_eq_none_iff.1 hnone
  · simp at h

/-- Under every policy a class file is taken in if it defines no class that was defined before. -/
lemma HoldsAll.add (policy : DuplicatePolicy) (h : c.HoldsAll files)
    (hnew : ∀ d, f.definition? = some d → d.name ∉ c.definitions.names) :
    ∃ c', c.add policy f = .ok c' ∧ c'.HoldsAll (files ++ [f]) := by
  unfold Collection.add
  cases hsummary : ClassFile.summary f.content with
  | error e =>
    refine ⟨_, rfl, ?_, ?_⟩
    · rw [definitionsOf_concat_of_error hsummary]
      exact h.entries
    · rw [faultsOf_concat_of_error hsummary, ← h.skipped]
  | ok s =>
    have hname := hnew _ (ScannedFile.definition?_of_ok hsummary)
    refine ⟨_, define_of_notMem hname, ?_, ?_⟩
    · rw [definitionsOf_concat_of_ok hsummary, ← h.entries]
      exact Registry.entries_put_of_notMem hname
    · rw [faultsOf_concat_of_ok hsummary]
      exact h.skipped

/-- The policy that forbids a second definition takes in no class file with one. -/
lemma notMem_of_add_fail (h : c.add .fail f = .ok c') :
    ∀ d, f.definition? = some d → d.name ∉ c.definitions.names := by
  intro d hd
  obtain ⟨s, hsummary, rfl⟩ := ScannedFile.definition?_eq_some_iff.1 hd
  unfold Collection.add at h
  rw [hsummary] at h
  exact notMem_of_define_fail h

/-! ### All class files -/

/-- Class files that define distinct classes are all taken in, after those seen before. -/
lemma HoldsAll.foldlM (h : c.HoldsAll seen)
    (hdistinct : ((definitionsOf (seen ++ files)).map Definition.name).Nodup) :
    ∃ c', files.foldlM (Collection.add policy) c = .ok c' ∧ c'.HoldsAll (seen ++ files) := by
  induction files generalizing seen c with
  | nil => exact ⟨c, rfl, by rwa [List.append_nil]⟩
  | cons f files ih =>
    have hsplit : seen ++ f :: files = (seen ++ [f]) ++ files := by simp
    have hnew : ∀ d, f.definition? = some d → d.name ∉ c.definitions.names := by
      intro d hd hmem
      rw [definitionsOf, List.filterMap_append, List.filterMap_cons_some hd, List.map_append,
        List.nodup_append] at hdistinct
      rw [h.names] at hmem
      exact hdistinct.2.2 _ hmem _ (by simp) rfl
    obtain ⟨c₁, hadd, h₁⟩ := h.add policy hnew
    rw [hsplit] at hdistinct ⊢
    obtain ⟨c₂, hfold, h₂⟩ := ih h₁ hdistinct
    refine ⟨c₂, ?_, h₂⟩
    rw [List.foldlM_cons, hadd]
    exact hfold

/-- What the policy that forbids a second definition has taken in is everything. -/
lemma HoldsAll.of_foldlM_fail (h : c.HoldsAll seen)
    (hfold : files.foldlM (Collection.add .fail) c = .ok c') : c'.HoldsAll (seen ++ files) := by
  induction files generalizing seen c with
  | nil =>
    obtain rfl := Except.ok.inj hfold
    rwa [List.append_nil]
  | cons f files ih =>
    rw [List.foldlM_cons] at hfold
    cases hadd : c.add .fail f with
    | error e =>
      rw [hadd] at hfold
      simp [bind, Except.bind] at hfold
    | ok c₁ =>
      rw [hadd] at hfold
      obtain ⟨c₂, hadd₂, h₂⟩ := h.add .fail (notMem_of_add_fail hadd)
      obtain rfl := Except.ok.inj (hadd.symm.trans hadd₂)
      have hrest := ih h₂ hfold
      rwa [List.append_assoc] at hrest

/-- If no class is defined twice, every policy takes in all class files. -/
lemma exists_addAll_eq_ok_of_nodup (policy : DuplicatePolicy)
    (h : ((definitionsOf files).map Definition.name).Nodup) :
    ∃ c, addAll policy files = .ok c ∧ c.HoldsAll files :=
  holdsAll_empty.foldlM h

/-- Where a second definition is refused, what is taken in is held as a whole. -/
lemma holdsAll_of_addAll_fail (h : addAll .fail files = .ok c) : c.HoldsAll files :=
  holdsAll_empty.of_foldlM_fail h

end Collection

namespace Index

variable {files : List ScannedFile} {index : Index} {policy : DuplicatePolicy} {b : String}
  {rootCount : Nat}

/-- An index of class files that define distinct classes: nothing is replaced. -/
structure HoldsAll (index : Index) (rootCount : Nat) (files : List ScannedFile) : Prop where
  classes : index.classes.entries = (definitionsOf files).map Definition.symbol
  simpleNames : index.simpleNames = .ofClasses index.classes.entries
  located : index.report.rootsLocated = rootCount
  scanned : index.report.entriesScanned = files.length
  indexed : index.report.classesIndexed = index.size
  skipped : index.report.skipped = faultsOf files

/-- An index holds what the collection did. -/
lemma holdsAll_ofCollection {c : Collection} (h : c.HoldsAll files) (b : String)
    (rootCount : Nat) : (ofCollection b rootCount files c).HoldsAll rootCount files where
  classes := by
    rw [← h.entries]
    rfl
  simpleNames := rfl
  located := rfl
  scanned := rfl
  indexed := (List.length_map _).symm
  skipped := h.skipped

/-- If no class is defined twice, every policy gives an index of all definitions. -/
lemma exists_ofFiles_eq_ok_of_nodup (policy : DuplicatePolicy) (b : String) (rootCount : Nat)
    (h : ((definitionsOf files).map Definition.name).Nodup) :
    ∃ index, ofFiles policy b rootCount files = .ok index ∧ index.HoldsAll rootCount files := by
  obtain ⟨c, hc, hall⟩ := Collection.exists_addAll_eq_ok_of_nodup policy h
  exact ⟨_, ofFiles_eq_ok_iff.2 ⟨c, hc, rfl⟩, holdsAll_ofCollection hall b rootCount⟩

/-- Where a second definition is forbidden, there is an index if and only if no class is defined
twice. -/
lemma exists_ofFiles_fail_iff :
    (∃ index, ofFiles .fail b rootCount files = .ok index) ↔
      ((definitionsOf files).map Definition.name).Nodup := by
  constructor
  · rintro ⟨index, hindex⟩
    obtain ⟨c, hc, -⟩ := ofFiles_eq_ok_iff.1 hindex
    exact (Collection.holdsAll_of_addAll_fail hc).nodup
  · intro h
    obtain ⟨index, hindex, -⟩ := exists_ofFiles_eq_ok_of_nodup .fail b rootCount h
    exact ⟨index, hindex⟩

end Index

end ClasspathIndex
