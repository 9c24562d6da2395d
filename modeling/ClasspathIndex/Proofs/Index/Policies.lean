import ClasspathIndex.Archive.Directory
import ClasspathIndex.Proofs.Classpath.Location
import ClasspathIndex.Proofs.Index.RootKinds

/-!
# The two policies on repeated definitions

The policies differ on repeated definitions only.  As long as the definitions are of distinct
classes, both hold all of them, in order (`Collection.HoldsAll`), so that without a repetition
they give one and the same index.

At the first repetition (`Definition.FirstRepetition`) exactly one earlier definition has the name,
and it is the one that is held under it.  The policy that forbids a second definition stops here
and names both origins (`Collection.addAll_fail_eq_error_iff`).  Malformed class files change
nothing of that, since they leave the definitions as they are.
-/

namespace ClasspathIndex

/-! ### Repetitions -/

namespace Definition

variable {ds : List Definition} {first second : Definition}

/-- The definition `second` is the first one with the name of an earlier one, which is `first`. -/
def FirstRepetition (ds : List Definition) (first second : Definition) : Prop :=
  ∃ before after, ds = before ++ second :: after ∧ (before.map name).Nodup ∧ first ∈ before ∧
    first.name = second.name

/-- Definitions not all of distinct classes have a first repetition. -/
lemma exists_firstRepetition (h : ¬(ds.map name).Nodup) :
    ∃ first second, FirstRepetition ds first second := by
  induction ds using List.reverseRecOn with
  | nil => exact absurd List.nodup_nil h
  | append_singleton ds d ih =>
    by_cases hdistinct : (ds.map name).Nodup
    · have hmem : d.name ∈ ds.map name := by
        by_contra hnew
        refine h ?_
        rw [List.map_append, List.map_singleton, ← List.concat_eq_append, List.nodup_concat]
        exact ⟨hnew, hdistinct⟩
      obtain ⟨first, hfirst, hname⟩ := List.mem_map.1 hmem
      exact ⟨first, d, ds, [], rfl, hdistinct, hfirst, hname⟩
    · obtain ⟨first, second, before, after, rfl, hrest⟩ := ih hdistinct
      refine ⟨first, second, before, after ++ [d], ?_, hrest⟩
      rw [List.append_assoc, List.cons_append]

/-- Nothing is superseded among definitions of distinct classes, and only there. -/
lemma superseded_eq_nil_iff : superseded ds = [] ↔ (ds.map name).Nodup := by
  induction ds with
  | nil => simp [superseded]
  | cons d ds ih =>
    rw [superseded, List.map_cons, List.nodup_cons]
    split
    · rename_i hmem
      simp [hmem]
    · rename_i hmem
      rw [ih]
      simp [hmem]

end Definition

/-- What is reported of malformed class files is that they are malformed. -/
lemma reason_of_mem_faultsOf {files : List ScannedFile} {e : Skipped} (h : e ∈ faultsOf files) :
    ∃ message, e.reason = .malformed message := by
  obtain ⟨f, -, hf⟩ := List.mem_filterMap.1 h
  unfold ScannedFile.fault? at hf
  split at hf
  · cases hf
  · cases hf
    exact ⟨_, rfl⟩

/-! ### Collecting under the two policies -/

namespace Collection

open Definition

variable {files : List ScannedFile} {c c' : Collection}

/-- A collection that holds everything is determined by the class files. -/
lemma HoldsAll.eq (h : c.HoldsAll files) (h' : c'.HoldsAll files) : c = c' := by
  obtain ⟨⟨entries, distinct⟩, skipped⟩ := c
  obtain ⟨⟨entries', distinct'⟩, skipped'⟩ := c'
  obtain rfl : entries = entries' := h.entries.trans h'.entries.symm
  obtain rfl : skipped = skipped' := h.skipped.trans h'.skipped.symm
  rfl

/-- The definitions that are held are found under their names. -/
lemma HoldsAll.find?_eq (h : c.HoldsAll files) {d : Definition} (hd : d ∈ definitionsOf files) :
    c.definitions.find? d.name = some d := by
  have hmem : d ∈ c.definitions.entries.filter fun e => e.name == d.name :=
    List.mem_filter.2 ⟨h.entries ▸ hd, beq_self_eq_true _⟩
  rw [Registry.filter_eq_toList_find?] at hmem
  exact Option.mem_toList.1 hmem

/-- What defines a class that is held is refused where second definitions are forbidden. -/
lemma HoldsAll.add_fail (h : c.HoldsAll files) {f : ScannedFile} {first second : Definition}
    (hf : f.definition? = some second) (hfirst : first ∈ definitionsOf files)
    (hname : first.name = second.name) :
    c.add .fail f = .error
      (.duplicateClass second.name first.origin.display second.origin.display) := by
  obtain ⟨s, hs, rfl⟩ := ScannedFile.definition?_eq_some_iff.1 hf
  have hfind := h.find?_eq hfirst
  rw [hname] at hfind
  unfold Collection.add define
  rw [hs]
  dsimp only
  rw [hfind]

/-- At a first repetition no more class files are taken in, where second definitions are
forbidden. -/
lemma addAll_fail_of_firstRepetition {first second : Definition}
    (h : FirstRepetition (definitionsOf files) first second) :
    addAll .fail files = .error
      (.duplicateClass second.name first.origin.display second.origin.display) := by
  obtain ⟨before, after, hsplit, hdistinct, hfirst, hname⟩ := h
  obtain ⟨front, back, rfl, rfl, hback⟩ := List.filterMap_eq_append_iff.1 hsplit
  obtain ⟨malformed, f, rest, rfl, hmalformed, hf, -⟩ := List.filterMap_eq_cons_iff.1 hback
  -- the malformed class files right before the repetition add no definition
  have hfront : definitionsOf (front ++ malformed) = definitionsOf front := by
    unfold definitionsOf
    rw [List.filterMap_append, List.filterMap_eq_nil_iff.2 hmalformed, List.append_nil]
  change ((definitionsOf front).map Definition.name).Nodup at hdistinct
  change first ∈ definitionsOf front at hfirst
  rw [← hfront] at hdistinct hfirst
  obtain ⟨c, hc, hall⟩ := exists_addAll_eq_ok_of_nodup .fail hdistinct
  have hadd := hall.add_fail hf hfirst hname
  unfold addAll at hc ⊢
  rw [← List.append_assoc, List.foldlM_append, hc]
  simp only [bind, Except.bind]
  rw [List.foldlM_cons, hadd]
  rfl

/-- Where second definitions are forbidden, class files are refused for their first repetition. -/
lemma addAll_fail_eq_error_iff {e : BuildError} :
    addAll .fail files = .error e ↔
      ∃ first second, FirstRepetition (definitionsOf files) first second ∧
        e = .duplicateClass second.name first.origin.display second.origin.display := by
  constructor
  · intro h
    have hrepeated : ¬((definitionsOf files).map Definition.name).Nodup := by
      intro hdistinct
      obtain ⟨c, hc, -⟩ := exists_addAll_eq_ok_of_nodup .fail hdistinct
      rw [h] at hc
      cases hc
    obtain ⟨first, second, hfirst⟩ := exists_firstRepetition hrepeated
    refine ⟨first, second, hfirst, ?_⟩
    rw [addAll_fail_of_firstRepetition hfirst] at h
    exact (Except.error.inj h).symm
  · intro h
    obtain ⟨first, second, hfirst, rfl⟩ := h
    exact addAll_fail_of_firstRepetition hfirst

end Collection

/-! ### Indexes under the two policies -/

namespace Index

open Definition

variable {files : List ScannedFile} {index : Index} {b : String} {rootCount : Nat}

/-- A report names no replaced class file if and only if all definitions are of distinct
classes. -/
lemma AccountsFor.no_replaced_iff (h : index.AccountsFor files) :
    (∀ e ∈ index.report.skipped, ∀ name, e.reason ≠ .replaced name) ↔
      ((definitionsOf files).map Definition.name).Nodup := by
  rw [← superseded_eq_nil_iff, List.eq_nil_iff_forall_not_mem]
  constructor
  · intro hnone d hd
    have hmem : d.replaced ∈ index.report.skipped :=
      h.skipped.mem_iff.2 (List.mem_append_right _ (List.mem_map_of_mem hd))
    exact hnone _ hmem d.name rfl
  · intro hnone e he name hreason
    rcases List.mem_append.1 (h.skipped.mem_iff.1 he) with hfault | hreplaced
    · obtain ⟨message, hmalformed⟩ := reason_of_mem_faultsOf hfault
      rw [hmalformed] at hreason
      cases hreason
    · obtain ⟨d, hd, -⟩ := List.mem_map.1 hreplaced
      exact hnone d hd

/-- Class files that define distinct classes give the same index under both policies. -/
lemma ofFiles_fail_eq_of_nodup (h : ((definitionsOf files).map Definition.name).Nodup) :
    ofFiles .fail b rootCount files = ofFiles .lastWriteWins b rootCount files := by
  obtain ⟨c, hc, hall⟩ := Collection.exists_addAll_eq_ok_of_nodup .fail h
  obtain ⟨c', hc', hall'⟩ := Collection.exists_addAll_eq_ok_of_nodup .lastWriteWins h
  obtain rfl := hall.eq hall'
  unfold ofFiles
  rw [hc, hc']

/-- No index is built exactly where the class files are not taken in. -/
lemma ofFiles_eq_error_iff {policy : DuplicatePolicy} {e : BuildError} :
    ofFiles policy b rootCount files = .error e ↔ Collection.addAll policy files = .error e := by
  unfold ofFiles
  cases hc : Collection.addAll policy files with
  | error e' => simp [bind, Except.bind]
  | ok c => simp [bind, Except.bind, pure, Except.pure]

/-- The index in which the last definition wins says whether second definitions can be forbidden:
if it reports no replaced class file, the index is the same, and otherwise the first repetition in
the order of the scan is refused.  Class files that are malformed have no part in that. -/
theorem build_fail_iff_build_lastWriteWins [ArchiveReader] {tree : FileTree} {paths : List Path}
    {b base : String} (hb : Namespace.path b = .ok base) :
    ∃ located index, Root.locate tree paths b = .ok located ∧
      build tree .lastWriteWins paths b = .ok index ∧
      ((∃ other, build tree .fail paths b = .ok other) ↔
        ∀ e ∈ index.report.skipped, ∀ name, e.reason ≠ .replaced name) ∧
      (∀ other, build tree .fail paths b = .ok other → other = index) ∧
      (∀ e, build tree .fail paths b = .error e ↔ ∃ first second,
        FirstRepetition (definitionsOf (Scan.roots tree located base)) first second ∧
          e = .duplicateClass second.name first.origin.display second.origin.display) ∧
      ∀ files, definitionsOf files = definitionsOf (Scan.roots tree located base) →
        ∀ rootCount e, ofFiles .fail b rootCount files = .error e ↔
          build tree .fail paths b = .error e := by
  have hlocate := Root.locate_of_path tree paths hb
  simp only [build_of_path hb]
  generalize (Root.candidates tree paths).filter (Root.contains tree base) = located at hlocate ⊢
  obtain ⟨index, hindex, haccounts⟩ :=
    exists_ofFiles_accountsFor b located.length (Scan.roots tree located base)
  refine ⟨located, index, hlocate, hindex, ?_, ?_, ?_, ?_⟩
  · rw [haccounts.no_replaced_iff]
    exact exists_ofFiles_fail_iff
  · intro other hother
    rw [ofFiles_fail_eq_of_nodup (exists_ofFiles_fail_iff.1 ⟨other, hother⟩), hindex] at hother
    exact (Except.ok.inj hother).symm
  · intro e
    rw [ofFiles_eq_error_iff, Collection.addAll_fail_eq_error_iff]
  · intro files hfiles rootCount e
    rw [ofFiles_eq_error_iff, ofFiles_eq_error_iff, Collection.addAll_fail_eq_error_iff,
      Collection.addAll_fail_eq_error_iff, hfiles]

/-- A tree with the one file `a/C.class` in the directory `lib` and in the archive `c.jar`; the
directory `x` has a malformed file. -/
def repeatedTree : FileTree where
  root := .dir [
    (directoryPath.bytes, .dir [([97], .dir [([67, 46, 99, 108, 97, 115, 115],
      .file archivedFile)])]),
    ([120], .dir [([97], .dir [([67, 46, 99, 108, 97, 115, 115], .file [])])]),
    (archivePath.bytes, .file sampleArchive)]
  workingDirectory := []

/-- The roots of the tree. -/
def repeatedPaths : List Path :=
  [directoryPath, .ofPosition [[120]], archivePath]

/-- A class that a directory and an archive define. -/
theorem build_fail_iff_build_lastWriteWins_repeatedTree :
    ∃ located index first second, Root.locate repeatedTree repeatedPaths "a" = .ok located ∧
      build repeatedTree .lastWriteWins repeatedPaths "a" = .ok index ∧
      (∃ e ∈ index.report.skipped, ∃ name, e.reason = .replaced name) ∧
      build repeatedTree .fail repeatedPaths "a" =
        .error (.duplicateClass "a.C" "/lib/a/C.class" "/c.jar!/a/C.class") ∧
      FirstRepetition (definitionsOf (Scan.roots repeatedTree located "a")) first second ∧
        second.name = "a.C" := by
  have hb : Namespace.path "a" = .ok "a" := by decide +kernel
  have hrefused : (build repeatedTree .fail repeatedPaths "a").map (fun _ => ()) =
      .error (.duplicateClass "a.C" "/lib/a/C.class" "/c.jar!/a/C.class") := by decide +kernel
  obtain ⟨located, index, hlocate, hindex, hfail, -, herror, -⟩ :=
    @build_fail_iff_build_lastWriteWins _ repeatedTree repeatedPaths _ _ hb
  cases hbuild : build repeatedTree .fail repeatedPaths "a" with
  | ok other =>
    rw [hbuild] at hrefused
    cases hrefused
  | error e =>
    rw [hbuild] at hrefused
    obtain rfl := Except.error.inj hrefused
    obtain ⟨first, second, hfirst, he⟩ := (herror _).1 hbuild
    refine ⟨located, index, first, second, hlocate, hindex, ?_, rfl, hfirst, ?_⟩
    · by_contra hnone
      push Not at hnone
      obtain ⟨other, hother⟩ := hfail.2 hnone
      rw [hbuild] at hother
      cases hother
    · exact (BuildError.duplicateClass.inj he).1.symm

end Index

end ClasspathIndex
