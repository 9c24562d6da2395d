import ClasspathIndex.CommandLine.Run
import ClasspathIndex.Proofs.Index.Lookup
import ClasspathIndex.Proofs.Text.Json

/-!
# Every reference of a run is answered

`Answers` says what becomes of one reference, and `Divides` goes through the references of a run and
puts each among the findings or among the failures.  There is one such division
(`divides_iff`), and it can be cut anywhere (`divides_append_iff`).  `Reports` tells by it what a
run writes, as lines and as JSON, and how it ends.
-/

namespace ClasspathIndex.CommandLine

variable {index : Index} {linker : Option Linker}

/-! ### Findings as JSON -/

/-- A finding is told by its JSON object. -/
lemma Finding.toJson_injective : Function.Injective Finding.toJson := by
  rintro ⟨reference, className, method, deprecated, url⟩
    ⟨reference', className', method', deprecated', url'⟩ h
  cases method <;> cases method' <;> cases url <;> cases url' <;>
    simp_all [Finding.toJson, Finding.field?]

/-! ### One reference -/

/-- What becomes of a reference: it cannot be read, nothing or too much goes by it, or it stands for
a class or a method. -/
inductive Answers (index : Index) (linker : Option Linker) (reference : String) :
    Except String Finding → Prop where
  | unread {fault : Reference.Fault} (hparse : Reference.parse reference = .error fault) :
    Answers index linker reference (.error (fault.message reference))
  | unresolved {r : Reference} {e : ResolveError} (hparse : Reference.parse reference = .ok r)
      (hlookup : index.lookup r = .error e) : Answers index linker reference (.error e.message)
  | resolved {r : Reference} {found : Resolved} (hparse : Reference.parse reference = .ok r)
      (hlookup : index.lookup r = .ok found) :
    Answers index linker reference (.ok (.ofResolved linker reference found))

/-- What answers a reference is what a run computes for it. -/
lemma answers_iff {reference : String} {answer : Except String Finding} :
    Answers index linker reference answer ↔ resolveText index linker reference = answer := by
  constructor
  · rintro (hparse | ⟨hparse, hlookup⟩ | ⟨hparse, hlookup⟩)
    · rw [resolveText, hparse]
    · simp only [resolveText, hparse, hlookup]
    · simp only [resolveText, hparse, hlookup]
  · rintro rfl
    unfold resolveText
    split
    · rename_i hparse
      exact .unread hparse
    · rename_i hparse
      split
      · rename_i hlookup
        exact .unresolved hparse hlookup
      · rename_i hlookup
        exact .resolved hparse hlookup

/-- A finding keeps the reference that it answers. -/
lemma Answers.reference_eq {reference : String} {f : Finding}
    (h : Answers index linker reference (.ok f)) : f.reference = reference := by
  cases h
  rfl

/-! ### All references -/

/-- Puts the references of a run, one after another, among the findings or among the failures, of
which each is the reference and why it was not resolved. -/
inductive Divides (index : Index) (linker : Option Linker) :
    List String → List Finding → List (String × String) → Prop where
  | nil : Divides index linker [] [] []
  | finding {reference : String} {f : Finding} {references : List String} {fs : List Finding}
      {failures : List (String × String)} (h : Answers index linker reference (.ok f))
      (hrest : Divides index linker references fs failures) :
    Divides index linker (reference :: references) (f :: fs) failures
  | failure {reference reason : String} {references : List String} {fs : List Finding}
      {failures : List (String × String)} (h : Answers index linker reference (.error reason))
      (hrest : Divides index linker references fs failures) :
    Divides index linker (reference :: references) fs ((reference, reason) :: failures)

/-- A reference that was not resolved, with the reason. -/
def failure? (index : Index) (linker : Option Linker) (reference : String) :
    Option (String × String) :=
  match resolveText index linker reference with
  | .error reason => some (reference, reason)
  | .ok _ => none

/-- A failure as it is told. -/
def complaintOf (failure : String × String) : String :=
  failure.1 ++ ": " ++ failure.2

variable {references : List String} {fs : List Finding} {failures : List (String × String)}

/-- The findings and the failures are the two parts in which the references are divided. -/
lemma divides_iff :
    Divides index linker references fs failures ↔
      findings index linker references = fs ∧
        references.filterMap (failure? index linker) = failures := by
  constructor
  · intro h
    induction h with
    | nil => exact ⟨rfl, rfl⟩
    | finding h _ ih =>
      obtain ⟨rfl, rfl⟩ := ih
      have hanswer := answers_iff.1 h
      simp [findings, failure?, hanswer, Except.toOption]
    | failure h _ ih =>
      obtain ⟨rfl, rfl⟩ := ih
      have hanswer := answers_iff.1 h
      simp [findings, failure?, hanswer, Except.toOption]
  · rintro ⟨rfl, rfl⟩
    induction references with
    | nil => exact .nil
    | cons reference references ih =>
      cases hanswer : resolveText index linker reference with
      | ok f =>
        have hdivides := Divides.finding (answers_iff.2 hanswer) ih
        simpa [findings, failure?, hanswer, Except.toOption] using hdivides
      | error reason =>
        have hdivides := Divides.failure (answers_iff.2 hanswer) ih
        simpa [findings, failure?, hanswer, Except.toOption] using hdivides

/-- Complaints are made of the references that fail, in their order. -/
lemma complaints_eq_map (index : Index) (linker : Option Linker) (references : List String) :
    complaints index linker references =
      (references.filterMap (failure? index linker)).map complaintOf := by
  rw [complaints, List.map_filterMap]
  refine List.filterMap_congr fun reference _ => ?_
  rw [failure?]
  cases resolveText index linker reference <;> rfl

/-- What stands in a list of references is answered as it would be without the others. -/
lemma divides_append_iff {others : List String} :
    Divides index linker (references ++ others) fs failures ↔
      ∃ fs₁ fs₂ failures₁ failures₂, Divides index linker references fs₁ failures₁ ∧
        Divides index linker others fs₂ failures₂ ∧ fs = fs₁ ++ fs₂ ∧
        failures = failures₁ ++ failures₂ := by
  simp only [divides_iff, findings, List.filterMap_append]
  constructor
  · rintro ⟨rfl, rfl⟩
    exact ⟨_, _, _, _, ⟨rfl, rfl⟩, ⟨rfl, rfl⟩, rfl, rfl⟩
  · rintro ⟨_, _, _, _, ⟨rfl, rfl⟩, ⟨rfl, rfl⟩, rfl, rfl⟩
    exact ⟨rfl, rfl⟩

/-- References are divided in one way only. -/
lemma Divides.unique {gs : List Finding} {others : List (String × String)}
    (h : Divides index linker references fs failures)
    (h' : Divides index linker references gs others) : gs = fs ∧ others = failures := by
  obtain ⟨hfs, hfailures⟩ := divides_iff.1 h
  obtain ⟨hgs, hothers⟩ := divides_iff.1 h'
  exact ⟨hgs.symm.trans hfs, hothers.symm.trans hfailures⟩

/-- Every reference is on one side. -/
lemma Divides.length_add_length (h : Divides index linker references fs failures) :
    fs.length + failures.length = references.length := by
  induction h with
  | nil => rfl
  | finding _ _ ih =>
    rw [List.length_cons, List.length_cons]
    omega
  | failure _ _ ih =>
    rw [List.length_cons, List.length_cons]
    omega

/-- What stands on either side answers its reference. -/
lemma Divides.answers_of_mem (h : Divides index linker references fs failures) :
    (∀ f ∈ fs, Answers index linker f.reference (.ok f)) ∧
      ∀ c ∈ failures, Answers index linker c.1 (.error c.2) := by
  induction h with
  | nil => simp
  | finding h _ ih =>
    refine ⟨List.forall_mem_cons.2 ⟨?_, ih.1⟩, ih.2⟩
    rwa [h.reference_eq]
  | failure h _ ih => exact ⟨ih.1, List.forall_mem_cons.2 ⟨h, ih.2⟩⟩

/-! ### What is written, and the failure -/

/-- In lines, findings are written one after the other. -/
lemma writeFindings_append (fs gs : List Finding) :
    writeFindings false (fs ++ gs) = writeFindings false fs ++ writeFindings false gs := by
  simp [writeFindings]

/-- One failure alone is told after the heading. -/
lemma summarize_singleton (text : String) :
    summarize 1 [text] = "1 of 1 reference(s) could not be resolved\n\n" ++ text := by
  have hone : toString 1 = "1" := rfl
  rw [summarize, String.intercalate_singleton, List.length_singleton, hone]
  rfl

/-- What a run writes and how it ends, by the parts in which its references are divided. -/
lemma Divides.resolveAll_eq (h : Divides index linker references fs failures) (json : Bool) :
    resolveAll index linker json references =
      ⟨writeFindings json fs, if failures = [] then none
        else some [summarize references.length (failures.map complaintOf)]⟩ := by
  obtain ⟨hfs, hfailures⟩ := divides_iff.1 h
  rw [resolveAll, hfs, complaints_eq_map, hfailures]
  cases failures <;> rfl

/-- What a run tells of references that are divided into findings and failures. -/
structure Reports (index : Index) (linker : Option Linker) (references : List String)
    (fs : List Finding) (failures : List (String × String)) : Prop where
  divides : Divides index linker references fs failures
  /-- There is no other way to divide them. -/
  unique : ∀ gs others, Divides index linker references gs others → gs = fs ∧ others = failures
  length : fs.length + failures.length = references.length
  /-- What was resolved is told in the same way, and nothing else, if it is asked for alone. -/
  finding_alone : ∀ f ∈ fs, ∀ json,
    resolveAll index linker json [f.reference] = ⟨writeFindings json [f], none⟩
  failure_alone : ∀ c ∈ failures, ∀ json, resolveAll index linker json [c.1] =
    ⟨writeFindings json [], some ["1 of 1 reference(s) could not be resolved\n\n" ++ complaintOf c]⟩
  lines : (resolveAll index linker false references).written =
    String.join (fs.map fun f => f.line ++ "\n")
  append : ∀ front back, references = front ++ back →
    (resolveAll index linker false references).written =
      (resolveAll index linker false front).written ++ (resolveAll index linker false back).written
  /-- What is written as JSON is the array of the findings, and no other value. -/
  json : ∀ v, Json.IsTextOf (resolveAll index linker true references).written v ↔
    v = .array (fs.map Finding.toJson)
  json_findings : ∀ gs : List Finding,
    Json.IsTextOf (resolveAll index linker true references).written
      (.array (gs.map Finding.toJson)) → gs = fs
  succeeds : ∀ json, (resolveAll index linker json references).failure = none ↔ failures = []
  fails : failures ≠ [] → ∀ json, (resolveAll index linker json references).failure =
    some [toString failures.length ++ " of " ++ toString references.length ++
      " reference(s) could not be resolved\n\n" ++
      String.intercalate "\n\n" (failures.map complaintOf)]

/-- What is reported on divided references is made of the two sides. -/
lemma Divides.reports (h : Divides index linker references fs failures) :
    Reports index linker references fs failures where
  divides := h
  unique _ _ h' := h.unique h'
  length := h.length_add_length
  finding_alone f hf json := by
    have hdivides := Divides.finding (h.answers_of_mem.1 f hf) .nil
    exact hdivides.resolveAll_eq json
  failure_alone c hc json := by
    have hdivides := Divides.failure (h.answers_of_mem.2 c hc) .nil
    rw [hdivides.resolveAll_eq, if_neg (List.cons_ne_nil _ _)]
    exact congrArg (fun text => Outcome.mk _ (some [text])) (summarize_singleton _)
  lines := by
    rw [h.resolveAll_eq]
    rfl
  append front back heq := by
    subst heq
    obtain ⟨fs₁, fs₂, failures₁, failures₂, hfront, hback, rfl, rfl⟩ := divides_append_iff.1 h
    rw [h.resolveAll_eq, hfront.resolveAll_eq, hback.resolveAll_eq, writeFindings_append]
  json v := by
    rw [h.resolveAll_eq]
    exact Json.isTextOf_pretty_iff
  json_findings gs hgs := by
    rw [h.resolveAll_eq] at hgs
    have heq := Json.array.inj (Json.isTextOf_pretty_iff.1 hgs)
    exact Finding.toJson_injective.list_map heq
  succeeds json := by
    rw [h.resolveAll_eq]
    simp
  fails hne json := by
    rw [h.resolveAll_eq, if_neg hne, summarize, List.length_map]

/-- How a command line is carried out in a file tree: nothing is written if there are no settings or
no index. -/
structure Carries (i : Invocation) (tree : FileTree) (outcome : Outcome) : Prop where
  settings_error : ∀ e, i.options.settings tree = .error e → outcome = ⟨"", some e.chain⟩
  build_error : ∀ s e, i.options.settings tree = .ok s → s.buildIndex tree = .error e →
    outcome = ⟨"", some ["failed to build the class index", e.message]⟩
  resolve : ∀ s index references json, i.options.settings tree = .ok s →
    s.buildIndex tree = .ok index → i.command = .resolve references json →
    outcome = resolveAll index s.linker? json references

/-- A run carries out what its invocation asks for. -/
lemma Invocation.carries_run (i : Invocation) (tree : FileTree) : Carries i tree (i.run tree) where
  settings_error e he := by rw [run, he]
  build_error s e hs he := by simp only [run, hs, he]
  resolve s index references json hs hindex hcommand := by
    simp only [run, hs, hindex, hcommand, Command.run]

/-- Whatever is asked for, every reference is put among the findings or among the failures, and the
run tells of them by this division; without settings or an index, nothing is written. -/
theorem reports_and_carries_run (index : Index) (linker : Option Linker) (references : List String)
    (i : Invocation) (tree : FileTree) :
    (∃ fs failures, Reports index linker references fs failures) ∧ Carries i tree (i.run tree) :=
  ⟨⟨_, _, (divides_iff.2 ⟨rfl, rfl⟩).reports⟩, i.carries_run tree⟩

/-- Four references, two of which fail, and runs without settings and with a wrong namespace. -/
theorem reports_and_carries_run_overloadingTree :
    ∃ index, Index.build Index.overloadingTree .fail [⟨[112]⟩] "" = .ok index ∧
      (∃ fs failures, Reports index none ["a.B#run()", "a.C", "", "a.B"] fs failures ∧
        fs.map Finding.line = ["a.B#run()", "a.B"] ∧
        failures = [("a.C", "Unknown class 'a.C'"),
          ("", "'' is not a valid class or method reference: missing class name")]) ∧
      (Invocation.run ⟨{ config := some "x" }, .list⟩ Index.overloadingTree).written = "" ∧
      (Invocation.run ⟨{ basePackage := some "a b" }, .list⟩ Index.overloadingTree).written = "" := by
  have hparts : (Index.build Index.overloadingTree .fail [⟨[112]⟩] "").toOption.map
      (fun index => ((findings index none ["a.B#run()", "a.C", "", "a.B"]).map Finding.line,
        ["a.B#run()", "a.C", "", "a.B"].filterMap (failure? index none))) =
      some (["a.B#run()", "a.B"], [("a.C", "Unknown class 'a.C'"),
        ("", "'' is not a valid class or method reference: missing class name")]) := by
    decide +kernel
  obtain ⟨index, hindex, hview⟩ := Index.exists_build_of_map hparts
  obtain ⟨hlines, hfailures⟩ := Prod.mk.inj hview
  have hreports := reports_and_carries_run index none ["a.B#run()", "a.C", "", "a.B"]
  refine ⟨index, hindex, ?_, ?_, ?_⟩
  · obtain ⟨⟨fs, failures, h⟩, -⟩ := hreports ⟨{}, .list⟩ Index.overloadingTree
    obtain ⟨rfl, rfl⟩ := divides_iff.1 h.divides
    exact ⟨_, _, h, hlines, hfailures⟩
  · obtain ⟨-, h⟩ := hreports ⟨{ config := some "x" }, .list⟩ Index.overloadingTree
    have hsettings : Options.settings { config := some "x" } Index.overloadingTree =
        .error (.unreadable "x" (.noFile .notFound)) := by decide +kernel
    rw [h.settings_error _ hsettings]
  · obtain ⟨-, h⟩ := hreports ⟨{ basePackage := some "a b" }, .list⟩ Index.overloadingTree
    have hsettings : Options.settings { basePackage := some "a b" } Index.overloadingTree =
        .ok { basePackage := "a b" } := by decide +kernel
    have hbuild : Settings.buildIndex { basePackage := "a b" } Index.overloadingTree =
        .error (.invalidNamespace "a b" .illegalSegment) :=
      Index.eq_error_of_map_build (by decide +kernel)
    rw [h.build_error _ _ hsettings hbuild]

end ClasspathIndex.CommandLine
