import ClasspathIndex.Archive.Directory
import ClasspathIndex.Index.Build
import ClasspathIndex.Proofs.Index.NameGroups
import ClasspathIndex.Proofs.Index.Selection
import ClasspathIndex.Proofs.Sorting
import ClasspathIndex.Proofs.Text.Utf8

/-!
# How names are resolved

An index that was built has the groups of its own classes (`Index.simpleNames_of_build`).  Hence a
name resolves to the class with this full name, or else to what the classes with this simple name
are: none, one, or several, whose names are then told in strictly increasing order
(`Index.groupsExactly_and_resolvesExactly`).
-/

namespace ClasspathIndex

open Text

/-! ### Simple names -/

/-- Whether a text is what follows the last dot of a name; the whole name, if it has no dot. -/
def AfterLastDot (name text : String) : Prop :=
  '.' ∉ text.toList ∧ (name = text ∨ ∃ front, name = front ++ "." ++ text)

/-- The simple name is what follows the last dot. -/
lemma QualifiedName.simple_eq_iff {name text : String} :
    QualifiedName.simple name = text ↔ AfterLastDot name text := by
  unfold QualifiedName.simple AfterLastDot
  cases hbreak : breakLast '.' name.toList with
  | none =>
    have hdot := breakLast_eq_none.1 hbreak
    constructor
    · rintro rfl
      exact ⟨hdot, .inl rfl⟩
    · rintro ⟨-, rfl | ⟨front, rfl⟩⟩
      · rfl
      · exact absurd (by simp) hdot
  | some p =>
    obtain ⟨front, rest⟩ := p
    obtain ⟨hname, hrest⟩ := breakLast_eq_some.1 hbreak
    constructor
    · rintro rfl
      refine ⟨by simpa using hrest, .inr ⟨String.ofList front, ?_⟩⟩
      rw [← String.toList_inj, hname]
      simp
    · rintro ⟨hdot, rfl | ⟨other, rfl⟩⟩
      · rw [hname] at hdot
        exact absurd (by simp) hdot
      · have hsplit : (other ++ "." ++ text).toList = other.toList ++ '.' :: text.toList := by
          simp
        have hsame := breakLast_eq_some.2 ⟨hsplit, hdot⟩
        obtain ⟨-, rfl⟩ := Prod.mk.inj (Option.some.inj (hbreak.symm.trans hsame))
        exact String.ofList_toList

/-! ### Sorted texts -/

/-- Sorting keeps the texts. -/
lemma sortTexts_perm (texts : List String) : (sortTexts texts).Perm texts :=
  List.mergeSort_perm _ _

/-- Distinct texts are sorted strictly, also by their bytes. -/
lemma pairwise_encode_lt_sortTexts {texts : List String} (h : texts.Nodup) :
    (sortTexts texts).Pairwise fun a b => Utf8.encode a < Utf8.encode b := by
  have hids : (texts.map id).Nodup := by rwa [List.map_id]
  have hlt : (sortTexts texts).Pairwise fun a b => id a < id b := pairwise_lt_mergeSort_key hids
  exact hlt.imp Utf8.encode_lt_encode

/-- Sorted texts ascend, also by their bytes. -/
lemma pairwise_encode_le_sortTexts (texts : List String) :
    (sortTexts texts).Pairwise fun a b => Utf8.encode a ≤ Utf8.encode b := by
  have hle : (sortTexts texts).Pairwise fun a b => id a ≤ id b := pairwise_mergeSort_key id texts
  refine hle.imp fun {a b} h => ?_
  rcases Std.le_iff_lt_or_eq.1 h with hlt | rfl
  · exact List.le_of_lt (Utf8.encode_lt_encode hlt)
  · exact List.le_refl _

/-- What is sorted does not depend on the order in which it came. -/
lemma sortTexts_eq_of_perm {xs ys : List String} (h : xs.Perm ys) :
    sortTexts xs = sortTexts ys := by
  have hkey : ∀ a ∈ xs, ∀ b ∈ xs, id a = id b → a = b := fun _ _ _ _ heq => heq
  exact mergeSort_key_eq_of_perm h hkey

namespace Index

/-! ### The groups of an index -/

section Build

variable [ArchiveReader] {tree : FileTree} {policy : DuplicatePolicy} {paths : List Path}
  {b : String} {index : Index}

/-- An index that was built is that of some class files. -/
lemma exists_ofFiles_of_build (h : build tree policy paths b = .ok index) :
    ∃ rootCount files, ofFiles policy b rootCount files = .ok index := by
  unfold build at h
  split at h
  · exact ⟨_, _, h⟩
  · simp at h
  · simp at h

/-- An index is told to be built by something that can be computed of it. -/
lemma exists_build_of_map {α : Type} {f : Index → α} {x : α}
    (h : (build tree policy paths b).toOption.map f = some x) :
    ∃ index, build tree policy paths b = .ok index ∧ f index = x := by
  obtain ⟨index, hindex, hx⟩ := Option.map_eq_some_iff.1 h
  cases hbuild : build tree policy paths b with
  | error e =>
    rw [hbuild] at hindex
    simp [Except.toOption] at hindex
  | ok built =>
    rw [hbuild] at hindex
    obtain rfl := Option.some.inj hindex
    exact ⟨built, rfl, hx⟩

/-- A refusal, too, is told by something that can be computed. -/
lemma eq_error_of_map_build {e : BuildError}
    (h : (build tree policy paths b).map (fun _ => ()) = .error e) :
    build tree policy paths b = .error e := by
  cases hbuild : build tree policy paths b with
  | error e' =>
    rw [hbuild] at h
    rw [Except.error.inj h]
  | ok index =>
    rw [hbuild] at h
    cases h

/-- An index that was built has the groups of its classes. -/
lemma simpleNames_of_build (h : build tree policy paths b = .ok index) :
    index.simpleNames = .ofClasses index.classes.entries := by
  obtain ⟨rootCount, files, hfiles⟩ := exists_ofFiles_of_build h
  obtain ⟨c, -, rfl⟩ := ofFiles_eq_ok_iff.1 hfiles
  rfl

end Build

/-! ### Namesakes -/

/-- What a simple name stands for, among all classes that have it. -/
def chooseNamesake (name : String) : List ClassSymbol → Except ResolveError ClassSymbol
  | [] => .error (.classNotFound name)
  | [c] => .ok c
  | cs => .error (.classAmbiguous name (sortTexts (cs.map ClassSymbol.name)))

/-- Of different classes none is chosen. -/
lemma chooseNamesake_of_ne {name : String} {cs : List ClassSymbol} {c d : ClassSymbol}
    (hc : c ∈ cs) (hd : d ∈ cs) (hne : c ≠ d) :
    chooseNamesake name cs =
      .error (.classAmbiguous name (sortTexts (cs.map ClassSymbol.name))) := by
  match cs with
  | [] => exact absurd hc List.not_mem_nil
  | [e] =>
    rw [List.mem_singleton] at hc hd
    exact absurd (hc.trans hd.symm) hne
  | e :: e' :: rest => rfl

/-- The order of the namesakes is lost: several of them are told sorted. -/
lemma chooseNamesake_eq_of_perm {name : String} {cs ds : List ClassSymbol} (h : cs.Perm ds) :
    chooseNamesake name cs = chooseNamesake name ds := by
  have hsorted := sortTexts_eq_of_perm (h.map ClassSymbol.name)
  match cs, ds with
  | [], ds => rw [List.nil_perm.1 h]
  | [c], ds => rw [List.singleton_perm.1 h]
  | c :: c' :: cs, [] => exact absurd h.length_eq (by simp)
  | c :: c' :: cs, [d] => exact absurd h.length_eq (by simp)
  | c :: c' :: cs, d :: d' :: ds =>
    exact congrArg (fun texts => Except.error (ResolveError.classAmbiguous name texts)) hsorted

variable {index other : Index}

/-- A name is looked for among the full names first, and then among the simple ones. -/
lemma resolve_eq (h : index.simpleNames = .ofClasses index.classes.entries) (name : String) :
    index.resolve name =
      match index.classes.find? name with
      | some c => .ok c
      | none =>
        chooseNamesake name (index.classes.entries.filter fun c => c.simpleName == name) := by
  unfold resolve resolveClass
  rw [h, NameGroups.members_ofClasses]
  rfl

/-- Indexes of the same classes answer alike, whatever the order of the classes. -/
lemma resolve_eq_of_perm (h : index.simpleNames = .ofClasses index.classes.entries)
    (hother : other.simpleNames = .ofClasses other.classes.entries)
    (hclasses : index.classes.entries.Perm other.classes.entries) (name : String) :
    index.resolve name = other.resolve name := by
  rw [resolve_eq h, resolve_eq hother, Registry.find?_eq_of_perm hclasses,
    chooseNamesake_eq_of_perm (hclasses.filter _)]

/-- What a reference stands for depends on what names resolve to. -/
lemma lookup_eq_of_resolve_eq (h : ∀ name, index.resolve name = other.resolve name)
    (r : Reference) : index.lookup r = other.lookup r := by
  have hclass : resolveClass index.classes index.simpleNames r.className =
      resolveClass other.classes other.simpleNames r.className := h r.className
  unfold lookup lookupReference
  rw [hclass]

/-! ### Resolution -/

/-- Every class is in exactly one group, the one of its simple name, exactly once; groups hold
classes of the index, in their order. -/
structure GroupsExactly (index : Index) : Prop where
  grouped : ∀ place c, index.classes.entries[place]? = some c →
    ∃ g ∈ index.simpleNames.entries, AfterLastDot c.name g.name ∧ g.places.count place = 1 ∧
      ∀ other ∈ index.simpleNames.entries, place ∈ other.places → other = g
  ordered : ∀ g ∈ index.simpleNames.entries, g.places.Pairwise (· < ·)
  bounded : ∀ g ∈ index.simpleNames.entries, ∀ place ∈ g.places, place < index.size

/-- Full names resolve to their classes; a text that is no full name resolves to the one class
with this simple name, and fails if there is none or several. -/
structure ResolvesExactly (index : Index) : Prop where
  fullName : ∀ c ∈ index.classes.entries, index.resolve c.name = .ok c
  unknown : ∀ name, name ∉ index.classes.names →
    (∀ c ∈ index.classes.entries, ¬ AfterLastDot c.name name) →
      index.resolve name = .error (.classNotFound name)
  unique : ∀ name, name ∉ index.classes.names →
    ∀ c ∈ index.classes.entries, AfterLastDot c.name name →
      (∀ d ∈ index.classes.entries, AfterLastDot d.name name → d = c) →
        index.resolve name = .ok c
  /-- The candidates are the names of all classes with the simple name, in the order of their
  bytes, and each resolves to its class. -/
  ambiguous : ∀ name, name ∉ index.classes.names →
    ∀ c ∈ index.classes.entries, ∀ d ∈ index.classes.entries, c ≠ d →
      AfterLastDot c.name name → AfterLastDot d.name name →
        ∃ candidates, index.resolve name = .error (.classAmbiguous name candidates) ∧
          (∀ text, text ∈ candidates ↔
            ∃ e ∈ index.classes.entries, AfterLastDot e.name name ∧ e.name = text) ∧
          candidates.Pairwise (fun a b => Utf8.encode a < Utf8.encode b) ∧
          ∀ text ∈ candidates, ∃ e ∈ index.classes.entries,
            e.name = text ∧ index.resolve text = .ok e

/-- The groups that are made of the classes are exact. -/
lemma groupsExactly (h : index.simpleNames = .ofClasses index.classes.entries) :
    index.GroupsExactly where
  grouped := by
    intro place c hc
    rw [h]
    have hplace := NameGroups.mem_placesOf_ofClasses.2 ⟨c, hc, rfl⟩
    obtain ⟨g, hg, hname, -⟩ := NameGroups.mem_entries_of_mem_placesOf hplace
    refine ⟨g, hg, QualifiedName.simple_eq_iff.1 hname.symm, ?_, ?_⟩
    · rw [NameGroups.count_places_ofClasses hg hc, if_pos hname.symm]
    · intro other hother hmem
      have hcount := List.count_pos_iff.2 hmem
      rw [NameGroups.count_places_ofClasses hother hc] at hcount
      split at hcount
      · rename_i hsame
        exact List.inj_on_of_nodup_map (NameGroups.ofClasses _).distinct hother hg
          (hsame.symm.trans hname.symm)
      · exact absurd hcount (Nat.lt_irrefl 0)
  ordered := by
    intro g hg
    rw [h] at hg
    rw [← NameGroups.placesOf_of_mem hg]
    exact NameGroups.pairwise_placesOf_ofClasses _ _
  bounded := by
    intro g hg place hplace
    rw [h] at hg
    rw [← NameGroups.placesOf_of_mem hg] at hplace
    obtain ⟨c, hc, -⟩ := NameGroups.mem_placesOf_ofClasses.1 hplace
    exact (List.getElem?_eq_some_iff.1 hc).1

/-- A name that no class has is not found. -/
lemma find?_eq_none {name : String} (h : name ∉ index.classes.names) :
    index.classes.find? name = none :=
  Registry.find?_eq_none_iff.2 h

/-- The full name of a class stands for this class. -/
lemma resolve_name {c : ClassSymbol} (h : c ∈ index.classes.entries) :
    index.resolve c.name = .ok c := by
  obtain ⟨d, hd, hresolve, hname⟩ := exists_resolve_eq_ok index (List.mem_map_of_mem h)
  rw [List.inj_on_of_nodup_map index.classes.distinct hd h hname] at hresolve
  exact hresolve

/-- The classes with a simple name are those with this name behind the last dot. -/
lemma mem_filter_simpleName_iff {name : String} {c : ClassSymbol} :
    (c ∈ index.classes.entries.filter fun c => c.simpleName == name) ↔
      c ∈ index.classes.entries ∧ AfterLastDot c.name name := by
  rw [List.mem_filter, beq_iff_eq, ClassSymbol.simpleName, QualifiedName.simple_eq_iff]

/-- With the groups of its classes, an index resolves names exactly. -/
lemma resolvesExactly (h : index.simpleNames = .ofClasses index.classes.entries) :
    index.ResolvesExactly where
  fullName c hc := resolve_name hc
  unknown := by
    intro name hname hnone
    have hempty : (index.classes.entries.filter fun c => c.simpleName == name) = [] := by
      rw [List.eq_nil_iff_forall_not_mem]
      intro c hc
      obtain ⟨hc, hsimple⟩ := mem_filter_simpleName_iff.1 hc
      exact hnone c hc hsimple
    rw [resolve_eq h, find?_eq_none hname, hempty]
    rfl
  unique := by
    intro name hname c hc hsimple hunique
    have hnodup := index.classes.distinct.of_map.filter fun c => c.simpleName == name
    -- Names are distinct, so a list of what is `c` is the list of `c` alone.
    have hone : (index.classes.entries.filter fun c => c.simpleName == name) = [c] := by
      rw [← List.perm_singleton, List.perm_ext_iff_of_nodup hnodup (List.nodup_singleton c)]
      intro d
      rw [mem_filter_simpleName_iff, List.mem_singleton]
      constructor
      · rintro ⟨hd, hdsimple⟩
        exact hunique d hd hdsimple
      · rintro rfl
        exact ⟨hc, hsimple⟩
    rw [resolve_eq h, find?_eq_none hname, hone]
    rfl
  ambiguous := by
    intro name hname c hc d hd hne hcsimple hdsimple
    obtain ⟨cs, hcs⟩ : ∃ cs, (index.classes.entries.filter fun c => c.simpleName == name) = cs :=
      ⟨_, rfl⟩
    have hmember (e : ClassSymbol) :
        e ∈ cs ↔ e ∈ index.classes.entries ∧ AfterLastDot e.name name := by
      rw [← hcs, mem_filter_simpleName_iff]
    have hdistinct : (cs.map ClassSymbol.name).Nodup := by
      rw [← hcs]
      exact index.classes.distinct.sublist (List.filter_sublist.map _)
    have hmem (text : String) : text ∈ sortTexts (cs.map ClassSymbol.name) ↔
        ∃ e ∈ index.classes.entries, AfterLastDot e.name name ∧ e.name = text := by
      rw [(sortTexts_perm _).mem_iff, List.mem_map]
      simp only [hmember, and_assoc]
    refine ⟨sortTexts (cs.map ClassSymbol.name), ?_, hmem,
      pairwise_encode_lt_sortTexts hdistinct, ?_⟩
    · rw [resolve_eq h, find?_eq_none hname, hcs]
      exact chooseNamesake_of_ne ((hmember c).2 ⟨hc, hcsimple⟩) ((hmember d).2 ⟨hd, hdsimple⟩) hne
    · intro text htext
      obtain ⟨e, he, -, rfl⟩ := (hmem text).1 htext
      exact ⟨e, he, rfl, resolve_name he⟩

/-- Every index that is built groups its classes by simple name, each once, and resolves names by
these groups. -/
theorem groupsExactly_and_resolvesExactly [ArchiveReader] {tree : FileTree}
    {policy : DuplicatePolicy} {paths : List Path} {b : String} {index : Index}
    (h : build tree policy paths b = .ok index) :
    index.GroupsExactly ∧ index.ResolvesExactly := by
  have hgroups := simpleNames_of_build h
  exact ⟨groupsExactly hgroups, resolvesExactly hgroups⟩

/-- Two directories `p` and `q` with the class files of `a/B` and `b/B`. -/
def sharedNameTree : FileTree where
  root := .dir [
    ([112], .dir [([66, 46, 99, 108, 97, 115, 115], .file sampleFile)]),
    ([113], .dir [([66, 46, 99, 108, 97, 115, 115], .file (sampleFile.set 13 98))])]
  workingDirectory := []

/-- Two classes with one simple name. -/
theorem groupsExactly_and_resolvesExactly_sharedNameTree :
    ∃ index, build sharedNameTree .fail [⟨[112]⟩, ⟨[113]⟩] "" = .ok index ∧
      index.classes.names = ["a.B", "b.B"] ∧ index.GroupsExactly ∧ index.ResolvesExactly := by
  have hnames : (build sharedNameTree .fail [⟨[112]⟩, ⟨[113]⟩] "").toOption.map
      (fun index => index.classes.names) = some ["a.B", "b.B"] := by decide +kernel
  obtain ⟨index, hindex, hnames⟩ := exists_build_of_map hnames
  exact ⟨index, hindex, hnames, groupsExactly_and_resolvesExactly hindex⟩

end Index

end ClasspathIndex
