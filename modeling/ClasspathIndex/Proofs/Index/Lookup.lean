import ClasspathIndex.Archive.Directory
import ClasspathIndex.Proofs.Index.Resolution
import ClasspathIndex.Proofs.Reference

/-!
# Looking up what is printed

The text that is told of a method, its signature after the name of its class, is read as the
reference to this class with the name and the argument types of the method
(`ClassSymbol.parse_signature`).  Looking it up therefore depends on nothing but how many methods
of the class have this name and these argument types: one is found, and several are told by the
signature that they share (`Index.addresses_of_mem`).
-/

namespace ClasspathIndex

open Text Reference

namespace MethodSymbol

/-- The name and the argument types of a method, as a reference asks for them. -/
def selector (m : MethodSymbol) : MethodSelector :=
  ⟨m.name, some m.argumentTypes⟩

/-- The selector of a method is written as its signature. -/
lemma renderMethod_selector (m : MethodSymbol) : renderMethod m.selector = m.signature :=
  rfl

/-- Methods have the same selector if their names and argument types are the same. -/
lemma selector_eq_iff {k m : MethodSymbol} :
    k.selector = m.selector ↔ k.name = m.name ∧ k.argumentTypes = m.argumentTypes := by
  simp [selector]

/-- Methods that are asked for alike have one signature. -/
lemma signature_eq_of_selector_eq {k m : MethodSymbol} (h : k.selector = m.selector) :
    k.signature = m.signature := by
  rw [← renderMethod_selector, h, renderMethod_selector]

end MethodSymbol

/-- An element occurs again exactly if it stands at another place. -/
lemma two_le_count_iff {α : Type} [DecidableEq α] {xs : List α} {x : α} {place : Nat}
    (h : xs[place]? = some x) : 2 ≤ xs.count x ↔ ∃ other ≠ place, xs[other]? = some x := by
  rw [← List.duplicate_iff_two_le_count, List.duplicate_iff_exists_distinct_get]
  constructor
  · rintro ⟨i, j, hlt, hi, hj⟩
    by_cases hplace : i.1 = place
    · refine ⟨j, fun hj' => ?_, by rw [List.getElem?_eq_getElem j.2, hj, List.get_eq_getElem]⟩
      exact absurd (hplace.trans hj'.symm) (Nat.ne_of_lt hlt)
    · exact ⟨i, hplace, by rw [List.getElem?_eq_getElem i.2, hi, List.get_eq_getElem]⟩
  · rintro ⟨other, hne, hother⟩
    obtain ⟨hplaceLt, hx⟩ := List.getElem?_eq_some_iff.1 h
    obtain ⟨hotherLt, hx'⟩ := List.getElem?_eq_some_iff.1 hother
    rcases Nat.lt_or_gt_of_ne hne with hlt | hlt
    · exact ⟨⟨other, hotherLt⟩, ⟨place, hplaceLt⟩, hlt, hx'.symm, hx.symm⟩
    · exact ⟨⟨place, hplaceLt⟩, ⟨other, hotherLt⟩, hlt, hx.symm, hx'.symm⟩

namespace ClassSymbol

variable {c : ClassSymbol} {m : MethodSymbol}

/-! ### Methods that fit -/

/-- The methods that fit the selector of a method are those with the same one. -/
lemma fits_selector_iff {k : MethodSymbol} :
    fits m.name (some m.argumentTypes) k = true ↔ k.selector = m.selector := by
  simp [fits, MethodSymbol.selector_eq_iff]

/-- How many methods of a class have the name and the argument types of a method. -/
def multiplicity (c : ClassSymbol) (m : MethodSymbol) : Nat :=
  (c.methods.map MethodSymbol.selector).count m.selector

/-- As many methods fit as the class has with this selector. -/
lemma length_filter_fits (c : ClassSymbol) (m : MethodSymbol) :
    (c.methods.filter (fits m.name (some m.argumentTypes))).length = c.multiplicity m := by
  rw [multiplicity, List.count, List.countP_map, ← List.countP_eq_length_filter]
  refine List.countP_congr fun k _ => ?_
  rw [fits_selector_iff, Function.comp_apply, beq_iff_eq]

/-- Two or more are there if another place has the same selector. -/
lemma two_le_multiplicity_iff {place : Nat} (h : c.methods[place]? = some m) :
    2 ≤ c.multiplicity m ↔
      ∃ other k, c.methods[other]? = some k ∧ other ≠ place ∧ k.selector = m.selector := by
  have hplace : (c.methods.map MethodSymbol.selector)[place]? = some m.selector := by
    rw [List.getElem?_map, h, Option.map_some]
  rw [multiplicity, two_le_count_iff hplace]
  simp only [List.getElem?_map, Option.map_eq_some_iff]
  constructor
  · rintro ⟨other, hne, k, hk, hsame⟩
    exact ⟨other, k, hk, hne, hsame⟩
  · rintro ⟨other, k, hk, hne, hsame⟩
    exact ⟨other, hne, k, hk, hsame⟩

/-- Several methods that fit are told by their signatures. -/
lemma selectMethod_of_two_le {name : String} {arguments : Option (List String)}
    (h : 2 ≤ (c.methods.filter (fits name arguments)).length) :
    c.selectMethod name arguments = .error (.methodAmbiguous c.name name arguments
      (sortTexts ((c.methods.filter (fits name arguments)).map MethodSymbol.signature))) := by
  unfold selectMethod
  split
  · rename_i hnil
    rw [hnil] at h
    exact absurd h (by simp)
  · rename_i hone
    rw [hone] at h
    exact absurd h (by simp)
  · rfl

/-- What asking for the method at a place by its name and argument types gives: what was to be
found, if no other method has them, and otherwise the signature, once for each that has them. -/
structure AnswersExactly {α : Type} (c : ClassSymbol) (place : Nat) (m : MethodSymbol) (found : α)
    (answer : Except ResolveError α) : Prop where
  sole : (∀ other k, c.methods[other]? = some k → k.selector = m.selector → other = place) →
    answer = .ok found
  several : ∀ other k, c.methods[other]? = some k → other ≠ place → k.selector = m.selector →
    answer = .error (.methodAmbiguous c.name m.name (some m.argumentTypes)
      (List.replicate (c.multiplicity m) m.signature))

/-- What is made of the answer is said of the same outcome. -/
lemma AnswersExactly.map {α β : Type} {place : Nat} {found : α} {answer : Except ResolveError α}
    (h : c.AnswersExactly place m found answer) (f : α → β) :
    c.AnswersExactly place m (f found) (answer.map f) where
  sole hsole := by rw [h.sole hsole, Except.map]
  several other k hk hne hsame := by rw [h.several other k hk hne hsame, Except.map]

/-- A method is selected by its name and argument types. -/
lemma answersExactly_selectMethod {place : Nat} (h : c.methods[place]? = some m) :
    c.AnswersExactly place m m (c.selectMethod m.name (some m.argumentTypes)) where
  sole hsole := by
    have hmem : m ∈ c.methods.filter (fits m.name (some m.argumentTypes)) :=
      List.mem_filter.2 ⟨List.mem_of_getElem? h, fits_selector_iff.2 rfl⟩
    have hle : ¬ 2 ≤ c.multiplicity m := by
      rw [two_le_multiplicity_iff h]
      rintro ⟨other, k, hk, hne, hsame⟩
      exact hne (hsole other k hk hsame)
    have hone : (c.methods.filter (fits m.name (some m.argumentTypes))).length = 1 := by
      have hpos := List.length_pos_of_mem hmem
      rw [← length_filter_fits] at hle
      omega
    obtain ⟨k, hk⟩ := List.length_eq_one_iff.1 hone
    rw [hk, List.mem_singleton] at hmem
    rw [selectMethod, hk, hmem]
  several other k hk hne hsame := by
    have htwo := (two_le_multiplicity_iff h).2 ⟨other, k, hk, hne, hsame⟩
    rw [← length_filter_fits] at htwo
    have hsignatures :
        (c.methods.filter (fits m.name (some m.argumentTypes))).map MethodSymbol.signature =
          List.replicate (c.multiplicity m) m.signature := by
      rw [← length_filter_fits, List.map_eq_replicate_iff]
      intro k hk
      have hfits := (List.mem_filter.1 hk).2
      exact MethodSymbol.signature_eq_of_selector_eq (fits_selector_iff.1 hfits)
    rw [selectMethod_of_two_le htwo, hsignatures, List.perm_replicate.1 (sortTexts_perm _)]

/-- A method is selected if no other one has its name and argument types, and otherwise its
signature is told, once for each method that has them. -/
lemma selectMethod_eq (hm : m ∈ c.methods) :
    c.selectMethod m.name (some m.argumentTypes) =
      if c.multiplicity m = 1 then .ok m
      else .error (.methodAmbiguous c.name m.name (some m.argumentTypes)
        (List.replicate (c.multiplicity m) m.signature)) := by
  obtain ⟨place, hplace⟩ := List.mem_iff_getElem?.1 hm
  have hanswer := answersExactly_selectMethod hplace
  have hpos : 0 < c.multiplicity m := List.count_pos_iff.2 (List.mem_map_of_mem hm)
  split
  · rename_i hone
    refine hanswer.sole fun other k hk hsame => ?_
    by_contra hne
    have htwo := (two_le_multiplicity_iff hplace).2 ⟨other, k, hk, hne, hsame⟩
    omega
  · rename_i hone
    obtain ⟨other, k, hk, hne, hsame⟩ := (two_le_multiplicity_iff hplace).1 (by omega)
    exact hanswer.several other k hk hne hsame

/-- What asking for a method by its name alone gives, if it fails: all methods with this name, by
their signatures in the order of their bytes, so that each can be asked for with its argument
types. -/
structure ListsOverloads (c : ClassSymbol) (m : MethodSymbol) (signatures : List String) :
    Prop where
  perm : signatures.Perm
    ((c.methods.filter fun k => k.name = m.name).map MethodSymbol.signature)
  sorted : signatures.Pairwise fun a b => Utf8.encode a ≤ Utf8.encode b
  answers : ∀ place k, c.methods[place]? = some k → k.name = m.name →
    c.AnswersExactly place k k (c.selectMethod k.name (some k.argumentTypes))

/-- A method of a class is not selected by its name alone only if others have the name too. -/
lemma exists_listsOverloads (hm : m ∈ c.methods) {e : ResolveError}
    (h : c.selectMethod m.name none = .error e) :
    ∃ signatures, e = .methodAmbiguous c.name m.name none signatures ∧
      c.ListsOverloads m signatures := by
  have hfilter : c.methods.filter (fits m.name none) =
      c.methods.filter fun k => k.name = m.name := by
    refine List.filter_congr fun k _ => ?_
    rw [fits, Option.all_none, Bool.and_true]
    exact beq_eq_decide _ _
  have hmem : m ∈ c.methods.filter (fits m.name none) := by
    rw [hfilter, List.mem_filter]
    exact ⟨hm, decide_eq_true rfl⟩
  rw [selectMethod] at h
  split at h
  · rename_i hnil
    rw [hnil] at hmem
    exact absurd hmem List.not_mem_nil
  · cases h
  · obtain rfl := Except.error.inj h
    refine ⟨_, rfl, ?_, pairwise_encode_le_sortTexts _, fun place k hk _ =>
      answersExactly_selectMethod hk⟩
    rw [← hfilter]
    exact sortTexts_perm _

/-! ### Texts of classes and methods -/

/-- The name of a class is read as a reference to the class. -/
lemma parse_name (h : IsName c.name) : parse c.name = .ok ⟨c.name, none⟩ := by
  have hrender : parse (render ⟨c.name, none⟩) = .ok ⟨c.name, none⟩ := parse_render ⟨h, by simp⟩
  exact hrender

/-- The signature of a method after the name of its class is read as the reference to both. -/
lemma parse_signature (hc : IsName c.name) (hm : m.selector.WellFormed) :
    parse (c.name ++ "#" ++ m.signature) = .ok ⟨c.name, some m.selector⟩ := by
  have hrender : parse (render ⟨c.name, some m.selector⟩) = .ok ⟨c.name, some m.selector⟩ :=
    parse_render ⟨hc, fun _ heq => Option.some.inj heq ▸ hm⟩
  exact hrender

end ClassSymbol

namespace Index

variable {index : Index} {c : ClassSymbol}

/-- A class is looked up by its name. -/
lemma lookup_class (hc : c ∈ index.classes.entries) :
    index.lookup ⟨c.name, none⟩ = .ok (.classSymbol c) := by
  have hclass : resolveClass index.classes index.simpleNames c.name = .ok c := resolve_name hc
  rw [lookup, lookupReference, hclass]
  rfl

/-- A method is looked up in the class with this name. -/
lemma lookup_method (hc : c ∈ index.classes.entries) (m : MethodSelector) :
    index.lookup ⟨c.name, some m⟩ =
      (c.selectMethod m.name m.arguments).map (.methodSymbol c) := by
  have hclass : resolveClass index.classes index.simpleNames c.name = .ok c := resolve_name hc
  rw [lookup, lookupReference, hclass]
  simp only [bind, Except.bind]
  cases c.selectMethod m.name m.arguments <;> rfl

/-- What is told of a class and of its methods can be looked up: a class by its name, and a method
by its signature after this name. -/
structure Addresses (index : Index) (c : ClassSymbol) : Prop where
  ofClass : IsName c.name → ∃ r, parse c.name = .ok r ∧ index.lookup r = .ok (.classSymbol c)
  ofMethod : IsName c.name → ∀ place m, c.methods[place]? = some m → m.selector.WellFormed →
    ∃ r, parse (c.name ++ "#" ++ m.signature) = .ok r ∧
      c.AnswersExactly place m (.methodSymbol c m) (index.lookup r)
  ofOverloads : ∀ m ∈ c.methods, ∀ e, c.selectMethod m.name none = .error e →
    ∃ signatures, e = .methodAmbiguous c.name m.name none signatures ∧
      c.ListsOverloads m signatures

/-- Every class of an index and every method of such a class can be looked up by the text that is
told of it; methods of one name are told apart by their argument types, as far as these differ. -/
theorem addresses_of_mem (hc : c ∈ index.classes.entries) : index.Addresses c where
  ofClass hname := ⟨_, ClassSymbol.parse_name hname, lookup_class hc⟩
  ofMethod hname place m hm hselector := by
    refine ⟨_, ClassSymbol.parse_signature hname hselector, ?_⟩
    rw [lookup_method hc]
    exact (ClassSymbol.answersExactly_selectMethod hm).map _
  ofOverloads _ hm _ h := ClassSymbol.exists_listsOverloads hm h

/-- The class file of `a/B` with the methods `run()V`, `run(I)V` and `run(I)I`. -/
def overloadingFile : Bytes :=
  [202, 254, 186, 190, 0, 0, 0, 52, 0, 7, 1, 0, 3, 97, 47, 66, 7, 0, 1, 1, 0, 3, 114, 117, 110, 1,
    0, 3, 40, 41, 86, 1, 0, 4, 40, 73, 41, 86, 1, 0, 4, 40, 73, 41, 73, 0, 33, 0, 2, 0, 0, 0, 0,
    0, 0, 0, 3, 4, 1, 0, 3, 0, 4, 0, 0, 4, 1, 0, 3, 0, 5, 0, 0, 4, 1, 0, 3, 0, 6, 0, 0, 0, 0]

/-- Its symbol, with two methods that differ in nothing. -/
def overloadingClass : ClassSymbol where
  name := "a.B"
  methods := [⟨"run", [], false, false⟩, ⟨"run", ["int"], false, false⟩,
    ⟨"run", ["int"], false, false⟩]

/-- A directory `p` with this class file. -/
def overloadingTree : FileTree where
  root := .dir [([112], .dir [([66, 46, 99, 108, 97, 115, 115], .file overloadingFile)])]
  workingDirectory := []

/-- A class with one method alone and two that differ in nothing. -/
theorem addresses_of_mem_overloadingTree :
    ∃ index, build overloadingTree .fail [⟨[112]⟩] "" = .ok index ∧
      (∃ r, parse "a.B" = .ok r ∧ index.lookup r = .ok (.classSymbol overloadingClass)) ∧
      (∃ r, parse "a.B#run()" = .ok r ∧
        index.lookup r = .ok (.methodSymbol overloadingClass ⟨"run", [], false, false⟩)) ∧
      (∃ r, parse "a.B#run(int)" = .ok r ∧ index.lookup r =
        .error (.methodAmbiguous "a.B" "run" (some ["int"]) ["run(int)", "run(int)"])) ∧
      ∃ signatures, overloadingClass.selectMethod "run" none =
          .error (.methodAmbiguous "a.B" "run" none signatures) ∧
        signatures.Perm ["run()", "run(int)", "run(int)"] := by
  have hclasses : (build overloadingTree .fail [⟨[112]⟩] "").toOption.map
      (fun index => index.classes.entries) = some [overloadingClass] := by decide +kernel
  obtain ⟨index, hindex, hentries⟩ := exists_build_of_map hclasses
  have hmem : overloadingClass ∈ index.classes.entries := by
    rw [hentries]
    exact List.mem_singleton_self _
  obtain ⟨hclass, hmethod, hoverloads⟩ := addresses_of_mem hmem
  have hreadNone : parse "a.B#run()" = .ok ⟨"a.B", some ⟨"run", some []⟩⟩ := by decide
  have hreadInt : parse "a.B#run(int)" = .ok ⟨"a.B", some ⟨"run", some ["int"]⟩⟩ := by decide
  obtain ⟨hname, hnone⟩ := (parse_eq_ok_iff.1 hreadNone).1
  obtain ⟨-, hint⟩ := (parse_eq_ok_iff.1 hreadInt).1
  refine ⟨index, hindex, hclass hname, ?_, ?_, ?_⟩
  · obtain ⟨r, hr, hlookup⟩ :=
      hmethod hname 0 ⟨"run", [], false, false⟩ rfl (hnone _ rfl)
    refine ⟨r, hr, hlookup.sole ?_⟩
    rintro (_ | _ | _ | other) k ⟨⟩ hsame
    · rfl
    · exact absurd hsame (by decide)
    · exact absurd hsame (by decide)
  · obtain ⟨r, hr, hlookup⟩ :=
      hmethod hname 1 ⟨"run", ["int"], false, false⟩ rfl (hint _ rfl)
    exact ⟨r, hr, hlookup.several 2 ⟨"run", ["int"], false, false⟩ rfl (by decide) rfl⟩
  · obtain ⟨e, he⟩ : ∃ e, overloadingClass.selectMethod "run" none = .error e := ⟨_, rfl⟩
    obtain ⟨signatures, rfl, hlists⟩ :=
      hoverloads ⟨"run", [], false, false⟩ List.mem_cons_self e he
    exact ⟨signatures, he, hlists.perm⟩

end Index

end ClasspathIndex
