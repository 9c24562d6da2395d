import ClasspathIndex.Linker
import ClasspathIndex.Proofs.QualifiedName
import ClasspathIndex.Proofs.Text.Split

/-!
# Links tell classes and methods apart

The address of a page can be read back: `nameOfPage` gives the name of the class whose page it is
(`nameOfPage_page`).  The anchor of a method is a name, argument types and three kinds of marks, of
which neither the name nor the types hold any; that the last type of a method with a variable
number of arguments is written with three dots is undone by `arrayForm`
(`map_arrayForm_anchorArguments`).  So the address of a method gives its class, its name and its
argument types (`Linker.page_and_methodUrl_injective`).
-/

namespace ClasspathIndex

open Text

/-! ### Endings -/

section Endings

variable {old new s : String}

/-- Replaces one ending of a text by another, if it has it. -/
def replaceEnding (old new s : String) : String :=
  if old.toList.isSuffixOf s.toList then
    String.ofList (s.toList.take (s.toList.length - old.length)) ++ new
  else s

/-- The ending is replaced where the text has it. -/
lemma replaceEnding_append (old new s : String) : replaceEnding old new (s ++ old) = s ++ new := by
  have hsuffix : old.toList.isSuffixOf (s ++ old).toList = true :=
    List.isSuffixOf_iff_suffix.2 ⟨s.toList, String.toList_append.symm⟩
  have hstem : (s ++ old).toList.take ((s ++ old).toList.length - old.length) = s.toList := by
    rw [String.toList_append, List.length_append, ← String.length_toList (s := old),
      Nat.add_sub_cancel, List.take_left]
  rw [replaceEnding, if_pos hsuffix, hstem, String.ofList_toList]

/-- Nothing is replaced where it has not. -/
lemma replaceEnding_of_not_suffix (h : ¬ old.toList <:+ s.toList) : replaceEnding old new s = s :=
  if_neg (by rwa [List.isSuffixOf_iff_suffix])

/-- An ending is replaced, or there is none. -/
lemma replaceEnding_eq_or (old new s : String) :
    (∃ stem, s = stem ++ old ∧ replaceEnding old new s = stem ++ new) ∨
      replaceEnding old new s = s := by
  by_cases h : old.toList <:+ s.toList
  · obtain ⟨stem, hstem⟩ := h
    obtain rfl : s = String.ofList stem ++ old := by
      rw [← String.toList_inj, ← hstem]
      simp
    exact .inl ⟨_, rfl, replaceEnding_append old new _⟩
  · exact .inr (replaceEnding_of_not_suffix h)

/-- A replaced ending is put back, if the text did not have the new one before. -/
lemma replaceEnding_replaceEnding (h : ¬ new.toList <:+ s.toList) :
    replaceEnding new old (replaceEnding old new s) = s := by
  rcases replaceEnding_eq_or old new s with ⟨stem, hs, hreplaced⟩ | hsame
  · rw [hreplaced, replaceEnding_append, ← hs]
  · rw [hsame, replaceEnding_of_not_suffix h]

end Endings

/-! ### Pages -/

/-- Whether a name can be told by its page: it holds neither a slash nor a `#`, and does not start
with a dot. -/
structure LinkableName (name : String) : Prop where
  slash : '/' ∉ name.toList
  hash : '#' ∉ name.toList
  dot : name.toList.head? ≠ some '.'

/-- The simple name that the file of a page stands for. -/
def simpleNameOfFile (file : String) : String :=
  QualifiedName.replaceChar '.' '$' (replaceEnding ".html" "" file)

/-- The name of the class that a page is about. -/
def nameOfPage (page : String) : String :=
  match breakLast '/' page.toList with
  | some (directory, file) =>
    QualifiedName.dotted (String.ofList directory) ++ "." ++ simpleNameOfFile (String.ofList file)
  | none => simpleNameOfFile page

/-- The file of the page of a class. -/
def pageFile (simpleName : String) : String :=
  QualifiedName.replaceChar '$' '.' simpleName ++ ".html"

/-- The simple name is read back from the file of the page. -/
lemma simpleNameOfFile_pageFile {simpleName : String} (h : '.' ∉ simpleName.toList) :
    simpleNameOfFile (pageFile simpleName) = simpleName := by
  rw [simpleNameOfFile, pageFile, replaceEnding_append, String.append_empty,
    QualifiedName.replaceChar_replaceChar h]

/-- No character is in the file of a page but those of the name and of the ending. -/
lemma not_mem_pageFile {simpleName : String} {c : Char} (hname : c ∉ simpleName.toList)
    (hdot : c ≠ '.') (hending : c ∉ ".html".toList) : c ∉ (pageFile simpleName).toList := by
  rw [pageFile, String.toList_append, List.mem_append, not_or]
  refine ⟨fun hmem => ?_, hending⟩
  rcases QualifiedName.mem_replaceChar hmem with heq | hmem
  · exact hdot heq
  · exact hname hmem

namespace LinkableName

variable {c : ClassSymbol}

/-- A class has a name with a package, or its page is a file at the top. -/
lemma page_eq (h : LinkableName c.name) :
    (c.name = c.package ++ "." ++ c.simpleName ∧
        c.page = QualifiedName.slashed c.package ++ "/" ++ pageFile c.simpleName) ∨
      (c.name = c.simpleName ∧ c.page = pageFile c.simpleName) := by
  rcases QualifiedName.eq_append_or_package_eq_empty c.name with hname | ⟨hpackage, hsimple⟩
  · refine .inl ⟨hname, if_neg fun hempty => h.dot ?_⟩
    rw [String.isEmpty_iff] at hempty
    rw [hname, show QualifiedName.package c.name = "" from hempty]
    simp
  · refine .inr ⟨hsimple.symm, if_pos ?_⟩
    rw [String.isEmpty_iff]
    exact hpackage

/-- The file of a page is one segment. -/
lemma slash_not_mem_pageFile (h : LinkableName c.name) :
    '/' ∉ (pageFile c.simpleName).toList :=
  not_mem_pageFile (fun hmem => h.slash (QualifiedName.mem_of_mem_package_or_simple (.inr hmem)))
    (by decide) (by decide)

/-- The name of a class can be read off its page. -/
lemma nameOfPage_page (h : LinkableName c.name) : nameOfPage c.page = c.name := by
  have hsimple := simpleNameOfFile_pageFile (QualifiedName.dot_not_mem_simple c.name)
  have hfile := h.slash_not_mem_pageFile
  rcases h.page_eq with ⟨hname, hpage⟩ | ⟨hname, hpage⟩
  · have hbreak : breakLast '/' c.page.toList =
        some ((QualifiedName.slashed c.package).toList, (pageFile c.simpleName).toList) :=
      breakLast_eq_some.2 ⟨by rw [hpage]; simp, hfile⟩
    have hpackage : '/' ∉ c.package.toList := fun hmem =>
      h.slash (QualifiedName.mem_of_mem_package_or_simple (.inl hmem))
    simp only [nameOfPage, hbreak, String.ofList_toList]
    rw [QualifiedName.dotted_slashed hpackage]
    exact (congrArg (c.package ++ "." ++ ·) hsimple).trans hname.symm
  · have hbreak : breakLast '/' c.page.toList = none := by
      rw [hpage]
      exact breakLast_eq_none.2 hfile
    simp only [nameOfPage, hbreak]
    rw [hpage]
    exact hsimple.trans hname.symm

/-- A page has no fragment of its own. -/
lemma hash_not_mem_page (h : LinkableName c.name) : '#' ∉ c.page.toList := by
  have hfile : '#' ∉ (pageFile c.simpleName).toList :=
    not_mem_pageFile (fun hmem => h.hash (QualifiedName.mem_of_mem_package_or_simple (.inr hmem)))
      (by decide) (by decide)
  rcases h.page_eq with ⟨-, hpage⟩ | ⟨-, hpage⟩
  · rw [hpage]
    simp only [String.toList_append, List.mem_append, not_or]
    refine ⟨⟨fun hmem => ?_, by decide⟩, hfile⟩
    rcases QualifiedName.mem_replaceChar hmem with heq | hmem
    · exact absurd heq (by decide)
    · exact h.hash (QualifiedName.mem_of_mem_package_or_simple (.inl hmem))
  · rwa [hpage]

end LinkableName

/-! ### Anchors -/

namespace AnchorStyle

/-- The mark after the name of a method. -/
def opening : AnchorStyle → Char
  | legacy => '-'
  | modern => '('

/-- The mark between two argument types. -/
def separator : AnchorStyle → Char
  | legacy => '-'
  | modern => ','

/-- The mark after the argument types. -/
def closing : AnchorStyle → Char
  | legacy => '-'
  | modern => ')'

/-- What neither the name nor an argument type of a method holds that is told by its anchor. -/
def reserved : AnchorStyle → List Char
  | legacy => ['(', ')', ',', '#', '-']
  | modern => ['(', ')', ',', '#']

/-- What opens the arguments is reserved in either style. -/
lemma opening_mem_reserved (style : AnchorStyle) : style.opening ∈ style.reserved := by
  cases style <;> decide

/-- What separates the arguments is reserved in either style. -/
lemma separator_mem_reserved (style : AnchorStyle) : style.separator ∈ style.reserved := by
  cases style <;> decide

end AnchorStyle

namespace MethodSymbol

/-- Whether a method can be told by its anchor: the name and the argument types hold no reserved
character, and no argument type is empty or already ends in three dots. -/
structure Linkable (style : AnchorStyle) (m : MethodSymbol) : Prop where
  name : ∀ c ∈ style.reserved, c ∉ m.name.toList
  arguments : ∀ t ∈ m.argumentTypes, t ≠ "" ∧ ¬ "...".toList <:+ t.toList ∧
    ∀ c ∈ style.reserved, c ∉ t.toList

/-- What stands before the argument types. -/
def label (c : ClassSymbol) (m : MethodSymbol) : String :=
  if m.isConstructor then c.constructorLabel else m.name

/-- In both styles an anchor is a label, an opening mark, the joined types and a closing mark. -/
lemma toList_anchor (style : AnchorStyle) (c : ClassSymbol) (m : MethodSymbol) :
    (anchor style c m).toList = (label c m).toList ++ style.opening ::
      ([style.separator].intercalate (m.anchorArguments.map String.toList) ++ [style.closing]) := by
  cases style <;>
    simp [anchor, label, AnchorStyle.opening, AnchorStyle.separator, AnchorStyle.closing]

/-! ### Three dots -/

/-- An ellipsis takes the place of the last pair of brackets. -/
lemma ellipsis_eq (type : String) : ellipsis type = replaceEnding "[]" "..." type :=
  rfl

/-- The array type that three dots at the end stand for. -/
def arrayForm (type : String) : String :=
  replaceEnding "..." "[]" type

/-- A type that does not end in three dots is read back from its form with three dots. -/
lemma arrayForm_ellipsis {type : String} (h : ¬ "...".toList <:+ type.toList) :
    arrayForm (ellipsis type) = type :=
  replaceEnding_replaceEnding h

/-- Writing three dots keeps a type from being empty and adds no characters but dots. -/
lemma ellipsis_spec {type : String} (hne : type ≠ "") {c : Char} (hdot : c ≠ '.')
    (hc : c ∉ type.toList) : ellipsis type ≠ "" ∧ c ∉ (ellipsis type).toList := by
  rw [ellipsis_eq]
  rcases replaceEnding_eq_or "[]" "..." type with ⟨element, htype, hdots⟩ | hsame
  · have helement : c ∉ element.toList := fun hmem => hc (by rw [htype]; simp [hmem])
    rw [hdots]
    exact ⟨by simp, by simp [helement, hdot]⟩
  · rw [hsame]
    exact ⟨hne, hc⟩

/-! ### Argument types -/

/-- What an element and its modified form have in common is the same for the whole list. -/
lemma map_modifyLast {α β : Type} {f : α → α} {g h : α → β} {xs : List α}
    (hxs : ∀ x ∈ xs, g x = h x ∧ g (f x) = h x) : (modifyLast f xs).map g = xs.map h := by
  induction xs using modifyLast.induct with
  | case1 => rfl
  | case2 x => simpa [modifyLast] using (hxs x (by simp)).2
  | case3 x y ys ih =>
    rw [List.forall_mem_cons] at hxs
    rw [modifyLast, List.map_cons, List.map_cons, hxs.1.1, ih hxs.2]

/-- What elements and their modified forms have is had by the whole list. -/
lemma forall_mem_modifyLast {α : Type} {f : α → α} {p : α → Prop} {xs : List α}
    (hxs : ∀ x ∈ xs, p x ∧ p (f x)) : ∀ x ∈ modifyLast f xs, p x := by
  induction xs using modifyLast.induct with
  | case1 => simp [modifyLast]
  | case2 x => simpa [modifyLast] using (hxs x (by simp)).2
  | case3 x y ys ih =>
    rw [List.forall_mem_cons] at hxs
    rw [modifyLast, List.forall_mem_cons]
    exact ⟨hxs.1.1, ih hxs.2⟩

namespace Linkable

variable {style : AnchorStyle} {m n : MethodSymbol}

/-- The argument types are read back from the anchor, whether or not their number varies. -/
lemma map_arrayForm_anchorArguments (h : m.Linkable style) :
    m.anchorArguments.map arrayForm = m.argumentTypes := by
  have hplain : ∀ t ∈ m.argumentTypes, arrayForm t = id t := fun t ht =>
    replaceEnding_of_not_suffix (h.arguments t ht).2.1
  have hdots : ∀ t ∈ m.argumentTypes, arrayForm (ellipsis t) = id t := fun t ht =>
    arrayForm_ellipsis (h.arguments t ht).2.1
  unfold anchorArguments
  split
  · rw [map_modifyLast fun t ht => ⟨hplain t ht, hdots t ht⟩, List.map_id]
  · rw [List.map_congr_left hplain, List.map_id]

/-- The types in an anchor can be joined and cut again. -/
lemma anchorArguments_separable (h : m.Linkable style) :
    ∀ t ∈ m.anchorArguments, t ≠ "" ∧ style.separator ∉ t.toList := by
  have hdot : style.separator ≠ '.' := by cases style <;> decide
  have hplain : ∀ t ∈ m.argumentTypes, t ≠ "" ∧ style.separator ∉ t.toList := fun t ht =>
    ⟨(h.arguments t ht).1, (h.arguments t ht).2.2 _ style.separator_mem_reserved⟩
  unfold anchorArguments
  split
  · exact forall_mem_modifyLast fun t ht =>
      ⟨hplain t ht, ellipsis_spec (hplain t ht).1 hdot (hplain t ht).2⟩
  · exact hplain

/-- Joined types give the types. -/
lemma argumentTypes_eq_of_intercalate_eq (hm : m.Linkable style) (hn : n.Linkable style)
    (h : [style.separator].intercalate (m.anchorArguments.map String.toList) =
      [style.separator].intercalate (n.anchorArguments.map String.toList)) :
    m.argumentTypes = n.argumentTypes := by
  have hsegments {k : MethodSymbol} (hk : k.Linkable style) :
      ∀ segment ∈ k.anchorArguments.map String.toList,
        segment ≠ [] ∧ style.separator ∉ segment := by
    rw [List.forall_mem_map]
    intro t ht
    obtain ⟨hne, hsep⟩ := hk.anchorArguments_separable t ht
    exact ⟨fun hnil => hne (String.toList_eq_nil_iff.1 hnil), hsep⟩
  have hlists : m.anchorArguments.map String.toList = n.anchorArguments.map String.toList := by
    rw [← filter_splitOn_intercalate (hsegments hm), h, filter_splitOn_intercalate (hsegments hn)]
  have harguments : m.anchorArguments = n.anchorArguments :=
    List.map_injective_iff.2 (fun _ _ => String.toList_inj.1) hlists
  rw [← hm.map_arrayForm_anchorArguments, harguments, hn.map_arrayForm_anchorArguments]

/-- On the page of one class, an anchor gives the name and the argument types of a method, if it is
known whether it is that of a constructor. -/
lemma anchor_injective {c d : ClassSymbol} (hm : m.Linkable style) (hn : n.Linkable style)
    (hname : c.name = d.name) (hkind : m.isConstructor = n.isConstructor)
    (h : anchor style c m = anchor style d n) :
    m.name = n.name ∧ m.argumentTypes = n.argumentTypes := by
  rw [← String.toList_inj, toList_anchor, toList_anchor] at h
  cases hconstructor : m.isConstructor with
  | true =>
    rw [hconstructor] at hkind
    have hlabel : label c m = label d n := by
      rw [label, label, if_pos hconstructor, if_pos hkind.symm,
        ClassSymbol.constructorLabel, ClassSymbol.constructorLabel, ClassSymbol.simpleName,
        ClassSymbol.simpleName, hname]
    rw [hlabel, List.append_right_inj, List.cons.injEq, List.append_left_inj] at h
    have hmname : m.name = constructorName := beq_iff_eq.1 hconstructor
    have hnname : n.name = constructorName := beq_iff_eq.1 hkind.symm
    exact ⟨hmname.trans hnname.symm, hm.argumentTypes_eq_of_intercalate_eq hn h.2⟩
  | false =>
    have hlabel {k : MethodSymbol} (e : ClassSymbol) (hk : k.isConstructor = false) :
        label e k = k.name := if_neg (by simp [hk])
    -- the name ends at the first opening mark
    have hopening := style.opening_mem_reserved
    rw [hlabel c hconstructor, hlabel d (hkind ▸ hconstructor),
      append_cons_inj (hm.name _ hopening) (hn.name _ hopening), List.append_left_inj] at h
    exact ⟨String.toList_inj.1 h.1, hm.argumentTypes_eq_of_intercalate_eq hn h.2⟩

end Linkable

end MethodSymbol

/-! ### Addresses -/

namespace Linker

/-- The address of a method gives the page of its class and its anchor there. -/
lemma page_eq_of_methodUrl_eq {l : Linker} {c d : ClassSymbol} {m n : MethodSymbol}
    (hc : LinkableName c.name) (hd : LinkableName d.name)
    (h : l.methodUrl c m = l.methodUrl d n) :
    c.page = d.page ∧ MethodSymbol.anchor l.style c m = MethodSymbol.anchor l.style d n := by
  have htexts : c.page.toList ++ '#' :: (MethodSymbol.anchor l.style c m).toList =
      d.page.toList ++ '#' :: (MethodSymbol.anchor l.style d n).toList := by
    rw [← String.toList_inj] at h
    simpa [methodUrl, classUrl] using h
  obtain ⟨hpage, hanchor⟩ :=
    (append_cons_inj hc.hash_not_mem_page hd.hash_not_mem_page).1 htexts
  exact ⟨String.toList_inj.1 hpage, String.toList_inj.1 hanchor⟩

/-- Different classes have different pages, and different methods different addresses: at any
address of the documentation and in either style, the page of a class gives its name, and the
address of a method the name of its class, its own name and its argument types, whether or not
their number varies. -/
theorem page_and_methodUrl_injective (address : String) (style : AnchorStyle) :
    (∀ c d : ClassSymbol, LinkableName c.name → LinkableName d.name → c.page = d.page →
      c.name = d.name) ∧
    ∀ (c d : ClassSymbol) (m n : MethodSymbol), LinkableName c.name → LinkableName d.name →
      m.isConstructor = n.isConstructor → m.Linkable style → n.Linkable style →
      (ofUrl address style).methodUrl c m = (ofUrl address style).methodUrl d n →
        c.name = d.name ∧ m.name = n.name ∧ m.argumentTypes = n.argumentTypes := by
  have hpages (c d : ClassSymbol) (hc : LinkableName c.name) (hd : LinkableName d.name)
      (h : c.page = d.page) : c.name = d.name := by
    rw [← hc.nameOfPage_page, h, hd.nameOfPage_page]
  refine ⟨hpages, fun c d m n hc hd hkind hm hn h => ?_⟩
  obtain ⟨hpage, hanchor⟩ := page_eq_of_methodUrl_eq hc hd h
  have hname := hpages c d hc hd hpage
  exact ⟨hname, hm.anchor_injective hn hname hkind hanchor⟩

/-- A method whose number of arguments varies. -/
def varyingMethod : MethodSymbol := ⟨"print", ["int[]", "long"], false, true⟩

/-- A deprecated method with the same name and types, whose number of arguments is fixed. -/
def fixedMethod : MethodSymbol := ⟨"print", ["int[]", "long"], true, false⟩

/-- A nested class without methods, and one of the same name with a method. -/
theorem page_and_methodUrl_injective_nestedClass :
    let c : ClassSymbol := ⟨"com.example.Outer$Inner", []⟩
    let d : ClassSymbol := ⟨"com.example.Outer$Inner", [fixedMethod]⟩
    let l := ofUrl "https://docs.example" .legacy
    (c.page = "com/example/Outer.Inner.html" ∧ c.page = d.page ∧
      l.methodUrl c varyingMethod = l.methodUrl d fixedMethod) ∧
      c.name = d.name ∧ varyingMethod.name = fixedMethod.name ∧
      varyingMethod.argumentTypes = fixedMethod.argumentTypes := by
  intro c d l
  have hname : LinkableName c.name := ⟨by decide, by decide, by decide⟩
  have hvarying : varyingMethod.Linkable .legacy :=
    ⟨by simp [AnchorStyle.reserved, varyingMethod],
      by simp [AnchorStyle.reserved, varyingMethod]; decide⟩
  have hfixed : fixedMethod.Linkable .legacy := ⟨hvarying.name, hvarying.arguments⟩
  have hpage : c.page = d.page := rfl
  have hurl : l.methodUrl c varyingMethod = l.methodUrl d fixedMethod := by decide +kernel
  obtain ⟨hpages, hmethods⟩ := page_and_methodUrl_injective "https://docs.example" .legacy
  have hsame := hmethods c d varyingMethod fixedMethod hname hname rfl hvarying hfixed hurl
  exact ⟨⟨by decide +kernel, hpage, hurl⟩, hpages c d hname hname hpage, hsame.2⟩

end Linker

end ClasspathIndex
