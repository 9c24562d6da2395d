import ClasspathIndex.Proofs.Text.Split
import ClasspathIndex.Proofs.Text.Trim
import ClasspathIndex.Reference

/-!
# How references are written

`Reference.SpelledBy` is the grammar of references: names and argument types with blank characters
around each of them, and `#`, parentheses and commas between them.  A text is read as a reference
exactly if the reference is well formed and the text spells it, and the text of a reference is one
of its spellings (`parse_eq_ok_iff`, `parse_render`).

The parser trims at several places and cuts at the first `#` and the first `(`.  As these are not
blank, trimming can wait until the text is cut (`breakFirst_trim`), so that each part is settled by
itself: names, argument types, and the selector of a method.
-/

namespace ClasspathIndex

open Text

namespace Reference

/-! ### The grammar -/

/-- The characters that stand between the parts of a reference. -/
def marks : List Char :=
  ['#', '(', ')', ',']

/-- Whether a text can name a class or a method: it is not empty, and holds no blank character and
no mark. -/
def IsName (s : String) : Prop :=
  s ≠ "" ∧ ∀ c ∈ s.toList, isBlank c = false ∧ c ∉ marks

/-- Whether a text can be an argument type: it is not empty, neither starts nor ends with a blank
character, and holds no mark. -/
def IsArgument (s : String) : Prop :=
  s ≠ "" ∧ IsTrimmed s.toList ∧ ∀ c ∈ s.toList, c ∉ marks

/-- What spells argument types between parentheses: only blank characters if there are none, and
otherwise the types with blank characters around each and a comma between any two. -/
inductive ArgumentsSpelledBy : List String → List Char → Prop where
  | none {inner : List Char} (h : ∀ c ∈ inner, isBlank c = true) : ArgumentsSpelledBy [] inner
  | some {arguments : List String} {pieces : List (List Char)} (hne : arguments ≠ [])
      (h : List.Forall₂ (fun argument piece => Pads argument.toList piece) arguments pieces) :
      ArgumentsSpelledBy arguments ([','].intercalate pieces)

end Reference

open Reference

/-- Whether the name and the argument types, if there are any, can be written. -/
structure MethodSelector.WellFormed (m : MethodSelector) : Prop where
  name : IsName m.name
  arguments : ∀ types, m.arguments = some types → ∀ t ∈ types, IsArgument t

/-- What spells a method selector after the `#`. -/
inductive MethodSelector.SpelledBy : MethodSelector → List Char → Prop where
  | named {name : String} {text : List Char} (h : Pads name.toList text) :
      SpelledBy ⟨name, none⟩ text
  | withArguments {name : String} {types : List String} {before inner after : List Char}
      (hname : Pads name.toList before) (htypes : ArgumentsSpelledBy types inner)
      (hafter : ∀ c ∈ after, isBlank c = true) :
      SpelledBy ⟨name, some types⟩ (before ++ '(' :: (inner ++ ')' :: after))

namespace Reference

/-- Whether the names and the argument types of a reference can be written. -/
structure WellFormed (r : Reference) : Prop where
  className : IsName r.className
  method : ∀ m, r.method = some m → m.WellFormed

/-- What spells a reference. -/
inductive SpelledBy : Reference → List Char → Prop where
  | ofClass {className : String} {text : List Char} (h : Pads className.toList text) :
      SpelledBy ⟨className, none⟩ text
  | ofMethod {className : String} {m : MethodSelector} {before after : List Char}
      (hclass : Pads className.toList before) (hmethod : m.SpelledBy after) :
      SpelledBy ⟨className, some m⟩ (before ++ '#' :: after)

/-! ### Names and argument types -/

/-- No mark of a reference is a blank. -/
lemma isBlank_of_mem_marks {c : Char} (h : c ∈ marks) : isBlank c = false := by
  simp only [marks, List.mem_cons, List.not_mem_nil, or_false] at h
  rcases h with rfl | rfl | rfl | rfl <;> decide

/-- The parentheses and the hash are marks. -/
lemma mem_marks_of_mem {c : Char} (h : c ∈ ['(', ')', '#']) : c ∈ marks := by
  simp only [marks, List.mem_cons, List.not_mem_nil, or_false] at h ⊢
  tauto

/-- A name holds no blanks, so that trimming leaves it. -/
lemma IsName.isTrimmed {s : String} (h : IsName s) : IsTrimmed s.toList :=
  isTrimmed_of_forall fun c hc => (h.2 c hc).1

/-- A padded name holds no mark. -/
lemma IsName.not_mem_of_pads {s : String} (h : IsName s) {cs : List Char} (hcs : Pads s.toList cs)
    {c : Char} (hc : c ∈ marks) : c ∉ cs :=
  hcs.not_mem (isBlank_of_mem_marks hc) fun hmem => (h.2 c hmem).2 hc

/-- A padded argument type holds no mark. -/
lemma IsArgument.not_mem_of_pads {s : String} (h : IsArgument s) {cs : List Char}
    (hcs : Pads s.toList cs) {c : Char} (hc : c ∈ marks) : c ∉ cs :=
  hcs.not_mem (isBlank_of_mem_marks hc) fun hmem => h.2.2 c hmem hc

/-- A text is legal if it holds neither blanks nor illegal characters. -/
lemma holdsIllegal_eq_false_iff {illegal cs : List Char} :
    holdsIllegal illegal cs = false ↔ ∀ c ∈ cs, isBlank c = false ∧ c ∉ illegal := by
  simp [holdsIllegal]

/-- A padded text is read as a name if it is not empty and legal; one mark needs no test where the
text was cut at it. -/
lemma readName_trim_eq_ok_iff {mark : Char} {illegal cs : List Char} {missing wrong : Fault}
    {s : String} (hmarks : ∀ c, c ∈ mark :: illegal ↔ c ∈ marks) (hmark : mark ∉ cs) :
    (if (trim cs).isEmpty then .error missing
      else if holdsIllegal illegal (trim cs) then .error wrong
      else .ok (String.ofList (trim cs)) : Except Fault String) = .ok s ↔
      IsName s ∧ Pads s.toList cs := by
  have hlegal : holdsIllegal illegal (trim cs) = false ↔
      ∀ c ∈ trim cs, isBlank c = false ∧ c ∉ marks := by
    rw [holdsIllegal_eq_false_iff]
    refine forall₂_congr fun c hc => and_congr_right fun _ => ?_
    have hne : c ≠ mark := fun h => hmark (h ▸ (pads_trim cs).mem hc)
    rw [← hmarks, List.mem_cons, not_or]
    exact ⟨fun h => ⟨hne, h⟩, fun h => h.2⟩
  constructor
  · intro h
    split at h
    · cases h
    rename_i hempty
    split at h
    · cases h
    rename_i hillegal
    obtain rfl := Except.ok.inj h
    rw [IsName, String.toList_ofList]
    refine ⟨⟨fun hnil => ?_, hlegal.1 (Bool.eq_false_iff.2 hillegal)⟩, pads_trim cs⟩
    exact hempty (List.isEmpty_iff.2 (String.ofList_eq_empty_iff.1 hnil))
  · rintro ⟨hname, hpads⟩
    rw [hpads.trim_eq hname.isTrimmed] at hlegal ⊢
    have hempty : ¬ s.toList.isEmpty = true := by
      rw [List.isEmpty_iff, String.toList_eq_nil_iff]
      exact hname.1
    rw [if_neg hempty, hlegal.2 hname.2, if_neg Bool.false_ne_true, String.ofList_toList]

/-- The name of a class is read from the texts that pad it with blanks. -/
lemma parseClassName_trim_eq_ok_iff {cs : List Char} {s : String} (h : '#' ∉ cs) :
    parseClassName (trim cs) = .ok s ↔ IsName s ∧ Pads s.toList cs :=
  readName_trim_eq_ok_iff (fun _ => Iff.rfl) h

/-- The name of a method is read from the texts that pad it with blanks. -/
lemma parseMethodName_trim_eq_ok_iff {cs : List Char} {s : String} (h : '(' ∉ cs) :
    parseMethodName (trim cs) = .ok s ↔ IsName s ∧ Pads s.toList cs :=
  readName_trim_eq_ok_iff (fun _ => List.Perm.mem_iff (by decide)) h

/-! ### Argument lists -/

variable {types : List String} {pieces : List (List Char)}

/-- Trimmed, the pieces between commas are the argument types. -/
lemma map_trim_eq (hpieces : List.Forall₂ (fun t piece => Pads t.toList piece) types pieces)
    (htypes : ∀ t ∈ types, IsArgument t) : pieces.map trim = types.map String.toList := by
  induction hpieces with
  | nil => rfl
  | cons hpads hrest ih =>
    rw [List.forall_mem_cons] at htypes
    rw [List.map_cons, List.map_cons, hpads.trim_eq htypes.1.2.1, ih htypes.2]

/-- No piece between commas holds a mark. -/
lemma not_mem_of_mem_pieces
    (hpieces : List.Forall₂ (fun t piece => Pads t.toList piece) types pieces)
    (htypes : ∀ t ∈ types, IsArgument t) {c : Char} (hc : c ∈ marks) :
    ∀ piece ∈ pieces, c ∉ piece := by
  induction hpieces with
  | nil => simp
  | cons hpads hrest ih =>
    rw [List.forall_mem_cons] at htypes
    rw [List.forall_mem_cons]
    exact ⟨htypes.1.not_mem_of_pads hpads hc, ih htypes.2⟩

/-- What is left of a piece that is not blank can be an argument type. -/
lemma isArgument_trim {inner piece : List Char} (hinner : ∀ c ∈ inner, c ∉ ['(', ')', '#'])
    (hpiece : piece ∈ inner.splitOn ',') (hne : trim piece ≠ []) :
    IsArgument (String.ofList (trim piece)) := by
  rw [IsArgument, String.toList_ofList]
  refine ⟨fun h => hne (String.ofList_eq_empty_iff.1 h), isTrimmed_trim piece, fun c hc hmark => ?_⟩
  have hmem : c ∈ piece := (pads_trim piece).mem hc
  have hcomma : c ≠ ',' := fun h => not_mem_of_mem_splitOn hpiece (h ▸ hmem)
  have hopen := hinner c ((exists_mem_splitOn_iff hcomma).1 ⟨piece, hpiece, hmem⟩)
  simp only [marks, List.mem_cons, List.not_mem_nil, or_false] at hmark hopen
  tauto

/-- None of the characters is illegal if each of them is not. -/
lemma any_contains_eq_false_iff {illegal cs : List Char} :
    (cs.any fun c => illegal.contains c) = false ↔ ∀ c ∈ cs, c ∉ illegal := by
  simp

/-- What is read between parentheses are argument types that can be written, and what was read
spells them. -/
lemma spelled_of_parseArguments_eq_ok {inner : List Char} (h : parseArguments inner = .ok types) :
    (∀ t ∈ types, IsArgument t) ∧ ArgumentsSpelledBy types inner := by
  unfold parseArguments at h
  split at h
  · cases h
  rename_i hany
  have hinner := any_contains_eq_false_iff.1 (Bool.eq_false_iff.2 hany)
  split at h
  · rename_i hblank
    obtain rfl := Except.ok.inj h
    exact ⟨by simp, .none (allBlank_iff.1 hblank)⟩
  dsimp only at h
  split at h
  · cases h
  rename_i hempty
  obtain rfl := Except.ok.inj h
  rw [List.map_map]
  constructor
  · intro t ht
    obtain ⟨piece, hpiece, rfl⟩ := List.mem_map.1 ht
    refine isArgument_trim hinner hpiece fun hnil => hempty ?_
    exact List.any_eq_true.2 ⟨[], List.mem_map.2 ⟨piece, hpiece, hnil⟩, rfl⟩
  · have hpieces : List.Forall₂ (fun t piece => Pads t.toList piece)
        ((inner.splitOn ',').map (String.ofList ∘ trim)) (inner.splitOn ',') := by
      rw [List.forall₂_map_left_iff, List.forall₂_same]
      intro piece _
      rw [Function.comp_apply, String.toList_ofList]
      exact pads_trim piece
    have hne : (inner.splitOn ',').map (String.ofList ∘ trim) ≠ [] := by
      rw [ne_eq, List.map_eq_nil_iff]
      exact List.splitOn_ne_nil _ _
    have hspelled := ArgumentsSpelledBy.some hne hpieces
    rwa [List.intercalate_splitOn] at hspelled

/-- Argument types between commas are not all blank. -/
lemma not_allBlank_intercalate (hne : types ≠ [])
    (hpieces : List.Forall₂ (fun t piece => Pads t.toList piece) types pieces)
    (htypes : ∀ t ∈ types, IsArgument t) : ¬ allBlank ([','].intercalate pieces) = true := by
  intro hblank
  have hmap := map_trim_eq hpieces htypes
  obtain ⟨t, ht⟩ := List.exists_mem_of_ne_nil types hne
  have htrim : t.toList ∈ pieces.map trim := hmap ▸ List.mem_map_of_mem ht
  obtain ⟨piece, hpiece, hpieceTrim⟩ := List.mem_map.1 htrim
  have hcomma : ',' ∉ piece := not_mem_of_mem_pieces hpieces htypes (by decide) piece hpiece
  have hnil : trim piece = [] := by
    refine trim_eq_nil_iff.2 fun c hc => ?_
    have hc' : c ≠ ',' := fun h => hcomma (h ▸ hc)
    exact allBlank_iff.1 hblank c ((mem_intercalate_iff hc').2 ⟨piece, hpiece, hc⟩)
  rw [hnil] at hpieceTrim
  exact (htypes t ht).1 (String.toList_eq_nil_iff.1 hpieceTrim.symm)

/-- What spells argument types that can be written is read as these. -/
lemma ArgumentsSpelledBy.parseArguments_eq {inner : List Char} (h : ArgumentsSpelledBy types inner)
    (htypes : ∀ t ∈ types, IsArgument t) : parseArguments inner = .ok types := by
  unfold parseArguments
  cases h with
  | none hblank =>
    have hinner : ∀ c ∈ inner, c ∉ ['(', ')', '#'] := by
      intro c hc hmark
      have hsolid : isBlank c = false := isBlank_of_mem_marks (mem_marks_of_mem hmark)
      rw [hblank c hc] at hsolid
      exact Bool.noConfusion hsolid
    rw [any_contains_eq_false_iff.2 hinner, if_neg Bool.false_ne_true,
      if_pos (allBlank_iff.2 hblank)]
  | @some _ pieces hne hpieces =>
    have hinner : ∀ c ∈ [','].intercalate pieces, c ∉ ['(', ')', '#'] := by
      intro c hc hmark
      have hcomma : c ≠ ',' := by
        rintro rfl
        exact absurd hmark (by decide)
      obtain ⟨piece, hpiece, hmem⟩ := (mem_intercalate_iff hcomma).1 hc
      exact not_mem_of_mem_pieces hpieces htypes (mem_marks_of_mem hmark) piece hpiece hmem
    have hpiecesNe : pieces ≠ [] := by
      rintro rfl
      exact hne (List.forall₂_nil_right_iff.1 hpieces)
    have hsplit : ([','].intercalate pieces).splitOn ',' = pieces :=
      List.splitOn_intercalate ',' (not_mem_of_mem_pieces hpieces htypes (by decide)) hpiecesNe
    have hempty : ¬ (types.map String.toList).any List.isEmpty = true := by
      intro hany
      obtain ⟨_, hmem, hnil⟩ := List.any_eq_true.1 hany
      obtain ⟨t, ht, rfl⟩ := List.mem_map.1 hmem
      exact (htypes t ht).1 (String.toList_eq_nil_iff.1 (List.isEmpty_iff.1 hnil))
    rw [any_contains_eq_false_iff.2 hinner, if_neg Bool.false_ne_true,
      if_neg (not_allBlank_intercalate hne hpieces htypes), hsplit, map_trim_eq hpieces htypes]
    dsimp only
    rw [if_neg hempty, List.map_map]
    simp

/-! ### Methods -/

/-- Two steps succeed if each does, the second one on what the first one gave. -/
lemma bind_eq_ok_iff {α β : Type} {x : Except Fault α} {f : α → Except Fault β} {y : β} :
    x >>= f = .ok y ↔ ∃ a, x = .ok a ∧ f a = .ok y := by
  cases x <;> simp [bind, Except.bind]

/-- A trimmed text is read as a method selector exactly if this can be written and the text spells
it. -/
lemma parseMethod_trim_eq_ok_iff {cs : List Char} {m : MethodSelector} :
    parseMethod (trim cs) = .ok m ↔ m.WellFormed ∧ m.SpelledBy cs := by
  have hblank : isBlank '(' = false := by decide
  constructor
  · intro h
    rw [parseMethod, breakFirst_trim hblank] at h
    -- Without an opening parenthesis the whole text is the name.
    cases hbreak : breakFirst '(' cs with
    | none =>
      rw [hbreak, Option.map_none] at h
      obtain ⟨name, hname, hm⟩ := bind_eq_ok_iff.1 h
      obtain rfl := Except.ok.inj hm
      obtain ⟨hlegal, hpads⟩ :=
        (parseMethodName_trim_eq_ok_iff (breakFirst_eq_none.1 hbreak)).1 hname
      exact ⟨⟨hlegal, by simp⟩, .named hpads⟩
    | some p =>
      obtain ⟨before, rest⟩ := p
      obtain ⟨rfl, hbefore⟩ := breakFirst_eq_some.1 hbreak
      rw [hbreak, Option.map_some] at h
      dsimp only at h
      split at h
      · rename_i hlast
        obtain ⟨inner, hinner⟩ := List.getLast?_eq_some_iff.1 hlast
        rw [hinner, List.dropLast_concat, trim_dropWhile] at h
        obtain ⟨types, htypes, h⟩ := bind_eq_ok_iff.1 h
        obtain ⟨name, hname, hm⟩ := bind_eq_ok_iff.1 h
        obtain rfl := Except.ok.inj hm
        obtain ⟨hlegal, hpads⟩ := (parseMethodName_trim_eq_ok_iff hbefore).1 hname
        obtain ⟨hlegalTypes, hspelled⟩ := spelled_of_parseArguments_eq_ok htypes
        -- Trimming took what follows the parenthesis, so that is blank.
        have hrest : rest = inner ++ ')' :: rest.rtakeWhile isBlank := by
          have hcut : rest.rdropWhile isBlank ++ rest.rtakeWhile isBlank = rest :=
            List.rdropWhile_append_rtakeWhile
          rw [hinner, List.append_assoc, List.singleton_append] at hcut
          exact hcut.symm
        refine ⟨⟨hlegal, fun _ heq => Option.some.inj heq ▸ hlegalTypes⟩, ?_⟩
        rw [hrest]
        exact .withArguments hpads hspelled fun c hc => List.mem_rtakeWhile_imp hc
      · cases h
  · rintro ⟨hm, hspelled⟩
    rw [parseMethod, breakFirst_trim hblank]
    cases hspelled with
    | @named name _ hpads =>
      have hparen : '(' ∉ cs := hm.name.not_mem_of_pads hpads (by decide)
      have hname := (parseMethodName_trim_eq_ok_iff hparen).2 ⟨hm.name, hpads⟩
      rw [breakFirst_eq_none.2 hparen, Option.map_none]
      exact bind_eq_ok_iff.2 ⟨name, hname, rfl⟩
    | @withArguments name types before inner after hpads htypes hafter =>
      have hparen : '(' ∉ before := hm.name.not_mem_of_pads hpads (by decide)
      have hbreak : breakFirst '(' (before ++ '(' :: (inner ++ ')' :: after)) =
          some (before, inner ++ ')' :: after) := breakFirst_eq_some.2 ⟨rfl, hparen⟩
      have hrest : (inner ++ ')' :: after).rdropWhile isBlank = inner ++ [')'] := by
        rw [rdropWhile_append_cons (by decide), List.rdropWhile_eq_nil_iff.2 hafter]
      have hname := (parseMethodName_trim_eq_ok_iff hparen).2 ⟨hm.name, hpads⟩
      rw [hbreak, Option.map_some]
      dsimp only
      rw [hrest, if_pos List.getLast?_concat, List.dropLast_concat, trim_dropWhile]
      refine bind_eq_ok_iff.2 ⟨types, htypes.parseArguments_eq (hm.arguments types rfl), ?_⟩
      exact bind_eq_ok_iff.2 ⟨name, hname, rfl⟩

/-! ### References -/

/-- A text is read as a reference exactly if this is well formed and the text spells it. -/
lemma parse_eq_ok_iff {s : String} {r : Reference} :
    parse s = .ok r ↔ r.WellFormed ∧ r.SpelledBy s.toList := by
  have hblank : isBlank '#' = false := by decide
  constructor
  · intro h
    rw [parse, breakFirst_trim hblank] at h
    cases hbreak : breakFirst '#' s.toList with
    | none =>
      rw [hbreak, Option.map_none] at h
      obtain ⟨className, hname, hr⟩ := bind_eq_ok_iff.1 h
      obtain rfl := Except.ok.inj hr
      obtain ⟨hlegal, hpads⟩ :=
        (parseClassName_trim_eq_ok_iff (breakFirst_eq_none.1 hbreak)).1 hname
      exact ⟨⟨hlegal, by simp⟩, .ofClass hpads⟩
    | some p =>
      obtain ⟨before, after⟩ := p
      obtain ⟨hs, hbefore⟩ := breakFirst_eq_some.1 hbreak
      rw [hbreak, Option.map_some] at h
      dsimp only at h
      rw [trim_dropWhile, trim_rdropWhile] at h
      obtain ⟨className, hname, h⟩ := bind_eq_ok_iff.1 h
      obtain ⟨m, hmethod, hr⟩ := bind_eq_ok_iff.1 h
      obtain rfl := Except.ok.inj hr
      obtain ⟨hlegal, hpads⟩ := (parseClassName_trim_eq_ok_iff hbefore).1 hname
      obtain ⟨hlegalMethod, hspelled⟩ := parseMethod_trim_eq_ok_iff.1 hmethod
      refine ⟨⟨hlegal, fun _ heq => Option.some.inj heq ▸ hlegalMethod⟩, ?_⟩
      rw [hs]
      exact .ofMethod hpads hspelled
  · rintro ⟨hr, hspelled⟩
    rw [parse, breakFirst_trim hblank]
    generalize s.toList = cs at hspelled ⊢
    cases hspelled with
    | @ofClass className _ hpads =>
      have hhash : '#' ∉ cs := hr.className.not_mem_of_pads hpads (by decide)
      have hname := (parseClassName_trim_eq_ok_iff hhash).2 ⟨hr.className, hpads⟩
      rw [breakFirst_eq_none.2 hhash, Option.map_none]
      exact bind_eq_ok_iff.2 ⟨className, hname, rfl⟩
    | @ofMethod className m before after hpads hmethod =>
      have hhash : '#' ∉ before := hr.className.not_mem_of_pads hpads (by decide)
      have hname := (parseClassName_trim_eq_ok_iff hhash).2 ⟨hr.className, hpads⟩
      have hm : parseMethod (trim after) = .ok m :=
        parseMethod_trim_eq_ok_iff.2 ⟨hr.method m rfl, hmethod⟩
      rw [breakFirst_eq_some.2 ⟨rfl, hhash⟩, Option.map_some]
      dsimp only
      rw [trim_dropWhile, trim_rdropWhile]
      exact bind_eq_ok_iff.2 ⟨className, hname, bind_eq_ok_iff.2 ⟨m, hm, rfl⟩⟩

/-! ### The text of a reference -/

/-- Argument types between commas spell themselves. -/
lemma argumentsSpelledBy_intercalate (types : List String) :
    ArgumentsSpelledBy types (String.intercalate "," types).toList := by
  cases types with
  | nil => exact .none (by simp)
  | cons t types =>
    rw [String.toList_intercalate]
    refine .some (List.cons_ne_nil _ _) ?_
    rw [List.forall₂_map_right_iff, List.forall₂_same]
    exact fun t _ => .refl t.toList

/-- The text of a method selector spells it. -/
lemma spelledBy_renderMethod (m : MethodSelector) : m.SpelledBy (renderMethod m).toList := by
  obtain ⟨name, arguments⟩ := m
  cases arguments with
  | none => exact .named (.refl _)
  | some types =>
    have htext : (renderMethod ⟨name, some types⟩).toList =
        name.toList ++ '(' :: ((String.intercalate "," types).toList ++ ')' :: []) := by
      simp [renderMethod]
    rw [htext]
    exact .withArguments (.refl _) (argumentsSpelledBy_intercalate types) (by simp)

/-- The text of a reference spells it. -/
lemma spelledBy_render (r : Reference) : r.SpelledBy r.render.toList := by
  obtain ⟨className, method⟩ := r
  cases method with
  | none => exact .ofClass (.refl _)
  | some m =>
    have htext : (render ⟨className, some m⟩).toList =
        className.toList ++ '#' :: (renderMethod m).toList := by
      simp [render]
    rw [htext]
    exact .ofMethod (.refl _) (spelledBy_renderMethod m)

/-- A well-formed reference is read back from its text. -/
lemma parse_render {r : Reference} (h : r.WellFormed) : parse r.render = .ok r :=
  parse_eq_ok_iff.2 ⟨h, spelledBy_render r⟩

/-- A text that names a method without argument list asks for the method without parameters once
`()` is added. -/
lemma parse_append_parentheses {s className name : String}
    (h : parse s = .ok ⟨className, some ⟨name, none⟩⟩) :
    parse (s ++ "()") = .ok ⟨className, some ⟨name, some []⟩⟩ := by
  rw [parse_eq_ok_iff] at h ⊢
  obtain ⟨⟨hclass, hmethod⟩, hspelled⟩ := h
  have hname : IsName name := (hmethod _ rfl).name
  refine ⟨⟨hclass, ?_⟩, ?_⟩
  · rintro m ⟨⟩
    exact ⟨hname, by simp⟩
  · have hparentheses : "()".toList = '(' :: ([] ++ ')' :: []) := rfl
    rw [String.toList_append, hparentheses]
    generalize s.toList = cs at hspelled ⊢
    cases hspelled with
    | @ofMethod _ _ before after hpads hmethod =>
      cases hmethod with
      | named hpadsName =>
        rw [List.append_assoc, List.cons_append]
        exact .ofMethod hpads (.withArguments hpadsName (.none (by simp)) (by simp))

/-- Exactly what spells a well-formed reference is read as this reference, and its text without
blank characters is read as the same one; a missing argument list and `()` stay apart. -/
theorem parse_iff_spelledBy_and_parse_render (s : String) (r : Reference) :
    (parse s = .ok r ↔ r.WellFormed ∧ r.SpelledBy s.toList) ∧
      (parse s = .ok r → parse r.render = .ok r) ∧
      (r.WellFormed ↔ parse r.render = .ok r) ∧
      ∀ className name, parse s = .ok ⟨className, some ⟨name, none⟩⟩ →
        parse (s ++ "()") = .ok ⟨className, some ⟨name, some []⟩⟩ :=
  ⟨parse_eq_ok_iff, fun h => parse_render (parse_eq_ok_iff.1 h).1,
    ⟨parse_render, fun h => (parse_eq_ok_iff.1 h).1⟩, fun _ _ h => parse_append_parentheses h⟩

/-- A reference with blanks, one without, and one with no arguments. -/
theorem parse_iff_spelledBy_and_parse_render_sample :
    SpelledBy ⟨"Alpha", some ⟨"run", some ["int", "long"]⟩⟩ " Alpha # run ( int , long ) ".toList ∧
      parse "Alpha#run(int,long)" = .ok ⟨"Alpha", some ⟨"run", some ["int", "long"]⟩⟩ ∧
      parse " Alpha # run()" = .ok ⟨"Alpha", some ⟨"run", some []⟩⟩ := by
  have hpadded : parse " Alpha # run ( int , long ) " =
      .ok ⟨"Alpha", some ⟨"run", some ["int", "long"]⟩⟩ := by decide
  obtain ⟨hspelled, hrender, -, -⟩ := parse_iff_spelledBy_and_parse_render
    " Alpha # run ( int , long ) " ⟨"Alpha", some ⟨"run", some ["int", "long"]⟩⟩
  obtain ⟨-, -, -, hparentheses⟩ := parse_iff_spelledBy_and_parse_render
    " Alpha # run" ⟨"Alpha", none⟩
  exact ⟨(hspelled.1 hpadded).2, hrender hpadded, hparentheses "Alpha" "run" (by decide)⟩

end Reference

end ClasspathIndex
