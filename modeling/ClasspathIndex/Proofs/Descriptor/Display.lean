import ClasspathIndex.Proofs.Descriptor.Grammar
import ClasspathIndex.Proofs.QualifiedName

/-!
# Types as they are shown

A parameter type is shown as the keyword of a primitive type or the dotted name of a class, with a
pair of brackets for each dimension.  A class could be named so that its type looks like another
one: `int`, or with dots or brackets.  Among types with plain names (`IsPlainName`) each looks
different, and what is shown of the parameters of a descriptor tells the text between its
parentheses (`map_display_eq_iff_parameterBytes_eq`).
-/

namespace ClasspathIndex

open Text

namespace Descriptor

/-! ### Elements -/

/-- Whether the internal name of a class holds neither dots nor brackets and is not the keyword of
a primitive type. -/
structure IsPlainName (internal : String) : Prop where
  dot : '.' ∉ internal.toList
  bracket : '[' ∉ internal.toList
  keyword : internal ∉ Primitive.all.map Primitive.keyword

/-- Whether a type that is no array is primitive or has a plain name. -/
def ElementSpelling.IsPlain : ElementSpelling → Prop
  | primitive _ => True
  | named internal _ => IsPlainName internal

/-- Primitive types are told by their keywords. -/
lemma keyword_injective : Function.Injective Primitive.keyword := by
  have hdistinct : (Primitive.all.map Primitive.keyword).Nodup := by decide
  intro p q h
  exact List.inj_on_of_nodup_map hdistinct (Primitive.mem_all p) (Primitive.mem_all q) h

/-- Only the class that has a keyword as its name is shown as this keyword. -/
lemma keyword_ne_dotted {internal : String} (h : IsPlainName internal) (p : Primitive) :
    p.keyword ≠ QualifiedName.dotted internal := by
  have hkeyword : QualifiedName.slashed p.keyword = p.keyword := by cases p <;> decide
  intro heq
  have hslashed := congrArg QualifiedName.slashed heq
  rw [hkeyword, QualifiedName.slashed_dotted h.dot] at hslashed
  exact h.keyword (hslashed ▸ List.mem_map_of_mem (Primitive.mem_all p))

namespace ElementSpelling

variable {e f : ElementSpelling}

/-- Elements with plain names look different. -/
lemma eq_of_display_eq (he : e.IsPlain) (hf : f.IsPlain)
    (h : e.type.display = f.type.display) : e = f := by
  cases e with
  | primitive p =>
    cases f with
    | primitive q => exact congrArg primitive (keyword_injective h)
    | named other closed => exact absurd h (keyword_ne_dotted hf p)
  | named internal closed =>
    cases f with
    | primitive q => exact absurd h.symm (keyword_ne_dotted he q)
    | named other closed' =>
      have hname : internal = other := by
        rw [← QualifiedName.slashed_dotted he.dot, ← QualifiedName.slashed_dotted hf.dot]
        exact congrArg QualifiedName.slashed h
      subst hname
      rfl

/-- A plain element type is displayed without brackets. -/
lemma bracket_not_mem_display (he : e.IsPlain) : '[' ∉ e.type.display.toList := by
  cases e with
  | primitive p => cases p <;> decide
  | named internal closed =>
    intro hbracket
    rcases QualifiedName.mem_replaceChar hbracket with hdot | hbracket
    · exact absurd hdot (by decide)
    · exact he.bracket hbracket

end ElementSpelling

/-! ### Types -/

/-- A type is displayed as its element type with a pair of brackets for each dimension. -/
lemma toList_display (t : FieldType) :
    t.display.toList =
      t.element.display.toList ++ (List.replicate t.dimensions ['[', ']']).flatten := by
  have hbrackets (n : Nat) : (String.join (List.replicate n "[]")).toList =
      (List.replicate n ['[', ']']).flatten := by
    induction n with
    | zero => rfl
    | succ n ih =>
      rw [List.replicate_succ, String.join_cons, String.toList_append, ih, List.replicate_succ,
        List.flatten_cons]
      rfl
  rw [FieldType.display, String.toList_append, hbrackets]

/-- What comes before the brackets is cut off at the first of them. -/
lemma takeWhile_append_brackets {xs : List Char} (h : '[' ∉ xs) (n : Nat) :
    (xs ++ (List.replicate n ['[', ']']).flatten).takeWhile (· ≠ '[') = xs := by
  have hxs : ∀ c ∈ xs, decide (c ≠ '[') = true := fun c hc =>
    decide_eq_true fun hbracket => h (hbracket ▸ hc)
  rw [List.takeWhile_append_of_pos hxs]
  cases n <;> simp [List.replicate_succ]

/-- The element ends at the first bracket, and there are two brackets for each dimension. -/
lemma append_brackets_inj {xs ys : List Char} (hxs : '[' ∉ xs) (hys : '[' ∉ ys) {n m : Nat}
    (h : xs ++ (List.replicate n ['[', ']']).flatten =
      ys ++ (List.replicate m ['[', ']']).flatten) : xs = ys ∧ n = m := by
  have helement := congrArg (List.takeWhile (· ≠ '[')) h
  rw [takeWhile_append_brackets hxs, takeWhile_append_brackets hys] at helement
  subst helement
  have hlength := congrArg List.length (List.append_cancel_left h)
  simp only [List.length_flatten, List.map_replicate, List.sum_replicate] at hlength
  exact ⟨rfl, by simpa using hlength⟩

/-- Types with plain names look different. -/
lemma TypeSpelling.eq_of_display_eq {s t : TypeSpelling} (hs : s.element.IsPlain)
    (ht : t.element.IsPlain) (h : s.type.display = t.type.display) : s = t := by
  obtain ⟨n, e⟩ := s
  obtain ⟨m, f⟩ := t
  rw [← String.toList_inj, toList_display, toList_display] at h
  obtain ⟨helement, hdimensions⟩ := append_brackets_inj
    (ElementSpelling.bracket_not_mem_display hs) (ElementSpelling.bracket_not_mem_display ht) h
  obtain rfl := ElementSpelling.eq_of_display_eq hs ht (String.toList_inj.1 helement)
  exact congrArg (TypeSpelling.mk · e) hdimensions

/-- Lists of plain types that are displayed alike are the same. -/
lemma eq_of_map_display_eq {ss ts : List TypeSpelling} (hss : ∀ s ∈ ss, s.element.IsPlain)
    (hts : ∀ t ∈ ts, t.element.IsPlain)
    (h : ss.map (fun s => s.type.display) = ts.map fun t => t.type.display) : ss = ts := by
  induction ss generalizing ts with
  | nil => exact (List.map_eq_nil_iff.1 h.symm).symm
  | cons s ss ih =>
    cases ts with
    | nil => cases h
    | cons t ts =>
      rw [List.forall_mem_cons] at hss hts
      obtain ⟨hhead, htail⟩ := List.cons.inj h
      rw [TypeSpelling.eq_of_display_eq hss.1 hts.1 hhead, ih hss.2 hts.2 htail]

/-! ### Descriptors -/

/-- What stands in a descriptor between the parenthesis that opens it and the one at which its
parameters end. -/
def parameterBytes (d : String) : Bytes :=
  let inner := (Utf8.encode d).tail
  match takeParameters inner with
  | .ok (_, rest) => inner.take (inner.length - (rest.length + 1))
  | .error _ => []

/-- Whether the names of the classes among the parameters of a descriptor are plain. -/
def NamesArePlain (d : String) : Prop :=
  ∀ s : Signature, s.text = d → ∀ t ∈ s.parameters, t.element.IsPlain

/-- The parameter bytes of a signature are the texts of its parameters. -/
lemma parameterBytes_text (s : Signature) :
    parameterBytes s.text = s.parameters.flatMap fun t => Utf8.encode t.text := by
  have htake : takeParameters (s.parameters.flatMap (fun t => Utf8.encode t.text) ++
      ')'.toUInt8 :: Utf8.encode (resultText s.result)) =
        .ok (s.parameterTypes, Utf8.encode (resultText s.result)) :=
    takeParameters_eq_ok_iff.2 ⟨s.parameters, rfl, rfl⟩
  unfold parameterBytes
  rw [Signature.encode_text, List.tail_cons]
  dsimp only
  rw [htake]
  simp only [List.length_append, List.length_cons, Nat.add_sub_cancel, List.take_left]

/-- The names in a signature are plain if those of its parameters are. -/
lemma namesArePlain_text_iff {s : Signature} :
    NamesArePlain s.text ↔ ∀ t ∈ s.parameters, t.element.IsPlain := by
  constructor
  · intro h
    exact h s rfl
  · intro h t htext
    obtain ⟨rfl, -⟩ := Signature.eq_of_text_append ((String.append_empty).trans htext)
    exact h

/-- A descriptor consists of its parameters in parentheses and a result. -/
lemma exists_encode_eq_of_parameters {d : String} {ts : List FieldType}
    (h : parameters d = .ok ts) :
    ∃ result, Utf8.encode d = '('.toUInt8 :: (parameterBytes d ++ ')'.toUInt8 :: result) ∧
      takeParameters (parameterBytes d ++ [')'.toUInt8]) = .ok (ts, []) ∧
        takeResult result = .ok [] := by
  obtain ⟨s, rfl, rfl⟩ := parameters_eq_ok_iff.1 h
  rw [parameterBytes_text]
  exact ⟨Utf8.encode (resultText s.result), s.encode_text,
    takeParameters_eq_ok_iff.2 ⟨s.parameters, rfl, rfl⟩,
    takeResult_eq_ok_iff.2 ⟨s.result, (List.append_nil _).symm⟩⟩

/-- Parameters with plain names are shown alike exactly if they are written alike. -/
lemma map_display_eq_iff_parameterBytes_eq {d₁ d₂ : String} {ts₁ ts₂ : List FieldType}
    (h₁ : parameters d₁ = .ok ts₁) (h₂ : parameters d₂ = .ok ts₂) (hd₁ : NamesArePlain d₁)
    (hd₂ : NamesArePlain d₂) :
    ts₁.map FieldType.display = ts₂.map FieldType.display ↔
      parameterBytes d₁ = parameterBytes d₂ := by
  obtain ⟨s, rfl, rfl⟩ := parameters_eq_ok_iff.1 h₁
  obtain ⟨t, rfl, rfl⟩ := parameters_eq_ok_iff.1 h₂
  rw [parameterBytes_text, parameterBytes_text, Signature.parameterTypes, Signature.parameterTypes,
    List.map_map, List.map_map]
  constructor
  · intro h
    rw [eq_of_map_display_eq (hd₁ s rfl) (hd₂ t rfl) h]
  · intro h
    have hclosed : s.parameters.flatMap (fun t => Utf8.encode t.text) ++ [')'.toUInt8] =
        t.parameters.flatMap (fun t => Utf8.encode t.text) ++ [')'.toUInt8] := by rw [h]
    obtain ⟨hparameters, -⟩ := eq_of_encode_parameters_append hclosed
    rw [hparameters]

end Descriptor

end ClasspathIndex
