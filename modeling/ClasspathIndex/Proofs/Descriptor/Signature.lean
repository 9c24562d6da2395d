import Mathlib
import ClasspathIndex.Descriptor.Parameters
import ClasspathIndex.Proofs.Text.Utf8

/-!
# Signatures and how they are written

A `Signature` is what a method descriptor says, piece by piece: the spelling of each
parameter type and of the result.  Its text is the concatenation of its pieces.  Reading a
descriptor succeeds on exactly the texts of signatures, and gives the types that their
parameters spell (`parameters_eq_ok_iff`).

The reader works on bytes.  A class name is cut out at the byte of a semicolon, which no
other character of a text contains.
-/

namespace ClasspathIndex.Descriptor

open Text

/-! ### Spellings -/

/-- How a type that is no array is written. -/
inductive ElementSpelling where
  | primitive (p : Primitive)
  /-- A class, by its internal name, which ends at the first semicolon. -/
  | named (internal : String) (closed : ';' ∉ internal.toList)

/-- The letter of a primitive type, or `L`, the name of a class and a semicolon. -/
def ElementSpelling.text : ElementSpelling → String
  | primitive p => String.singleton p.tag
  | named internal _ => "L" ++ internal ++ ";"

/-- The type that is spelled; a class is known by its dotted name. -/
def ElementSpelling.type : ElementSpelling → ElementType
  | primitive p => .primitive p
  | named internal _ => .reference (QualifiedName.dotted internal)

/-- How a type is written: its array dimensions, and what is left without them. -/
structure TypeSpelling where
  dimensions : Nat
  element : ElementSpelling

/-- A bracket for each dimension, and the element. -/
def TypeSpelling.text (t : TypeSpelling) : String :=
  String.ofList (List.replicate t.dimensions '[') ++ t.element.text

/-- The type that is spelled. -/
def TypeSpelling.type (t : TypeSpelling) : FieldType :=
  ⟨t.element.type, t.dimensions⟩

/-- The parameters and the result of a method. -/
structure Signature where
  parameters : List TypeSpelling
  /-- The type of the result; `none` if there is no result. -/
  result : Option TypeSpelling

/-- The spelling of a result, or `V`. -/
def resultText (result : Option TypeSpelling) : String :=
  (result.map TypeSpelling.text).getD "V"

/-- The descriptor of a method. -/
def Signature.text (s : Signature) : String :=
  "(" ++ String.join (s.parameters.map TypeSpelling.text) ++ ")" ++ resultText s.result

/-- The types of the parameters. -/
def Signature.parameterTypes (s : Signature) : List FieldType :=
  s.parameters.map TypeSpelling.type

/-! ### Reading a type -/

/-- The tag of a primitive type is one byte. -/
lemma encode_tag (p : Primitive) : Utf8.encode (String.singleton p.tag) = [p.tag.toUInt8] := by
  cases p <;> decide

/-- As many brackets are taken as there are before another byte. -/
lemma takeDimensions_eq (n : Nat) {b : UInt8} (hb : b ≠ '['.toUInt8) (bs : Bytes) :
    takeDimensions (List.replicate n '['.toUInt8 ++ b :: bs) = (n, b :: bs) := by
  induction n with
  | zero => simp [takeDimensions, hb]
  | succ n ih => simp [List.replicate_succ, takeDimensions, ih]

/-- What was taken and what is left make up the bytes. -/
lemma eq_of_takeDimensions (bs : Bytes) :
    bs = List.replicate (takeDimensions bs).1 '['.toUInt8 ++ (takeDimensions bs).2 := by
  induction bs with
  | nil => rfl
  | cons b bs ih =>
    unfold takeDimensions
    split
    · rename_i h
      rw [h, List.replicate_succ, List.cons_append]
      exact congrArg ('['.toUInt8 :: ·) ih
    · rfl

/-- The letter `L` is one byte. -/
lemma encode_L : Utf8.encode "L" = ['L'.toUInt8] := by decide

/-- The semicolon is one byte. -/
lemma encode_semicolon : Utf8.encode ";" = [';'.toUInt8] := by decide

/-- A class type is its internal name between an `L` and a semicolon. -/
lemma encode_named (internal : String) (closed : ';' ∉ internal.toList) :
    Utf8.encode (ElementSpelling.named internal closed).text =
      'L'.toUInt8 :: (Utf8.encode internal ++ [';'.toUInt8]) := by
  rw [ElementSpelling.text, Utf8.encode_append, Utf8.encode_append, encode_L, encode_semicolon]
  rfl

/-- A type that is no array is read off its spellings, and off nothing else. -/
lemma takeElement_eq_ok_iff {bs rest : Bytes} {t : ElementType} :
    takeElement bs = .ok (t, rest) ↔
      ∃ e : ElementSpelling, e.type = t ∧ bs = Utf8.encode e.text ++ rest := by
  constructor
  · intro h
    cases bs with
    | nil => cases h
    | cons b bs =>
      simp only [takeElement] at h
      split at h
      · rename_i hb
        split at h
        · cases h
        rename_i name rest' hname
        split at h
        · cases h
        rename_i n hn
        cases h
        obtain ⟨rfl, hmem⟩ := breakFirst_eq_some.1 hname
        obtain ⟨internal, hdecode, rfl⟩ := Option.map_eq_some_iff.1 hn
        obtain rfl := Utf8.encode_of_decode? hdecode
        -- A semicolon of the name would be a byte before the one that ends it.
        have hclosed : ';' ∉ internal.toList := fun hc =>
          hmem ((Utf8.mem_encode_iff (by decide)).2 hc)
        refine ⟨.named internal hclosed, rfl, ?_⟩
        rw [encode_named, hb]
        simp
      · split at h
        · rename_i p hp
          cases h
          refine ⟨.primitive p, rfl, ?_⟩
          rw [ElementSpelling.text, encode_tag, Primitive.tag_of_ofTag? hp]
          rfl
        · cases h
  · rintro ⟨e, rfl, rfl⟩
    cases e with
    | primitive p =>
      have hp : p.tag.toUInt8 ≠ 'L'.toUInt8 := by cases p <;> decide
      rw [ElementSpelling.text, encode_tag, List.singleton_append]
      simp only [takeElement, if_neg hp, Primitive.ofTag?_tag, ElementSpelling.type]
    | named internal closed =>
      have hbreak : breakFirst ';'.toUInt8 (Utf8.encode internal ++ ';'.toUInt8 :: rest) =
          some (Utf8.encode internal, rest) :=
        breakFirst_eq_some.2 ⟨rfl, fun hc => closed ((Utf8.mem_encode_iff (by decide)).1 hc)⟩
      rw [encode_named, List.cons_append, List.append_assoc, List.singleton_append]
      simp only [takeElement, if_true, hbreak, className?, Utf8.decode?_encode, Option.map_some,
        ElementSpelling.type]

/-- The first byte of a type that is no array is neither a bracket, a parenthesis nor the
letter of a missing result. -/
lemma encode_elementText_eq_cons (e : ElementSpelling) :
    ∃ b tail, Utf8.encode e.text = b :: tail ∧ b ∉ ['[', ')', 'V'].map Char.toUInt8 := by
  cases e with
  | primitive p => exact ⟨p.tag.toUInt8, [], encode_tag p, by cases p <;> decide⟩
  | named internal closed => exact ⟨_, _, encode_named internal closed, by decide⟩

/-- Brackets are bytes of their own. -/
lemma encode_replicate (n : Nat) :
    Utf8.encode (String.ofList (List.replicate n '[')) = List.replicate n '['.toUInt8 := by
  rw [Utf8.encode_ofList]
  induction n with
  | zero => rfl
  | succ n ih =>
    rw [List.replicate_succ, List.flatMap_cons, ih]
    rfl

/-- A type is taken from the texts that spell it and from nothing else. -/
lemma takeType_eq_ok_iff {bs rest : Bytes} {t : FieldType} :
    takeType bs = .ok (t, rest) ↔
      ∃ s : TypeSpelling, s.type = t ∧ bs = Utf8.encode s.text ++ rest := by
  constructor
  · intro h
    have hbs := eq_of_takeDimensions bs
    unfold takeType at h
    split at h
    rename_i n bs' hdim
    rw [hdim] at hbs
    split at h
    · cases h
    rename_i element rest' helement
    cases h
    obtain ⟨e, rfl, rfl⟩ := takeElement_eq_ok_iff.1 helement
    refine ⟨⟨n, e⟩, rfl, ?_⟩
    rw [TypeSpelling.text, Utf8.encode_append, encode_replicate, List.append_assoc]
    exact hbs
  · rintro ⟨⟨n, e⟩, rfl, rfl⟩
    rw [TypeSpelling.text, Utf8.encode_append, encode_replicate, List.append_assoc]
    have helement : takeElement (Utf8.encode e.text ++ rest) = .ok (e.type, rest) :=
      takeElement_eq_ok_iff.2 ⟨e, rfl, rfl⟩
    obtain ⟨b, tail, htext, hb⟩ := encode_elementText_eq_cons e
    have hbracket : b ≠ '['.toUInt8 := fun h => hb (by simp [h])
    rw [htext, List.cons_append] at helement ⊢
    simp only [takeType, takeDimensions_eq n hbracket, helement, TypeSpelling.type]

/-- A type starts neither with the closing parenthesis nor with a `V`. -/
lemma encode_typeText_eq_cons (t : TypeSpelling) :
    ∃ b tail, Utf8.encode t.text = b :: tail ∧ b ∉ [')', 'V'].map Char.toUInt8 := by
  rw [TypeSpelling.text, Utf8.encode_append, encode_replicate]
  cases t.dimensions with
  | zero =>
    obtain ⟨b, tail, htext, hb⟩ := encode_elementText_eq_cons t.element
    exact ⟨b, tail, htext, fun h => hb (List.mem_cons_of_mem _ h)⟩
  | succ n => exact ⟨_, _, rfl, by decide⟩

/-! ### Reading a descriptor -/

/-- A type before others is read first. -/
lemma takeParameters_encode_append (s : TypeSpelling) (bs : Bytes) :
    takeParameters (Utf8.encode s.text ++ bs) =
      (takeParameters bs).map fun p => (s.type :: p.1, p.2) := by
  have htype : takeType (Utf8.encode s.text ++ bs) = .ok (s.type, bs) :=
    takeType_eq_ok_iff.2 ⟨s, rfl, rfl⟩
  obtain ⟨b, tail, htext, hb⟩ := encode_typeText_eq_cons s
  have hclose : b ≠ ')'.toUInt8 := fun h => hb (by simp [h])
  rw [htext, List.cons_append] at htype ⊢
  rw [takeParameters, if_neg hclose]
  split
  · rename_i e he
    rw [htype] at he
    cases he
  · rename_i t mid he
    rw [htype] at he
    cases he
    cases takeParameters bs <;> rfl

/-- Parameters are taken from the texts that spell them, up to the closing parenthesis. -/
lemma takeParameters_eq_ok_iff {bs rest : Bytes} {ts : List FieldType} :
    takeParameters bs = .ok (ts, rest) ↔
      ∃ ss : List TypeSpelling, ss.map TypeSpelling.type = ts ∧
        bs = ss.flatMap (fun s => Utf8.encode s.text) ++ ')'.toUInt8 :: rest := by
  constructor
  · intro h
    fun_induction takeParameters bs generalizing ts with
    | case1 => cases h
    | case2 tail =>
      cases h
      exact ⟨[], rfl, rfl⟩
    | case3 => cases h
    | case4 => cases h
    | case5 b tail hb t mid htype ts' rest' hts ih =>
      cases h
      obtain ⟨s, rfl, hs⟩ := takeType_eq_ok_iff.1 htype
      obtain ⟨ss, rfl, rfl⟩ := ih hts
      exact ⟨s :: ss, rfl, by rw [hs]; simp⟩
  · rintro ⟨ss, rfl, rfl⟩
    induction ss with
    | nil =>
      rw [List.flatMap_nil, List.nil_append, takeParameters, if_pos rfl]
      rfl
    | cons s ss ih =>
      rw [List.flatMap_cons, List.append_assoc, takeParameters_encode_append, ih]
      rfl

/-- The letter `V` is one byte. -/
lemma encode_V : Utf8.encode "V" = ['V'.toUInt8] := by decide

/-- A result is taken from the texts of results and from nothing else. -/
lemma takeResult_eq_ok_iff {bs rest : Bytes} :
    takeResult bs = .ok rest ↔
      ∃ result, bs = Utf8.encode (resultText result) ++ rest := by
  constructor
  · intro h
    cases bs with
    | nil => cases h
    | cons b bs =>
      simp only [takeResult] at h
      split at h
      · rename_i hb
        cases h
        exact ⟨none, by rw [hb, resultText, Option.map_none, Option.getD_none, encode_V]; rfl⟩
      · cases htype : takeType (b :: bs) with
        | error e =>
          rw [htype] at h
          cases h
        | ok p =>
          rw [htype] at h
          cases h
          obtain ⟨s, _, hs⟩ := takeType_eq_ok_iff.1 htype
          exact ⟨some s, hs⟩
  · rintro ⟨_ | s, rfl⟩
    · rw [resultText, Option.map_none, Option.getD_none, encode_V]
      rfl
    · have htype : takeType (Utf8.encode s.text ++ rest) = .ok (s.type, rest) :=
        takeType_eq_ok_iff.2 ⟨s, rfl, rfl⟩
      obtain ⟨b, tail, htext, hb⟩ := encode_typeText_eq_cons s
      have hvoid : b ≠ 'V'.toUInt8 := fun h => hb (by simp [h])
      rw [resultText, Option.map_some, Option.getD_some]
      rw [htext, List.cons_append] at htype ⊢
      rw [takeResult, if_neg hvoid, htype]
      rfl

/-- Joined texts are encoded one after the other. -/
lemma encode_join (texts : List String) :
    Utf8.encode (String.join texts) = texts.flatMap Utf8.encode := by
  induction texts with
  | nil => rfl
  | cons s ss ih => rw [String.join_cons, Utf8.encode_append, ih, List.flatMap_cons]

/-- A signature is its parameters in parentheses, and its result. -/
lemma Signature.encode_text (s : Signature) :
    Utf8.encode s.text = '('.toUInt8 :: (s.parameters.flatMap (fun t => Utf8.encode t.text) ++
      ')'.toUInt8 :: Utf8.encode (resultText s.result)) := by
  have hopen : Utf8.encode "(" = ['('.toUInt8] := by decide
  have hclose : Utf8.encode ")" = [')'.toUInt8] := by decide
  rw [Signature.text, Utf8.encode_append, Utf8.encode_append, Utf8.encode_append, encode_join,
    hopen, hclose, List.flatMap_map]
  simp

/-- A descriptor is read as its parameters in parentheses and a result, with nothing behind. -/
lemma parametersOfBytes_eq_ok_iff {bs : Bytes} {ts : List FieldType} :
    parametersOfBytes bs = .ok ts ↔ ∃ inner mid, bs = '('.toUInt8 :: inner ∧
      takeParameters inner = .ok (ts, mid) ∧ takeResult mid = .ok [] := by
  constructor
  · intro h
    cases bs with
    | nil => cases h
    | cons b inner =>
      rw [parametersOfBytes] at h
      split at h
      · rename_i hb
        cases hparams : takeParameters inner with
        | error e =>
          rw [hparams] at h
          cases h
        | ok p =>
          rw [hparams] at h
          cases hresult : takeResult p.2 with
          | error e =>
            simp only [bind, Except.bind, hresult] at h
            cases h
          | ok rest =>
            simp only [bind, Except.bind, hresult] at h
            cases rest with
            | nil =>
              cases h
              exact ⟨inner, p.2, by rw [hb], hparams, hresult⟩
            | cons c cs => cases h
      · cases h
  · rintro ⟨inner, mid, rfl, hparams, hresult⟩
    rw [parametersOfBytes, if_pos rfl, hparams]
    simp only [bind, Except.bind, hresult]

/-- The method descriptors are the texts of signatures, and are read as the types of their
parameters. -/
theorem parameters_eq_ok_iff {d : String} {ts : List FieldType} :
    parameters d = .ok ts ↔ ∃ s : Signature, s.text = d ∧ s.parameterTypes = ts := by
  unfold parameters
  rw [parametersOfBytes_eq_ok_iff]
  constructor
  · rintro ⟨inner, mid, hd, hparams, hresult⟩
    obtain ⟨ss, rfl, rfl⟩ := takeParameters_eq_ok_iff.1 hparams
    obtain ⟨result, rfl⟩ := takeResult_eq_ok_iff.1 hresult
    refine ⟨⟨ss, result⟩, Utf8.encode_injective ?_, rfl⟩
    rw [Signature.encode_text, hd, List.append_nil]
  · rintro ⟨s, rfl, rfl⟩
    refine ⟨_, _, s.encode_text, takeParameters_eq_ok_iff.2 ⟨s.parameters, rfl, rfl⟩, ?_⟩
    exact takeResult_eq_ok_iff.2 ⟨s.result, (List.append_nil _).symm⟩

/-- The parameter types of a signature are read from its text. -/
lemma parameters_text (s : Signature) : parameters s.text = .ok s.parameterTypes :=
  parameters_eq_ok_iff.2 ⟨s, rfl, rfl⟩

end ClasspathIndex.Descriptor
