import ClasspathIndex.Proofs.ClassFile.Methods

/-!
# The descriptors as a language

Reading is sound and complete for the spellings of types, whatever bytes follow.  No
spelling therefore starts another one, and a descriptor is the text of one signature only
(`Signature.eq_of_text_append`).

What is no descriptor goes wrong at a first place.  `Rejected` says of a text where that is and what
is missing there, and the reader refuses exactly these texts, for that reason
(`parameters_eq_error_iff`).  The reader's error for the name of a class that is no text is not
among the reasons: between `L` and a semicolon of a text there is always a text.
-/

namespace ClasspathIndex

open Text

namespace Descriptor

/-! ### One way to read a text -/

/-- Element types of the same kind and text are the same. -/
lemma ElementSpelling.eq_of_text_eq {e f : ElementSpelling} (htype : e.type = f.type)
    (htext : e.text = f.text) : e = f := by
  cases e with
  | primitive p =>
    cases f with
    | primitive q => exact congrArg ElementSpelling.primitive (ElementType.primitive.inj htype)
    | named internal closed => cases htype
  | named internal closed =>
    cases f with
    | primitive q => cases htype
    | named other closed' =>
      have hname : internal = other := by
        rw [← String.toList_inj] at htext ⊢
        simpa [ElementSpelling.text] using htext
      subst hname
      rfl

/-- No type starts with the text of another one. -/
lemma TypeSpelling.eq_of_encode_append {s t : TypeSpelling} {xs ys : Bytes}
    (h : Utf8.encode s.text ++ xs = Utf8.encode t.text ++ ys) : s = t ∧ xs = ys := by
  have hs : takeType (Utf8.encode s.text ++ xs) = .ok (s.type, xs) :=
    takeType_eq_ok_iff.2 ⟨s, rfl, rfl⟩
  have ht : takeType (Utf8.encode t.text ++ ys) = .ok (t.type, ys) :=
    takeType_eq_ok_iff.2 ⟨t, rfl, rfl⟩
  rw [h, ht] at hs
  obtain ⟨htype, rfl⟩ := Prod.mk.inj (Except.ok.inj hs)
  have htext : s.text = t.text := (Utf8.encode_injective (List.append_cancel_right h))
  obtain ⟨n, e⟩ := s
  obtain ⟨m, f⟩ := t
  have helement : f.type = e.type := congrArg FieldType.element htype
  have hdimensions : m = n := congrArg FieldType.dimensions htype
  subst hdimensions
  have hrest : f.text = e.text := by
    rw [← String.toList_inj] at htext ⊢
    simpa [TypeSpelling.text] using htext.symm
  exact ⟨congrArg (TypeSpelling.mk m) (ElementSpelling.eq_of_text_eq helement hrest).symm, rfl⟩

/-- Parameters end at the parenthesis with which no type starts. -/
lemma eq_of_encode_parameters_append {ss ts : List TypeSpelling} {xs ys : Bytes}
    (h : ss.flatMap (fun s => Utf8.encode s.text) ++ ')'.toUInt8 :: xs =
      ts.flatMap (fun t => Utf8.encode t.text) ++ ')'.toUInt8 :: ys) : ss = ts ∧ xs = ys := by
  have hfirst (t : TypeSpelling) (ts : List TypeSpelling) (xs ys : Bytes) :
      ')'.toUInt8 :: xs ≠ (t :: ts).flatMap (fun t => Utf8.encode t.text) ++ ')'.toUInt8 :: ys := by
    obtain ⟨b, tail, htext, hb⟩ := encode_typeText_eq_cons t
    rw [List.flatMap_cons, htext]
    intro heq
    obtain ⟨hclose, -⟩ := List.cons.inj heq
    exact hb (by simp [← hclose])
  induction ss generalizing ts with
  | nil =>
    cases ts with
    | nil => exact ⟨rfl, (List.cons.inj h).2⟩
    | cons t ts => exact absurd h (hfirst t ts xs ys)
  | cons s ss ih =>
    cases ts with
    | nil => exact absurd h.symm (hfirst s ss ys xs)
    | cons t ts =>
      rw [List.flatMap_cons, List.flatMap_cons, List.append_assoc, List.append_assoc] at h
      obtain ⟨rfl, hrest⟩ := TypeSpelling.eq_of_encode_append h
      obtain ⟨rfl, rfl⟩ := ih hrest
      exact ⟨rfl, rfl⟩

/-- A result ends where it does, whatever follows. -/
lemma eq_of_encode_result_append {r q : Option TypeSpelling} {xs ys : Bytes}
    (h : Utf8.encode (resultText r) ++ xs = Utf8.encode (resultText q) ++ ys) :
    r = q ∧ xs = ys := by
  have hfirst (t : TypeSpelling) (xs ys : Bytes) :
      Utf8.encode (resultText none) ++ xs ≠ Utf8.encode (resultText (some t)) ++ ys := by
    obtain ⟨b, tail, htext, hb⟩ := encode_typeText_eq_cons t
    rw [resultText, Option.map_none, Option.getD_none, encode_V, resultText, Option.map_some,
      Option.getD_some, htext]
    intro heq
    obtain ⟨hvoid, -⟩ := List.cons.inj heq
    exact hb (by simp [← hvoid])
  cases r with
  | none =>
    cases q with
    | none => exact ⟨rfl, List.append_cancel_left h⟩
    | some t => exact absurd h (hfirst t xs ys)
  | some s =>
    cases q with
    | none => exact absurd h.symm (hfirst s ys xs)
    | some t =>
      obtain ⟨rfl, hrest⟩ := TypeSpelling.eq_of_encode_append h
      exact ⟨rfl, hrest⟩

/-- A descriptor is the text of one signature only, and no descriptor continues another one. -/
lemma Signature.eq_of_text_append {s t : Signature} {rest : String} (h : s.text ++ rest = t.text) :
    s = t ∧ rest = "" := by
  have hbytes : Utf8.encode s.text ++ Utf8.encode rest = Utf8.encode t.text ++ [] := by
    rw [← Utf8.encode_append, h, List.append_nil]
  rw [Signature.encode_text, Signature.encode_text, List.cons_append, List.append_assoc,
    List.cons_append, List.cons_append, List.append_assoc, List.cons_append] at hbytes
  obtain ⟨hparameters, hresult⟩ := eq_of_encode_parameters_append (List.cons.inj hbytes).2
  obtain ⟨hresult, hrest⟩ := eq_of_encode_result_append hresult
  obtain ⟨ss, r⟩ := s
  obtain ⟨ts, q⟩ := t
  subst hparameters hresult
  refine ⟨rfl, Utf8.encode_injective ?_⟩
  rw [hrest]
  rfl

/-! ### What is no descriptor -/

/-- The characters with which types start. -/
def typeStarts : List Char :=
  '[' :: 'L' :: Primitive.all.map Primitive.tag

/-- A text of brackets only. -/
def brackets (n : Nat) : String :=
  String.ofList (List.replicate n '[')

/-- Why no type that is no array stands at the start of a text: the text is empty, the name of a
class does not end, or no type starts with the first character. -/
inductive NoElement : String → Error → Prop
  | truncated : NoElement "" .truncated
  | unterminatedName {name : String} (h : ';' ∉ name.toList) :
    NoElement ("L" ++ name) .unterminatedName
  | unexpectedTag {c : Char} (rest : String) (h : c ∉ typeStarts) :
    NoElement (String.singleton c ++ rest) (.unexpectedTag (Utf8.firstByte c))

/-- Why no type stands at the start of a text: none stands after its brackets. -/
def NoType (u : String) (e : Error) : Prop :=
  ∃ n v, u = brackets n ++ v ∧ NoElement v e

/-- Why a text is no descriptor. -/
inductive Rejected : String → Error → Prop
  | empty : Rejected "" .truncated
  | missingOpen {d : String} (hne : d ≠ "") (h : d.toList.head? ≠ some '(') :
    Rejected d .missingOpen
  /-- After some parameters stands neither another one nor a closing parenthesis. -/
  | parameter (ss : List TypeSpelling) {u : String} {e : Error} (hu : u.toList.head? ≠ some ')')
    (h : NoType u e) : Rejected ("(" ++ String.join (ss.map TypeSpelling.text) ++ u) e
  /-- After the parameters stands no result. -/
  | result (ss : List TypeSpelling) {u : String} {e : Error} (hu : u.toList.head? ≠ some 'V')
    (h : NoType u e) : Rejected ("(" ++ String.join (ss.map TypeSpelling.text) ++ ")" ++ u) e
  | leftover (s : Signature) {rest : String} (h : rest ≠ "") : Rejected (s.text ++ rest) .leftover

/-- No bracket is left after the brackets are taken. -/
lemma head?_takeDimensions (bs : Bytes) : (takeDimensions bs).2.head? ≠ some '['.toUInt8 := by
  induction bs with
  | nil => simp [takeDimensions]
  | cons b bs ih =>
    unfold takeDimensions
    split
    · exact ih
    · rename_i hb
      simpa using hb

/-- All brackets are taken from before something else. -/
lemma takeDimensions_replicate_append (n : Nat) {bs : Bytes} (h : bs.head? ≠ some '['.toUInt8) :
    takeDimensions (List.replicate n '['.toUInt8 ++ bs) = (n, bs) := by
  cases bs with
  | nil =>
    induction n with
    | zero => rfl
    | succ n ih => simp [List.replicate_succ, takeDimensions] at ih ⊢; simp [ih]
  | cons b bs =>
    refine takeDimensions_eq n ?_ bs
    rintro rfl
    simp at h

/-- Brackets are bytes of their own. -/
lemma encode_brackets_append (n : Nat) (u : String) :
    Utf8.encode (brackets n ++ u) = List.replicate n '['.toUInt8 ++ Utf8.encode u := by
  rw [Utf8.encode_append, brackets, encode_replicate]

/-- What follows the brackets of a text is a text, which starts with no bracket. -/
lemma exists_takeDimensions_encode (u : String) :
    ∃ n v, u = brackets n ++ v ∧ v.toList.head? ≠ some '[' ∧
      takeDimensions (Utf8.encode u) = (n, Utf8.encode v) := by
  have hbytes := eq_of_takeDimensions (Utf8.encode u)
  have hhead := head?_takeDimensions (Utf8.encode u)
  generalize htake : takeDimensions (Utf8.encode u) = p at hbytes hhead
  obtain ⟨n, bs⟩ := p
  rw [← encode_replicate] at hbytes
  obtain ⟨v, rfl, rfl⟩ := Utf8.exists_append_of_encode_append hbytes.symm
  rw [ne_eq, Utf8.head?_encode_eq_iff (by decide)] at hhead
  exact ⟨n, v, rfl, hhead, rfl⟩

/-- A type starts with a bracket, an `L` or a tag. -/
lemma mem_typeStarts_iff {c : Char} :
    c ∈ typeStarts ↔ c = '[' ∨ c = 'L' ∨ Primitive.ofTag? (Utf8.firstByte c) ≠ none := by
  have htag (p : Primitive) : p.tag.toNat < 128 := by cases p <;> decide
  rw [typeStarts, List.mem_cons, List.mem_cons, List.mem_map, Primitive.ofTag?, ne_eq,
    List.find?_eq_none]
  push Not
  simp only [beq_iff_eq, eq_comm (b := Utf8.firstByte c), Utf8.firstByte_eq_iff (htag _),
    eq_comm (a := c)]

/-- What is refused as an element type does not start with a bracket. -/
lemma NoElement.head? {u : String} {e : Error} (h : NoElement u e) : u.toList.head? ≠ some '[' := by
  cases h with
  | truncated => simp
  | unterminatedName h => simp
  | unexpectedTag rest h =>
    intro hhead
    rw [String.toList_append, String.toList_singleton, List.singleton_append, List.head?_cons,
      Option.some.injEq] at hhead
    exact h (mem_typeStarts_iff.2 (.inl hhead))

/-- The name of a class is a text, and all that can go wrong is that it does not end. -/
lemma takeElement_encode_L_eq_error_iff {rest : String} {e : Error} :
    takeElement (Utf8.encode ("L" ++ rest)) = .error e ↔
      ';' ∉ rest.toList ∧ e = .unterminatedName := by
  rw [Utf8.encode_append, encode_L, List.singleton_append, takeElement, if_pos rfl,
    ← Utf8.mem_encode_iff (by decide)]
  cases hbreak : breakFirst ';'.toUInt8 (Utf8.encode rest) with
  | none =>
    have hopen := breakFirst_eq_none.1 hbreak
    simp [hopen, eq_comm]
  | some p =>
    obtain ⟨name, tail⟩ := p
    obtain ⟨hsplit, hname⟩ := breakFirst_eq_some.1 hbreak
    obtain ⟨text, rfl⟩ := Utf8.exists_encode_eq_of_append_cons (by decide) hsplit hname
    simp [className?, Utf8.decode?_encode, hsplit]

/-- Apart from class names, an element type is refused at its first character. -/
lemma takeElement_encode_singleton_eq_error_iff {c : Char} (hc : c ≠ 'L') {rest : String}
    {e : Error} :
    takeElement (Utf8.encode (String.singleton c ++ rest)) = .error e ↔
      Primitive.ofTag? (Utf8.firstByte c) = none ∧ e = .unexpectedTag (Utf8.firstByte c) := by
  obtain ⟨bs, hbs⟩ := Utf8.encode_singleton_append c rest
  have hfirst : Utf8.firstByte c ≠ 'L'.toUInt8 := fun h =>
    hc ((Utf8.firstByte_eq_iff (by decide)).1 h)
  rw [hbs, takeElement, if_neg hfirst]
  cases Primitive.ofTag? (Utf8.firstByte c) <;> simp [eq_comm]

/-- Where no element is read off a text, it says why. -/
lemma takeElement_encode_eq_error_iff {u : String} {e : Error} (hu : u.toList.head? ≠ some '[') :
    takeElement (Utf8.encode u) = .error e ↔ NoElement u e := by
  constructor
  · intro h
    rcases Utf8.eq_empty_or_exists_singleton_append u with rfl | ⟨c, rest, rfl⟩
    · cases h
      exact .truncated
    · by_cases hL : c = 'L'
      · subst hL
        obtain ⟨hopen, rfl⟩ := takeElement_encode_L_eq_error_iff.1 h
        exact .unterminatedName hopen
      · obtain ⟨htag, rfl⟩ := (takeElement_encode_singleton_eq_error_iff hL).1 h
        refine .unexpectedTag rest fun hmem => ?_
        rcases mem_typeStarts_iff.1 hmem with rfl | rfl | htag'
        · exact hu (by simp)
        · exact hL rfl
        · exact htag' htag
  · intro h
    cases h with
    | truncated => rfl
    | unterminatedName h => exact takeElement_encode_L_eq_error_iff.2 ⟨h, rfl⟩
    | unexpectedTag rest h =>
      rw [mem_typeStarts_iff, not_or, not_or, not_not] at h
      obtain ⟨-, hL, htag⟩ := h
      exact (takeElement_encode_singleton_eq_error_iff hL).2 ⟨htag, rfl⟩

/-- A type is refused for the reasons of the grammar and no others. -/
lemma takeType_encode_eq_error_iff {u : String} {e : Error} :
    takeType (Utf8.encode u) = .error e ↔ NoType u e := by
  have htype {n : Nat} {v : String} (hv : v.toList.head? ≠ some '[') :
      takeType (Utf8.encode (brackets n ++ v)) = .error e ↔ NoElement v e := by
    have hhead : (Utf8.encode v).head? ≠ some '['.toUInt8 := by
      rwa [ne_eq, Utf8.head?_encode_eq_iff (by decide)]
    rw [← takeElement_encode_eq_error_iff hv, encode_brackets_append, takeType,
      takeDimensions_replicate_append n hhead]
    dsimp only
    split <;> simp_all
  constructor
  · intro h
    obtain ⟨n, v, rfl, hv, -⟩ := exists_takeDimensions_encode u
    exact ⟨n, v, rfl, (htype hv).1 h⟩
  · intro h
    obtain ⟨n, v, rfl, hv⟩ := h
    exact (htype hv.head?).2 hv

/-- Parameters are read as far as there are types, and no parenthesis closes them. -/
lemma takeParameters_encode_eq_error_iff {u : String} {e : Error} :
    takeParameters (Utf8.encode u) = .error e ↔ ∃ (ss : List TypeSpelling) (v : String),
      u = String.join (ss.map TypeSpelling.text) ++ v ∧ v.toList.head? ≠ some ')' ∧ NoType v e := by
  constructor
  · intro h
    -- What was read before the fault are the spellings of the types, so it is enough to follow the
    -- reader one type at a time.
    generalize hbs : Utf8.encode u = bs at h
    fun_induction takeParameters bs generalizing u with
    | case1 =>
      cases h
      obtain rfl : u = "" := Utf8.encode_injective hbs
      exact ⟨[], "", rfl, by simp, 0, "", rfl, .truncated⟩
    | case2 tail => cases h
    | case3 b tail hb e' htype =>
      cases h
      rw [← hbs, takeType_encode_eq_error_iff] at htype
      refine ⟨[], u, (String.empty_append).symm, ?_, htype⟩
      rw [ne_eq, ← Utf8.head?_encode_eq_iff (by decide), hbs]
      simpa using hb
    | case4 b tail hb t mid htype e' hrest ih =>
      cases h
      obtain ⟨s, -, hs⟩ := takeType_eq_ok_iff.1 htype
      obtain ⟨v, rfl, rfl⟩ := Utf8.exists_append_of_encode_append (hs.symm.trans hbs.symm)
      obtain ⟨ss, w, rfl, hw, hfault⟩ := ih rfl hrest
      refine ⟨s :: ss, w, ?_, hw, hfault⟩
      rw [List.map_cons, String.join_cons, String.append_assoc]
    | case5 => cases h
  · intro h
    obtain ⟨ss, v, rfl, hv, hfault⟩ := h
    induction ss with
    | nil =>
      have htype := takeType_encode_eq_error_iff.2 hfault
      rw [ne_eq, ← Utf8.head?_encode_eq_iff (by decide)] at hv
      rw [List.map_nil, String.join_nil, String.empty_append]
      cases hbs : Utf8.encode v with
      | nil =>
        rw [hbs] at htype
        cases htype
        rw [takeParameters]
      | cons b tail =>
        rw [hbs] at htype hv
        have hb : b ≠ ')'.toUInt8 := by simpa using hv
        rw [takeParameters, if_neg hb]
        split <;> simp_all
    | cons s ss ih =>
      rw [List.map_cons, String.join_cons, String.append_assoc, Utf8.encode_append,
        takeParameters_encode_append, ih]
      rfl

/-- A result is refused as a type is, unless there is none. -/
lemma takeResult_encode_eq_error_iff {u : String} {e : Error} :
    takeResult (Utf8.encode u) = .error e ↔ u.toList.head? ≠ some 'V' ∧ NoType u e := by
  rw [ne_eq, ← Utf8.head?_encode_eq_iff (by decide), ← takeType_encode_eq_error_iff]
  cases hbs : Utf8.encode u with
  | nil => simp [takeResult, takeType, takeDimensions, takeElement]
  | cons b bs =>
    rw [takeResult, List.head?_cons, Option.some.injEq]
    split
    · rename_i hb
      simp [hb]
    · rename_i hb
      cases takeType (b :: bs) <;> simp [hb, Except.map]

/-- Parameters are encoded one after the other, up to the closing parenthesis. -/
lemma encode_parameters (ss : List TypeSpelling) :
    Utf8.encode (String.join (ss.map TypeSpelling.text) ++ ")") =
      ss.flatMap (fun s => Utf8.encode s.text) ++ [')'.toUInt8] := by
  have hclose : Utf8.encode ")" = [')'.toUInt8] := by decide
  rw [Utf8.encode_append, encode_join, List.flatMap_map, hclose]

/-- Parameters are taken from texts that spell them and are closed. -/
lemma takeParameters_encode_eq_ok_iff {u v : String} {ts : List FieldType} :
    takeParameters (Utf8.encode u) = .ok (ts, Utf8.encode v) ↔ ∃ ss : List TypeSpelling,
      ss.map TypeSpelling.type = ts ∧ u = String.join (ss.map TypeSpelling.text) ++ ")" ++ v := by
  rw [takeParameters_eq_ok_iff]
  refine exists_congr fun ss => and_congr_right fun _ => ?_
  rw [← Utf8.encode_injective.eq_iff, Utf8.encode_append _ v, encode_parameters, List.append_assoc,
    List.singleton_append]

/-- A result is taken from texts that start with one. -/
lemma takeResult_encode_eq_ok_iff {u v : String} :
    takeResult (Utf8.encode u) = .ok (Utf8.encode v) ↔ ∃ result, u = resultText result ++ v := by
  rw [takeResult_eq_ok_iff]
  refine exists_congr fun result => ?_
  rw [← Utf8.encode_injective.eq_iff, Utf8.encode_append]

/-- What is left of a text is a text. -/
lemma exists_encode_of_takeParameters {u : String} {ts : List FieldType} {rest : Bytes}
    (h : takeParameters (Utf8.encode u) = .ok (ts, rest)) : ∃ v, rest = Utf8.encode v := by
  obtain ⟨ss, -, hbytes⟩ := takeParameters_eq_ok_iff.1 h
  rw [← List.singleton_append, ← List.append_assoc, ← encode_parameters] at hbytes
  obtain ⟨v, -, rfl⟩ := Utf8.exists_append_of_encode_append hbytes.symm
  exact ⟨v, rfl⟩

/-- What a result leaves of a text is a text. -/
lemma exists_encode_of_takeResult {u : String} {rest : Bytes}
    (h : takeResult (Utf8.encode u) = .ok rest) : ∃ v, rest = Utf8.encode v := by
  obtain ⟨result, hbytes⟩ := takeResult_eq_ok_iff.1 h
  obtain ⟨v, -, rfl⟩ := Utf8.exists_append_of_encode_append hbytes.symm
  exact ⟨v, rfl⟩

/-- A text that starts with another character is not opened. -/
lemma parameters_singleton_append_of_ne {c : Char} (hc : c ≠ '(') (inner : String) :
    parameters (String.singleton c ++ inner) = .error .missingOpen := by
  obtain ⟨bs, hbs⟩ := Utf8.encode_singleton_append c inner
  have hfirst : Utf8.firstByte c ≠ '('.toUInt8 := fun h =>
    hc ((Utf8.firstByte_eq_iff (by decide)).1 h)
  rw [parameters, hbs, parametersOfBytes, if_neg hfirst]

/-- After the parenthesis, the parameters fail, or the result does, or something is left. -/
lemma parametersOfBytes_open_eq_error_iff {inner : Bytes} {e : Error} :
    parametersOfBytes ('('.toUInt8 :: inner) = .error e ↔ takeParameters inner = .error e ∨
      ∃ ts mid, takeParameters inner = .ok (ts, mid) ∧ (takeResult mid = .error e ∨
        ∃ rest, takeResult mid = .ok rest ∧ rest ≠ [] ∧ e = .leftover) := by
  rw [parametersOfBytes, if_pos rfl]
  cases hparameters : takeParameters inner with
  | error e' => simp [bind, Except.bind]
  | ok p =>
    obtain ⟨ts, mid⟩ := p
    cases hresult : takeResult mid with
    | error e' => simp [bind, Except.bind, hresult]
    | ok rest => cases rest <;> simp [bind, Except.bind, hresult, eq_comm]

/-- On a text, a failure behind the parenthesis is one of the parameters, of the result or of the
rest. -/
lemma parameters_open_eq_error_iff {inner : String} {e : Error} :
    parameters ("(" ++ inner) = .error e ↔ takeParameters (Utf8.encode inner) = .error e ∨
      ∃ ts mid, takeParameters (Utf8.encode inner) = .ok (ts, mid) ∧ (takeResult mid = .error e ∨
        ∃ rest, takeResult mid = .ok rest ∧ rest ≠ [] ∧ e = .leftover) := by
  have hopen : Utf8.encode "(" = ['('.toUInt8] := by decide
  rw [parameters, Utf8.encode_append, hopen, List.singleton_append,
    parametersOfBytes_open_eq_error_iff]

/-- What is refused after the parenthesis is refused by the grammar, for the same reason. -/
lemma rejected_of_parameters_open {inner : String} {e : Error}
    (h : parameters ("(" ++ inner) = .error e) : Rejected ("(" ++ inner) e := by
  rcases parameters_open_eq_error_iff.1 h with hparameters | ⟨ts, mid, hparameters, hrest⟩
  · obtain ⟨ss, u, rfl, hu, hfault⟩ := takeParameters_encode_eq_error_iff.1 hparameters
    rw [← String.append_assoc]
    exact .parameter ss hu hfault
  · obtain ⟨u, rfl⟩ := exists_encode_of_takeParameters hparameters
    obtain ⟨ss, -, rfl⟩ := takeParameters_encode_eq_ok_iff.1 hparameters
    rcases hrest with hresult | ⟨rest, hresult, hne, rfl⟩
    · obtain ⟨hu, hfault⟩ := takeResult_encode_eq_error_iff.1 hresult
      rw [← String.append_assoc, ← String.append_assoc]
      exact .result ss hu hfault
    · obtain ⟨w, rfl⟩ := exists_encode_of_takeResult hresult
      obtain ⟨result, rfl⟩ := takeResult_encode_eq_ok_iff.1 hresult
      have hw : w ≠ "" := by
        rintro rfl
        exact hne rfl
      have htext : "(" ++ (String.join (ss.map TypeSpelling.text) ++ ")" ++
          (resultText result ++ w)) = (⟨ss, result⟩ : Signature).text ++ w := by
        simp only [Signature.text, String.append_assoc]
      rw [htext]
      exact .leftover ⟨ss, result⟩ hw

/-- A text is refused exactly for the reason that it is no descriptor. -/
lemma parameters_eq_error_iff {d : String} {e : Error} :
    parameters d = .error e ↔ Rejected d e := by
  constructor
  · intro h
    -- A descriptor is empty, begins otherwise, or has its parenthesis: only then types are read.
    rcases Utf8.eq_empty_or_exists_singleton_append d with rfl | ⟨c, inner, rfl⟩
    · cases h
      exact .empty
    · by_cases hc : c = '('
      · subst hc
        exact rejected_of_parameters_open h
      · rw [parameters_singleton_append_of_ne hc] at h
        cases h
        exact .missingOpen (by simp) (by simpa using hc)
  · intro h
    cases h with
    | empty => rfl
    | missingOpen hne h =>
      obtain ⟨c, inner, rfl⟩ := (Utf8.eq_empty_or_exists_singleton_append d).resolve_left hne
      exact parameters_singleton_append_of_ne (by simpa using h) inner
    | parameter ss hu h =>
      rw [String.append_assoc, parameters_open_eq_error_iff]
      exact .inl (takeParameters_encode_eq_error_iff.2 ⟨ss, _, rfl, hu, h⟩)
    | @result ss u e hu h =>
      have htext : "(" ++ String.join (ss.map TypeSpelling.text) ++ ")" ++ u =
          "(" ++ (String.join (ss.map TypeSpelling.text) ++ ")" ++ u) := by
        simp only [String.append_assoc]
      rw [htext, parameters_open_eq_error_iff]
      exact .inr ⟨_, _, takeParameters_encode_eq_ok_iff.2 ⟨ss, rfl, rfl⟩,
        .inl (takeResult_encode_eq_error_iff.2 ⟨hu, h⟩)⟩
    | @leftover s rest h =>
      have htext : s.text ++ rest = "(" ++ (String.join (s.parameters.map TypeSpelling.text) ++
          ")" ++ (resultText s.result ++ rest)) := by
        simp only [Signature.text, String.append_assoc]
      rw [htext, parameters_open_eq_error_iff]
      refine .inr ⟨_, _, takeParameters_encode_eq_ok_iff.2 ⟨s.parameters, rfl, rfl⟩, .inr ⟨_,
        takeResult_encode_eq_ok_iff.2 ⟨s.result, rfl⟩, ?_, rfl⟩⟩
      intro hnil
      exact h (Utf8.encode_injective hnil)

end Descriptor

namespace ClassFile

open Descriptor

/-- The descriptors are the texts of signatures, and give the types of the parameters.  Each is the
text of one signature, and none starts another one.  All other texts are refused, for what is
missing at the first place where they are no start of a descriptor. -/
theorem parametersOf_iff_signature (d : String) :
    (∀ ts, parametersOf d = .ok ts ↔ ∃ s : Signature, s.text = d ∧ s.parameterTypes = ts) ∧
      (∀ (s t : Signature) (rest : String), s.text = d → t.text ++ rest = d → s = t ∧ rest = "") ∧
      ((∃ e, parametersOf d = .error (.invalidDescriptor d e)) ↔ ∀ s : Signature, s.text ≠ d) ∧
      ∀ e, parametersOf d = .error (.invalidDescriptor d e) ↔ Rejected d e := by
  have hok (ts : List FieldType) :
      parametersOf d = .ok ts ↔ ∃ s : Signature, s.text = d ∧ s.parameterTypes = ts :=
    parametersOf_eq_ok_iff
  have herror (e : Descriptor.Error) :
      parametersOf d = .error (.invalidDescriptor d e) ↔ parameters d = .error e := by
    rw [parametersOf]
    split <;> simp_all
  refine ⟨hok, ?_, ?_, ?_⟩
  · intro s t rest hs ht
    obtain ⟨rfl, hrest⟩ := Signature.eq_of_text_append (ht.trans hs.symm)
    exact ⟨rfl, hrest⟩
  · constructor
    · intro h s hs
      obtain ⟨e, he⟩ := h
      rw [(hok _).2 ⟨s, hs, rfl⟩] at he
      cases he
    · intro h
      cases hparameters : parameters d with
      | error e => exact ⟨e, (herror e).2 hparameters⟩
      | ok ts =>
        obtain ⟨s, hs, -⟩ := parameters_eq_ok_iff.1 hparameters
        exact absurd hs (h s)
  · intro e
    rw [herror, parameters_eq_error_iff]

end ClassFile

end ClasspathIndex
