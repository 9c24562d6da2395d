import ClasspathIndex.Proofs.Descriptor.Grammar

/-!
# Where the reader of descriptors stands

The reader works on bytes, and takes the name of a class to be the text of the bytes between `L`
and a semicolon.  `Calls` lists the calls that the reading of a byte string makes, each with the
bytes that are left, so that the number of bytes before them is where the reader stands.  If the
byte string is that of a text, then it never stands within a character, because all that it has
gone past is a text (`Calls.leftOf`): an ASCII character, the text of a type, or the name
of a class up to an ASCII character.

Hence both ends of the name of a class are places between characters, the bytes between them are
those of a text, and the error for bytes that are no text is not met.  For byte strings that
are no texts it may be, but only by a call that `Calls` lists
(`meetsBrokenName_of_parametersOfBytes`).
-/

namespace ClasspathIndex.Descriptor

open Text

/-! ### Calls -/

/-- What is read next. -/
inductive Stage where
  | descriptor
  /-- Parameters, up to the closing parenthesis. -/
  | parameters
  | type
  | dimensions
  | element
  /-- The name of a class, up to the semicolon. -/
  | name
  | result
  /-- The end of the descriptor. -/
  | finish

/-- The calls made when a byte string is read as a descriptor: what is read, and what is left of
the byte string. -/
inductive Calls (d : Bytes) : Stage → Bytes → Prop
  | descriptor : Calls d .descriptor d
  | parameters {left : Bytes} (h : Calls d .descriptor ('('.toUInt8 :: left)) :
    Calls d .parameters left
  | parameterType {b : UInt8} {left : Bytes} (h : Calls d .parameters (b :: left))
    (hb : b ≠ ')'.toUInt8) : Calls d .type (b :: left)
  /-- The parameters after the first one. -/
  | moreParameters {b : UInt8} {left rest : Bytes} {t : FieldType}
    (h : Calls d .parameters (b :: left)) (hb : b ≠ ')'.toUInt8)
    (ht : takeType (b :: left) = .ok (t, rest)) : Calls d .parameters rest
  | dimensions {left : Bytes} (h : Calls d .type left) : Calls d .dimensions left
  /-- The dimensions after the first one. -/
  | moreDimensions {left : Bytes} (h : Calls d .dimensions ('['.toUInt8 :: left)) :
    Calls d .dimensions left
  | element {left : Bytes} (h : Calls d .type left) : Calls d .element (takeDimensions left).2
  | name {left : Bytes} (h : Calls d .element ('L'.toUInt8 :: left)) : Calls d .name left
  | result {left rest : Bytes} {ts : List FieldType}
    (h : Calls d .descriptor ('('.toUInt8 :: left)) (ht : takeParameters left = .ok (ts, rest)) :
    Calls d .result rest
  | resultType {b : UInt8} {left : Bytes} (h : Calls d .result (b :: left))
    (hb : b ≠ 'V'.toUInt8) : Calls d .type (b :: left)
  | finish {left rest : Bytes} (h : Calls d .result left) (ht : takeResult left = .ok rest) :
    Calls d .finish rest

/-! ### What lies before and after -/

/-- Whether the bytes are those of what is left of a text after a start of it. -/
def LeftOf (d : String) (left : Bytes) : Prop :=
  ∃ front back, d = front ++ back ∧ left = Utf8.encode back

/-- What is left after a part of the rest is left of the whole. -/
lemma LeftOf.of_encode_append {d s : String} {left rest : Bytes} (h : LeftOf d left)
    (hs : left = Utf8.encode s ++ rest) : LeftOf d rest := by
  obtain ⟨front, back, rfl, rfl⟩ := h
  obtain ⟨tail, rfl, rfl⟩ := Utf8.exists_append_of_encode_append hs.symm
  exact ⟨front ++ s, tail, (String.append_assoc).symm, rfl⟩

/-- Every call is made where a character starts, or at the end. -/
lemma Calls.leftOf {d : String} {stage : Stage} {left : Bytes}
    (h : Calls (Utf8.encode d) stage left) : LeftOf d left := by
  have hopen : Utf8.encode "(" = ['('.toUInt8] := by decide
  have hbracket : Utf8.encode "[" = ['['.toUInt8] := by decide
  induction h with
  | descriptor => exact ⟨"", d, (String.empty_append).symm, rfl⟩
  | parameters _ ih => exact ih.of_encode_append (s := "(") (by rw [hopen]; rfl)
  | parameterType _ _ ih => exact ih
  | moreParameters _ _ ht ih =>
    obtain ⟨s, -, hs⟩ := takeType_eq_ok_iff.1 ht
    exact ih.of_encode_append hs
  | dimensions _ ih => exact ih
  | moreDimensions _ ih => exact ih.of_encode_append (s := "[") (by rw [hbracket]; rfl)
  | @element left _ ih =>
    refine ih.of_encode_append (s := brackets (takeDimensions left).1) ?_
    rw [brackets, encode_replicate]
    exact eq_of_takeDimensions left
  | name _ ih => exact ih.of_encode_append (s := "L") (by rw [encode_L]; rfl)
  | @result left rest ts _ ht ih =>
    have hleft := ih.of_encode_append (s := "(") (by rw [hopen]; rfl)
    obtain ⟨ss, -, hss⟩ := takeParameters_eq_ok_iff.1 ht
    refine hleft.of_encode_append (s := String.join (ss.map TypeSpelling.text) ++ ")") ?_
    rw [encode_parameters, List.append_assoc]
    exact hss
  | resultType _ _ ih => exact ih
  | finish _ ht ih =>
    obtain ⟨result, hresult⟩ := takeResult_eq_ok_iff.1 ht
    exact ih.of_encode_append hresult

/-! ### Places -/

/-- Whether a reader of a text that has these bytes left stands at the byte with this number, and a
character starts there or the text ends. -/
structure StandsAt (d : String) (left : Bytes) (cursor : Nat) : Prop where
  le : cursor ≤ d.utf8ByteSize
  boundary : (⟨cursor⟩ : String.Pos.Raw).IsValid d
  left : left = (Utf8.encode d).drop cursor

/-- Whether the part of a text from one byte to another one can be cut out, and is the given
text. -/
structure CutsOut (d : String) (start stop : Nat) (part : String) : Prop where
  start_le_stop : start ≤ stop
  stop_le : stop ≤ d.utf8ByteSize
  start_boundary : (⟨start⟩ : String.Pos.Raw).IsValid d
  stop_boundary : (⟨stop⟩ : String.Pos.Raw).IsValid d
  part : ((Utf8.encode d).take stop).drop start = Utf8.encode part

/-- A text has as many bytes as its size says. -/
lemma length_encode (s : String) : (Utf8.encode s).length = s.utf8ByteSize :=
  rfl

/-- Between a text and another one after it is a place of both together. -/
lemma isValid_append (front back : String) :
    (⟨front.utf8ByteSize⟩ : String.Pos.Raw).IsValid (front ++ back) :=
  String.Pos.Raw.isValid_iff_exists_append.2 ⟨front, back, rfl, rfl⟩

/-- The second of two texts starts where the first one ends. -/
lemma standsAt_append (front back : String) :
    StandsAt (front ++ back) (Utf8.encode back) front.utf8ByteSize where
  le := (isValid_append front back).le_utf8ByteSize
  boundary := isValid_append front back
  left := by rw [Utf8.encode_append, ← length_encode, List.drop_left]

/-- A part in the middle of a text is cut out between its ends. -/
lemma cutsOut_append (front part back : String) :
    CutsOut (front ++ part ++ back) front.utf8ByteSize (front ++ part).utf8ByteSize part where
  start_le_stop := by
    rw [String.utf8ByteSize_append]
    exact Nat.le_add_right _ _
  stop_le := (isValid_append (front ++ part) back).le_utf8ByteSize
  start_boundary := by
    rw [String.append_assoc]
    exact isValid_append front (part ++ back)
  stop_boundary := isValid_append (front ++ part) back
  part := by
    rw [Utf8.encode_append (front ++ part), ← length_encode (front ++ part), List.take_left,
      Utf8.encode_append, ← length_encode, List.drop_left]

/-! ### The name of a class -/

/-- A semicolon ends the name of a class: the name is cut out of the text before it. -/
lemma LeftOf.exists_cutsOut {d : String} {left name rest : Bytes} (h : LeftOf d left)
    (hname : breakFirst ';'.toUInt8 left = some (name, rest)) :
    ∃ start internal, StandsAt d left start ∧ CutsOut d start (start + name.length) internal ∧
      StandsAt d rest (start + name.length + 1) ∧ name = Utf8.encode internal := by
  obtain ⟨front, back, rfl, rfl⟩ := h
  obtain ⟨hsplit, hmem⟩ := breakFirst_eq_some.1 hname
  obtain ⟨internal, rfl⟩ := Utf8.exists_encode_eq_of_append_cons (by decide) hsplit hmem
  obtain ⟨tail, rfl, htail⟩ := Utf8.exists_append_of_encode_append hsplit.symm
  have hafter : Utf8.encode ";" ++ rest = Utf8.encode tail := by
    rw [htail, encode_semicolon]
    rfl
  obtain ⟨tail, rfl, rfl⟩ := Utf8.exists_append_of_encode_append hafter
  have hstop : front.utf8ByteSize + (Utf8.encode internal).length =
      (front ++ internal).utf8ByteSize := by
    rw [String.utf8ByteSize_append, length_encode]
  have hnext : (front ++ internal).utf8ByteSize + 1 = (front ++ internal ++ ";").utf8ByteSize :=
    (String.utf8ByteSize_append (s := front ++ internal) (t := ";")).symm
  refine ⟨front.utf8ByteSize, internal, standsAt_append _ _, ?_, ?_, rfl⟩
  · rw [hstop, ← String.append_assoc]
    exact cutsOut_append _ _ _
  · rw [hstop, hnext, ← String.append_assoc, ← String.append_assoc]
    exact standsAt_append _ _

/-! ### Names that are no text -/

variable {d : Bytes}

/-- Whether the reading of a byte string comes to the name of a class whose bytes are no text. -/
def MeetsBrokenName (d : Bytes) : Prop :=
  ∃ left name rest, Calls d .name left ∧ breakFirst ';'.toUInt8 left = some (name, rest) ∧
    className? name = none

/-- An element type that fails with a broken name has met one. -/
lemma meetsBrokenName_of_takeElement {left : Bytes} (hcall : Calls d .element left)
    (h : takeElement left = .error .brokenName) : MeetsBrokenName d := by
  cases left with
  | nil => cases h
  | cons b left =>
    rw [takeElement] at h
    split at h
    · rename_i hb
      subst hb
      split at h
      · cases h
      rename_i name rest hname
      split at h
      · rename_i hbroken
        exact ⟨left, name, rest, .name hcall, hname, hbroken⟩
      · cases h
    · split at h <;> cases h

/-- A type that fails with a broken name has met one, in its element type. -/
lemma meetsBrokenName_of_takeType {left : Bytes} (hcall : Calls d .type left)
    (h : takeType left = .error .brokenName) : MeetsBrokenName d := by
  have helement := hcall.element
  unfold takeType at h
  split at h
  rename_i n bs hdimensions
  rw [hdimensions] at helement
  split at h
  · rename_i e he
    cases h
    exact meetsBrokenName_of_takeElement helement he
  · cases h

/-- Parameters that fail with a broken name have met one, in one of them. -/
lemma meetsBrokenName_of_takeParameters {left : Bytes} (hcall : Calls d .parameters left)
    (h : takeParameters left = .error .brokenName) : MeetsBrokenName d := by
  fun_induction takeParameters left with
  | case1 => cases h
  | case2 tail => cases h
  | case3 b tail hb e htype =>
    cases h
    exact meetsBrokenName_of_takeType (hcall.parameterType hb) htype
  | case4 b tail hb t mid htype e hrest ih =>
    cases h
    exact ih (hcall.moreParameters hb htype) hrest
  | case5 => cases h

/-- A result that fails with a broken name has met one, as a type does. -/
lemma meetsBrokenName_of_takeResult {left : Bytes} (hcall : Calls d .result left)
    (h : takeResult left = .error .brokenName) : MeetsBrokenName d := by
  cases left with
  | nil => cases h
  | cons b left =>
    rw [takeResult] at h
    split at h
    · cases h
    · rename_i hb
      cases htype : takeType (b :: left) with
      | error e =>
        rw [htype] at h
        cases h
        exact meetsBrokenName_of_takeType (hcall.resultType hb) htype
      | ok p =>
        rw [htype] at h
        cases h

/-- The error for bytes that are no text comes from the name of a class at some call. -/
lemma meetsBrokenName_of_parametersOfBytes (h : parametersOfBytes d = .error .brokenName) :
    MeetsBrokenName d := by
  cases d with
  | nil => cases h
  | cons b inner =>
    have hcall := Calls.descriptor (d := b :: inner)
    by_cases hb : b = '('.toUInt8
    · subst hb
      rcases parametersOfBytes_open_eq_error_iff.1 h with
        hparameters | ⟨ts, mid, hparameters, hrest⟩
      · exact meetsBrokenName_of_takeParameters hcall.parameters hparameters
      · rcases hrest with hresult | ⟨rest, -, -, he⟩
        · exact meetsBrokenName_of_takeResult (hcall.result hparameters) hresult
        · cases he
    · rw [parametersOfBytes, if_neg hb] at h
      cases h

/-! ### Reading a text -/

/-- The reader of a descriptor always stands between characters, at most at the end.  The name of
a class is cut out of the descriptor between such places, and is a text; hence the reader does not
fail for a name that is none. -/
theorem calls_standAt_and_cutOut (d : String) :
    (∀ stage left, Calls (Utf8.encode d) stage left → ∃ cursor, StandsAt d left cursor) ∧
      (∀ left, Calls (Utf8.encode d) .name left → ∀ name rest,
        breakFirst ';'.toUInt8 left = some (name, rest) → ∃ start internal,
          StandsAt d left start ∧ CutsOut d start (start + name.length) internal ∧
          StandsAt d rest (start + name.length + 1) ∧
          className? name = some (QualifiedName.dotted internal)) ∧
      parameters d ≠ .error .brokenName := by
  have hnames (left : Bytes) (h : Calls (Utf8.encode d) .name left) (name rest : Bytes)
      (hname : breakFirst ';'.toUInt8 left = some (name, rest)) := h.leftOf.exists_cutsOut hname
  refine ⟨fun stage left h => ?_, fun left h name rest hname => ?_, fun h => ?_⟩
  · obtain ⟨front, back, rfl, rfl⟩ := h.leftOf
    exact ⟨_, standsAt_append front back⟩
  · obtain ⟨start, internal, hstart, hcut, hrest, rfl⟩ := hnames left h name rest hname
    refine ⟨start, internal, hstart, hcut, hrest, ?_⟩
    rw [className?, Utf8.decode?_encode, Option.map_some]
  · obtain ⟨left, name, rest, hcall, hname, hbroken⟩ := meetsBrokenName_of_parametersOfBytes h
    obtain ⟨start, internal, -, -, -, rfl⟩ := hnames left hcall name rest hname
    rw [className?, Utf8.decode?_encode] at hbroken
    cases hbroken

/-- A descriptor with a name of two bytes. -/
def umlautDescriptor : String := "([Lä;I)V"

/-- The name lies between the bytes 3 and 5, and is read from there; after its semicolon the reader
stands before the next parameter. -/
theorem calls_standAt_and_cutOut_umlautDescriptor :
    Calls (Utf8.encode umlautDescriptor) .name [0xC3, 0xA4, 0x3B, 0x49, 0x29, 0x56] ∧
      breakFirst ';'.toUInt8 [0xC3, 0xA4, 0x3B, 0x49, 0x29, 0x56] =
        some ([0xC3, 0xA4], [0x49, 0x29, 0x56]) ∧
      (∃ start internal, StandsAt umlautDescriptor [0xC3, 0xA4, 0x3B, 0x49, 0x29, 0x56] start ∧
        CutsOut umlautDescriptor start (start + 2) internal ∧
        StandsAt umlautDescriptor [0x49, 0x29, 0x56] (start + 3) ∧
        className? [0xC3, 0xA4] = some (QualifiedName.dotted internal)) ∧
      Calls (Utf8.encode umlautDescriptor) .parameters [0x49, 0x29, 0x56] ∧
      ∃ cursor, StandsAt umlautDescriptor [0x49, 0x29, 0x56] cursor := by
  have hbytes : Utf8.encode umlautDescriptor =
      [0x28, 0x5B, 0x4C, 0xC3, 0xA4, 0x3B, 0x49, 0x29, 0x56] := by decide
  have hopen : Calls (Utf8.encode umlautDescriptor) .parameters
      [0x5B, 0x4C, 0xC3, 0xA4, 0x3B, 0x49, 0x29, 0x56] := by
    rw [hbytes]
    exact .parameters .descriptor
  have hcall := (hopen.parameterType (by decide)).element.name
  have hname : breakFirst ';'.toUInt8 [0xC3, 0xA4, 0x3B, 0x49, 0x29, 0x56] =
      some ([0xC3, 0xA4], [0x49, 0x29, 0x56]) := by decide
  have htype : takeType [0x5B, 0x4C, 0xC3, 0xA4, 0x3B, 0x49, 0x29, 0x56] =
      .ok (⟨.reference "ä", 1⟩, [0x49, 0x29, 0x56]) := by decide
  have hnext := hopen.moreParameters (by decide) htype
  obtain ⟨hstands, hcuts, -⟩ := calls_standAt_and_cutOut umlautDescriptor
  exact ⟨hcall, hname, hcuts _ hcall _ _ hname, hnext, hstands _ _ hnext⟩

end ClasspathIndex.Descriptor
