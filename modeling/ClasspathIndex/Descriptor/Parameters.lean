import ClasspathIndex.Descriptor.FieldType
import ClasspathIndex.QualifiedName
import ClasspathIndex.Text.Utf8

/-!
# Method descriptors

A method descriptor such as `(I[Ljava/lang/String;)V` holds the parameter types of a
method between parentheses, and its result type after them.  A type is written as a
number of `[`, one for each dimension, and then the letter of a primitive type or
`L`, the internal name of a class and `;`.  The result is a type or `V`.

A descriptor is read byte by byte: all its punctuation is ASCII, and the name of a class
is the run of bytes up to the next `;`.  `Descriptor.parameters` reads the descriptor
and keeps the parameter types; the result type is checked and dropped.
-/

namespace ClasspathIndex.Descriptor

open Text

/-- Why a text is no method descriptor. -/
inductive Error where
  /-- The text does not start with `(`. -/
  | missingOpen
  /-- The text ends where more is needed. -/
  | truncated
  /-- No `;` ends the name of a class. -/
  | unterminatedName
  /-- No type starts with this byte. -/
  | unexpectedTag (b : UInt8)
  /-- Something follows the result type. -/
  | leftover
  /-- The bytes of a class name are no text. -/
  | brokenName
  deriving DecidableEq, Repr

/-- What is wrong with the descriptor `d`.  A byte is shown as the character with its
number. -/
def Error.detail (d : String) : Error → String
  | missingOpen => "expected '(' in descriptor '" ++ d ++ "'"
  | truncated => "truncated descriptor '" ++ d ++ "'"
  | unterminatedName => "unterminated reference descriptor"
  | unexpectedTag b =>
    "unexpected descriptor tag '" ++ String.singleton (Char.ofNat b.toNat) ++ "'"
  | leftover => d
  | brokenName => "broken class name in descriptor '" ++ d ++ "'"

/-- The dotted name of a class from the bytes of its internal name. -/
def className? (bs : Bytes) : Option String :=
  (Utf8.decode? bs).map QualifiedName.dotted

/-- Counts the `[` at the start. -/
def takeDimensions : Bytes → Nat × Bytes
  | [] => (0, [])
  | b :: bs =>
    if b = '['.toUInt8 then
      match takeDimensions bs with
      | (n, rest) => (n + 1, rest)
    else (0, b :: bs)

/-- Reads a type that is no array. -/
def takeElement : Bytes → Except Error (ElementType × Bytes)
  | [] => .error .truncated
  | b :: bs =>
    if b = 'L'.toUInt8 then
      match breakFirst ';'.toUInt8 bs with
      | none => .error .unterminatedName
      | some (name, rest) =>
        match className? name with
        | none => .error .brokenName
        | some n => .ok (.reference n, rest)
    else
      match Primitive.ofTag? b with
      | some p => .ok (.primitive p, bs)
      | none => .error (.unexpectedTag b)

/-- Reads a type. -/
def takeType (bs : Bytes) : Except Error (FieldType × Bytes) :=
  match takeDimensions bs with
  | (n, bs) =>
    match takeElement bs with
    | .error e => .error e
    | .ok (element, rest) => .ok (⟨element, n⟩, rest)

/-- Taking brackets leaves no more bytes than there were. -/
theorem takeDimensions_length_le (bs : Bytes) : (takeDimensions bs).2.length ≤ bs.length := by
  induction bs with
  | nil => simp [takeDimensions]
  | cons b bs ih =>
    unfold takeDimensions
    split
    · simp only [List.length_cons]
      omega
    · simp

/-- Taking a type leaves fewer bytes than there were. -/
theorem takeElement_length_lt {bs rest : Bytes} {t : ElementType}
    (h : takeElement bs = .ok (t, rest)) : rest.length < bs.length := by
  unfold takeElement at h
  split at h
  · cases h
  · split at h
    · split at h
      · cases h
      · rename_i hb
        split at h
        · cases h
        · cases h
          have := congrArg List.length (breakFirst_eq_some.1 hb).1
          simp only [List.length_append, List.length_cons] at this ⊢
          omega
    · split at h
      · cases h; simp
      · cases h

/-- A type takes at least one byte. -/
theorem takeType_length_lt {bs rest : Bytes} {t : FieldType}
    (h : takeType bs = .ok (t, rest)) : rest.length < bs.length := by
  have hd := takeDimensions_length_le bs
  unfold takeType at h
  split at h
  rename_i heq
  rw [heq] at hd
  split at h
  · cases h
  · rename_i he
    cases h
    exact Nat.lt_of_lt_of_le (takeElement_length_lt he) hd

/-- Reads types up to and including the closing parenthesis. -/
def takeParameters (bs : Bytes) : Except Error (List FieldType × Bytes) :=
  match bs with
  | [] => .error .truncated
  | b :: tail =>
    if b = ')'.toUInt8 then .ok ([], tail)
    else
      match _h : takeType (b :: tail) with
      | .error e => .error e
      | .ok (t, rest) =>
        match takeParameters rest with
        | .error e => .error e
        | .ok (ts, rest) => .ok (t :: ts, rest)
termination_by bs.length
decreasing_by exact takeType_length_lt _h

/-- Reads the type of a result. -/
def takeResult : Bytes → Except Error Bytes
  | [] => .error .truncated
  | b :: bs =>
    if b = 'V'.toUInt8 then .ok bs
    else (takeType (b :: bs)).map Prod.snd

/-- The parameter types of a descriptor given by its bytes. -/
def parametersOfBytes : Bytes → Except Error (List FieldType)
  | [] => .error .truncated
  | b :: bs =>
    if b = '('.toUInt8 then do
      let (ts, rest) ← takeParameters bs
      match ← takeResult rest with
      | [] => .ok ts
      | _ :: _ => .error .leftover
    else .error .missingOpen

/-- The parameter types of a method descriptor. -/
def parameters (d : String) : Except Error (List FieldType) :=
  parametersOfBytes (Utf8.encode d)

end ClasspathIndex.Descriptor
