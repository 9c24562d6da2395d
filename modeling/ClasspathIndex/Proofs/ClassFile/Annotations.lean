import ClasspathIndex.Proofs.ClassFile.Methods

/-!
# Annotations to any depth

The reader of annotation values is given a bound for the depth to which values nest.  The number of
bytes that are left is enough: a value is read after the tag of the value around it, so that one
byte less is left for it.  `ElementValue.read` and `AnnotationList.readElements` are the readers
with this bound.

`ElementValue.readLevel` is one level of reading, with the reader of the values inside left open.
Levels put on top of one another give the same answer on few enough bytes, whatever is called below
them (`ElementValue.agreeUpTo_iterate_readLevel`).  So nothing is called below them: reading without
a bound comes to an end, and is the one reader that does itself what a level does
(`ElementValue.readLevel_eq_iff`).
-/

namespace ClasspathIndex

/-- A number is written in as many bytes as are asked for. -/
lemma Bytes.length_bigEndianOf (k n : Nat) : (bigEndianOf k n).length = k := by
  induction k with
  | zero => rfl
  | succ k ih => rw [bigEndianOf, List.length_cons, ih]

namespace ClassFile

open Bytes Reader

namespace Reader

variable {α β : Type}

/-! ### Readers on few bytes -/

/-- Whether two readers do the same on at most `n` bytes. -/
def AgreeUpTo (n : Nat) (r s : Reader α) : Prop :=
  ∀ bs : Bytes, bs.length ≤ n → r bs = s bs

/-- Whether a reader leaves at most what it was given, if that is at most `n` bytes. -/
def ShortensUpTo (n : Nat) (r : Reader α) : Prop :=
  ∀ bs x rest, bs.length ≤ n → r bs = .ok (x, rest) → rest.length ≤ bs.length

/-- A reader of encodings leaves what follows one, which is no more than it was given. -/
lemma ReadsUpTo.shortensUpTo {n : Nat} {r : Reader β} {valid : α → Prop} {encode : α → Bytes}
    {view : α → β} (h : ReadsUpTo n r valid encode view) : ShortensUpTo n r := by
  intro bs y rest hbs hy
  obtain ⟨x, -, -, rfl⟩ := (h.eq_ok_iff hbs).1 hy
  rw [List.length_append]
  exact Nat.le_add_left _ _

/-- Reading two bytes leaves fewer. -/
lemma shortensUpTo_u2 (n : Nat) : ShortensUpTo n u2 := by
  intro bs x rest _ hx
  obtain rfl := u2_eq_ok_iff.1 hx
  rw [List.length_append]
  exact Nat.le_add_left _ _

/-- What is made of the value read does not change what is left. -/
lemma ShortensUpTo.map {n : Nat} {r : Reader α} (h : ShortensUpTo n r) (f : α → β) :
    ShortensUpTo n (f <$> r) := by
  intro bs y rest hbs hy
  obtain ⟨x, hx, -⟩ := map_eq_ok_iff.1 hy
  exact h bs x rest hbs hx

/-- A step that reads nothing leaves what it was given. -/
lemma shortensUpTo_lift (n : Nat) (e : Except Error α) : ShortensUpTo n (liftM e) := by
  intro bs x rest _ hx
  obtain ⟨-, rfl⟩ := lift_eq_ok_iff.1 hx
  exact le_rfl

namespace AgreeUpTo

variable {n : Nat} {r s : Reader α}

/-- A reader does the same as itself. -/
lemma refl (r : Reader α) : AgreeUpTo n r r :=
  fun _ _ => rfl

/-- Readers that do the same go on with the same bytes, of which there are no more. -/
lemma bind {f g : α → Reader β} (h : AgreeUpTo n r s) (hr : ShortensUpTo n r)
    (hf : ∀ x, AgreeUpTo n (f x) (g x)) : AgreeUpTo n (r >>= f) (s >>= g) := by
  intro bs hbs
  change (r bs).bind (fun p => f p.1 p.2) = (s bs).bind fun p => g p.1 p.2
  rw [← h bs hbs]
  cases hx : r bs with
  | error e => rfl
  | ok p =>
    obtain ⟨x, rest⟩ := p
    exact hf x rest ((hr bs x rest hbs hx).trans hbs)

/-- What is made of the value read does not tell two readers apart. -/
lemma map (f : α → β) (h : AgreeUpTo n r s) : AgreeUpTo n (f <$> r) (f <$> s) := by
  intro bs hbs
  change (r bs).bind (fun p => .ok (f p.1, p.2)) = (s bs).bind fun p => .ok (f p.1, p.2)
  rw [h bs hbs]

/-- Of two readers in a row, the second one can be exchanged. -/
lemma seq {f : Reader (α → β)} (hf : ShortensUpTo n f) (h : AgreeUpTo n r s) :
    AgreeUpTo n (f <*> r) (f <*> s) := by
  rw [seq_eq_bind_map, seq_eq_bind_map]
  exact (refl f).bind hf fun g => h.map g

/-- Readers that do the same do so any number of times. -/
lemma times (h : AgreeUpTo n r s) (hr : ShortensUpTo n r) (k : Nat) :
    AgreeUpTo n (times r k) (times s k) := by
  induction k with
  | zero => exact refl _
  | succ k ih => exact h.bind hr fun x => ih.map (x :: ·)

/-- Readers that do the same do so for a count that is read first. -/
lemma counted (h : AgreeUpTo n r s) (hr : ShortensUpTo n r) :
    AgreeUpTo n (counted r) (counted s) :=
  (refl u2).bind (shortensUpTo_u2 n) fun k => h.times hr k.toNat

end AgreeUpTo

end Reader

namespace ElementValue

/-! ### Values -/

/-- Reads a value; the values inside it are read by `value`. -/
def readLevel (value : Reader ElementValue) : Reader ElementValue := do
  let tag ← u1
  if constantTags.any fun c => c.toUInt8 == tag then constant tag <$> u2
  else if tag = 'e'.toUInt8 then enumConstant <$> u2 <*> u2
  else if tag = '@'.toUInt8 then nested <$> u2 <*> counted (readNamed value)
  else if tag = '['.toUInt8 then array <$> counted value
  else fail (.unknownElementTag tag)

/-- Reads a value, however deep it nests. -/
def read : Reader ElementValue := fun bs =>
  readWith bs.length bs

/-- With one more level allowed, reading is one level put on top. -/
lemma readWith_succ (fuel : Nat) : readWith (fuel + 1) = readLevel (readWith fuel) :=
  rfl

/-- Reading with a bound leaves no more bytes than there were. -/
lemma shortensUpTo_readWith (fuel : Nat) : ShortensUpTo fuel (readWith fuel) :=
  (readsUpTo_readWith fuel).shortensUpTo

/-- Under a name, the reader of the value can be exchanged. -/
lemma agreeUpTo_readNamed {n : Nat} {r s : Reader ElementValue} (h : AgreeUpTo n r s) :
    AgreeUpTo n (readNamed r) (readNamed s) :=
  (AgreeUpTo.refl u2).bind (shortensUpTo_u2 n) fun name => h.map (name, ·)

/-- A named value leaves no more bytes than its value does. -/
lemma shortensUpTo_readNamed {n : Nat} {r : Reader ElementValue} (h : ShortensUpTo n r) :
    ShortensUpTo n (readNamed r) := by
  intro bs p rest hbs hp
  obtain ⟨name, mid, hname, hvalue⟩ := bind_eq_ok_iff.1 hp
  have hmid := shortensUpTo_u2 n bs name mid hbs hname
  have hrest := h.map (name, ·) mid p rest (hmid.trans hbs) hvalue
  exact hrest.trans hmid

/-- A level calls the reader of the values inside on fewer bytes, and so on as many levels as there
are bytes. -/
lemma agreeUpTo_readLevel {n : Nat} {r s : Reader ElementValue} (h : AgreeUpTo n r s)
    (hr : ShortensUpTo n r) : AgreeUpTo (n + 1) (readLevel r) (readLevel s) := by
  intro bs hbs
  cases bs with
  | nil => rfl
  | cons tag bs =>
    have hrest : bs.length ≤ n := Nat.le_of_succ_le_succ hbs
    have hnested : AgreeUpTo n (nested <$> u2 <*> counted (readNamed r))
        (nested <$> u2 <*> counted (readNamed s)) :=
      .seq ((shortensUpTo_u2 n).map nested)
        ((agreeUpTo_readNamed h).counted (shortensUpTo_readNamed hr))
    have harray : AgreeUpTo n (array <$> counted r) (array <$> counted s) :=
      (h.counted hr).map array
    have htag (value : Reader ElementValue) : readLevel value (tag :: bs) =
        (if constantTags.any fun c => c.toUInt8 == tag then constant tag <$> u2
        else if tag = 'e'.toUInt8 then enumConstant <$> u2 <*> u2
        else if tag = '@'.toUInt8 then nested <$> u2 <*> counted (readNamed value)
        else if tag = '['.toUInt8 then array <$> counted value
        else fail (.unknownElementTag tag) : Reader ElementValue) bs := rfl
    rw [htag, htag]
    split
    · rfl
    split
    · rfl
    split
    · exact hnested bs hrest
    split
    · exact harray bs hrest
    · rfl

/-- On at most `n` bytes no more than `n + 1` levels are entered: it does not matter what is called
below them. -/
lemma agreeUpTo_iterate_readLevel (deeper : Reader ElementValue) (n : Nat) :
    AgreeUpTo n (readWith n) (readLevel^[n + 1] deeper) := by
  induction n with
  | zero =>
    intro bs hbs
    obtain rfl := List.length_eq_zero_iff.1 (Nat.le_zero.1 hbs)
    rfl
  | succ n ih =>
    rw [Function.iterate_succ_apply', readWith_succ]
    exact agreeUpTo_readLevel ih (shortensUpTo_readWith n)

/-- Levels put on top of one another read values, once there are more levels than bytes. -/
lemma iterate_readLevel_eq (deeper : Reader ElementValue) {n : Nat} {bs : Bytes}
    (h : bs.length < n) : readLevel^[n] deeper bs = read bs := by
  obtain ⟨k, rfl⟩ := Nat.exists_eq_add_of_lt h
  rw [Nat.add_right_comm, Function.iterate_add_apply]
  exact (agreeUpTo_iterate_readLevel _ bs.length bs le_rfl).symm

/-- On few enough bytes, the bound does not matter. -/
lemma agreeUpTo_read (n : Nat) : AgreeUpTo n (readWith n) read := by
  intro bs hbs
  rw [agreeUpTo_iterate_readLevel read n bs hbs, iterate_readLevel_eq read (Nat.lt_succ_of_le hbs)]

/-- Reading without a bound is the one reader that does itself what a level does. -/
lemma readLevel_eq_iff {value : Reader ElementValue} : readLevel value = value ↔ value = read := by
  constructor
  · intro h
    funext bs
    rw [← iterate_readLevel_eq value (Nat.lt_succ_self bs.length), Function.iterate_fixed h]
  · rintro rfl
    funext bs
    have hlevel := agreeUpTo_readLevel (agreeUpTo_read bs.length) (shortensUpTo_readWith bs.length)
    rw [← hlevel bs (Nat.le_succ _), ← readWith_succ]
    exact agreeUpTo_read _ bs (Nat.le_succ _)

/-- With more levels than bytes, what is called below the levels does not matter. -/
lemma agreeUpTo_iterate_of_lt (deeper : Reader ElementValue) {m n : Nat} (h : m < n) :
    AgreeUpTo m (readWith m) (readLevel^[n] deeper) := by
  intro bs hbs
  rw [agreeUpTo_read m bs hbs, iterate_readLevel_eq deeper (hbs.trans_lt h)]

/-- A value is read from the encodings of fitting values and from nothing else. -/
lemma read_eq_ok_iff {v : ElementValue} {bs rest : Bytes} :
    read bs = .ok (v, rest) ↔ ∃ x : ElementValue, x.Fits ∧ id x = v ∧ bs = x.encode ++ rest :=
  (readsUpTo_readWith bs.length).eq_ok_iff le_rfl

end ElementValue

namespace AnnotationList

open ElementValue

/-! ### Lists of annotations -/

/-- Reads the names and values of an annotation. -/
def readElements : Reader AnnotationBody := fun bs =>
  readBody bs.length bs

/-- Reads an annotation, whose values are read by `value`; gives the name of its type. -/
def readTypeBy (pool : ConstantPool) (value : Reader ElementValue) : Reader String := do
  let typeName ← pool.text (← u2)
  let _ ← counted (readNamed value)
  return typeName

section

variable {n : Nat} {value : Reader ElementValue}

/-- The elements of an annotation are the same with any reader of values that agrees. -/
lemma agreeUpTo_readBody (h : AgreeUpTo n (readWith n) value) :
    AgreeUpTo n (readBody n) (counted (readNamed value)) :=
  (agreeUpTo_readNamed h).counted (shortensUpTo_readNamed (shortensUpTo_readWith n))

/-- The type of an annotation is the same, too: it is read before the elements. -/
lemma agreeUpTo_readType (pool : ConstantPool) (h : AgreeUpTo n (readWith n) value) :
    AgreeUpTo n (readType pool n) (readTypeBy pool value) := by
  refine (AgreeUpTo.refl u2).bind (shortensUpTo_u2 n) fun index => ?_
  refine (AgreeUpTo.refl _).bind (shortensUpTo_lift n _) fun typeName => ?_
  exact (agreeUpTo_readBody h).bind (readsUpTo_readBody n).shortensUpTo fun _ => .refl _

/-- Annotations are read as they are with another reader of values that does the same on the bytes
that are left. -/
lemma readElements_eq {bs : Bytes} (h : AgreeUpTo bs.length (readWith bs.length) value) :
    counted (readNamed value) bs = readElements bs :=
  (agreeUpTo_readBody h bs le_rfl).symm

/-- The types of a list of annotations are the same with any reader of values that agrees. -/
lemma readTypes_eq {pool : ConstantPool} {bs : Bytes}
    (h : AgreeUpTo bs.length (readWith bs.length) value) :
    counted (readTypeBy pool value) bs = readTypes pool bs :=
  ((agreeUpTo_readType pool h).counted (readsUpTo_readType pool _).shortensUpTo bs le_rfl).symm

end

/-- The elements of an annotation are read from their encodings and from nothing else. -/
lemma readElements_eq_ok_iff {elements : AnnotationBody} {bs rest : Bytes} :
    readElements bs = .ok (elements, rest) ↔ ∃ xs : AnnotationBody,
      (xs.length < 2 ^ 16 ∧ ∀ p ∈ xs, p.2.Fits) ∧ id xs = elements ∧
        bs = encodeCounted encodeNamed xs ++ rest :=
  (readsUpTo_readBody bs.length).eq_ok_iff le_rfl

end AnnotationList

/-! ### Positions -/

/-- Whether a reader takes off exactly the encodings of valid values, at each position of each byte
string.  It succeeds exactly if such an encoding starts there; then it gives what `view` keeps of
the value, and goes on to the first byte behind the encoding, which is at least `least` bytes
further and not beyond the end. -/
structure TakesExactly {α β : Type} (r : Reader β) (valid : α → Prop) (encode : α → Bytes)
    (view : α → β) (least : Nat) : Prop where
  succeeds_iff : ∀ (data : Bytes) (pos : Nat),
    (∃ y rest, r (data.drop pos) = .ok (y, rest)) ↔ ∃ x, valid x ∧ encode x <+: data.drop pos
  goesOn : ∀ (data : Bytes) (pos : Nat) (y : β) (rest : Bytes), r (data.drop pos) = .ok (y, rest) →
    ∃ x next, valid x ∧ view x = y ∧ (data.take next).drop pos = encode x ∧
      rest = data.drop next ∧ pos + least ≤ next ∧ next ≤ data.length

/-- A reader takes exactly the encodings if it succeeds on these with any rest, and on nothing
else. -/
lemma TakesExactly.of_eq_ok_iff {α β : Type} {r : Reader β} {valid : α → Prop}
    {encode : α → Bytes} {view : α → β} {least : Nat}
    (h : ∀ {bs rest : Bytes} {y : β},
      r bs = .ok (y, rest) ↔ ∃ x, valid x ∧ view x = y ∧ bs = encode x ++ rest)
    (hle : ∀ x, least ≤ (encode x).length) (hpos : 0 < least) :
    TakesExactly r valid encode view least where
  succeeds_iff data pos := by
    simp only [h]
    constructor
    · rintro ⟨_, rest, x, hx, -, hbs⟩
      exact ⟨x, hx, rest, hbs.symm⟩
    · rintro ⟨x, hx, rest, hbs⟩
      exact ⟨view x, rest, x, hx, rfl, hbs.symm⟩
  goesOn data pos y rest hy := by
    obtain ⟨x, hx, rfl, hbs⟩ := h.1 hy
    have hlength := congrArg List.length hbs
    rw [List.length_drop, List.length_append] at hlength
    have hx' := hle x
    refine ⟨x, pos + (encode x).length, hx, rfl, ?_, ?_, by omega, by omega⟩
    · rw [List.drop_take, Nat.add_sub_cancel_left, hbs, List.take_left]
    · rw [← List.drop_drop, hbs, List.drop_left]

/-- A counted list has at least the two bytes of its count. -/
lemma two_le_length_encodeCounted {α : Type} (encode : α → Bytes) (xs : List α) :
    2 ≤ (encodeCounted encode xs).length := by
  rw [encodeCounted, List.length_append, length_bigEndianOf]
  exact Nat.le_add_right _ _

/-- A value has at least the byte of its tag and the two bytes of an index or a count. -/
lemma ElementValue.three_le_length_encode (v : ElementValue) : 3 ≤ v.encode.length := by
  cases v <;> simp only [encode, List.length_cons, List.length_append, length_bigEndianOf] <;> omega

open ElementValue AnnotationList in
/-- Lists of annotations, the elements of an annotation and values are read exactly: what is taken
off is one encoding, nested to any depth, and of a list the names of the types of its annotations
are kept, and nothing of the annotations inside them.

Reading comes to an end.  The bound on the depth is not seen: reading is the one reader that uses
itself for the values inside, and no level below the first ones, as many as there are bytes and one
more, is entered, since it does not matter what is done there. -/
theorem takesExactly_and_iterate_eq (pool : ConstantPool) :
    TakesExactly (readTypes pool)
        (fun list => list.length < 2 ^ 16 ∧ ∀ a ∈ list, a.WellFormed pool)
        (encodeCounted AnnotationEntry.encode) (List.map fun a => pool.textAt a.typeIndex) 2 ∧
      TakesExactly readElements (fun elements => elements.length < 2 ^ 16 ∧ ∀ p ∈ elements, p.2.Fits)
        (encodeCounted encodeNamed) id 2 ∧
      TakesExactly ElementValue.read ElementValue.Fits ElementValue.encode id 3 ∧
      (∀ value, readLevel value = value ↔ value = ElementValue.read) ∧
      ∀ (deeper : Reader ElementValue) (bs : Bytes) (n : Nat), bs.length < n →
        readLevel^[n] deeper bs = ElementValue.read bs ∧
        counted (readNamed (readLevel^[n] deeper)) bs = readElements bs ∧
        counted (readTypeBy pool (readLevel^[n] deeper)) bs = readTypes pool bs := by
  refine ⟨.of_eq_ok_iff readTypes_eq_ok_iff (two_le_length_encodeCounted _) Nat.two_pos,
    .of_eq_ok_iff readElements_eq_ok_iff (two_le_length_encodeCounted _) Nat.two_pos,
    .of_eq_ok_iff read_eq_ok_iff three_le_length_encode (Nat.succ_pos 2),
    fun value => readLevel_eq_iff, fun deeper bs n hn => ?_⟩
  have hvalues := agreeUpTo_iterate_of_lt deeper hn
  exact ⟨iterate_readLevel_eq deeper hn, readElements_eq hvalues, readTypes_eq hvalues⟩

/-- A pool with the text `LA;` only. -/
def typePool : ConstantPool :=
  .ofConstants [.utf8 [0x4C, 0x41, 0x3B]]

/-- A byte, a list of one annotation of the type `LA;`, and two more bytes.  The annotation holds an
annotation without a name in the pool, and this one an array of a number and a constant of an
enumeration. -/
def nestedAnnotations : Bytes :=
  [9, 0, 1, 0, 1, 0, 1, 0, 2, 0x40, 0, 3, 0, 1, 0, 4, 0x5B, 0, 2, 0x49, 0, 5, 0x65, 0, 6, 0, 7,
    1, 2]

open ElementValue AnnotationList in
/-- An annotation with another one in an array, read from the second byte on and with thirty
levels. -/
theorem takesExactly_and_iterate_eq_nestedAnnotations :
    readTypes typePool (nestedAnnotations.drop 1) = .ok (["LA;"], [1, 2]) ∧
      (∃ (list : List AnnotationEntry) (next : Nat),
        (list.length < 2 ^ 16 ∧ ∀ a ∈ list, a.WellFormed typePool) ∧
        list.map (fun a => typePool.textAt a.typeIndex) = ["LA;"] ∧
        (nestedAnnotations.take next).drop 1 = encodeCounted AnnotationEntry.encode list ∧
        [1, 2] = nestedAnnotations.drop next ∧ 1 + 2 ≤ next ∧ next ≤ nestedAnnotations.length) ∧
      (nestedAnnotations.drop 1).length < 30 ∧
      counted (readTypeBy typePool (readLevel^[30] (fail .invalidMagic)))
        (nestedAnnotations.drop 1) = readTypes typePool (nestedAnnotations.drop 1) := by
  have hread : readTypes typePool (nestedAnnotations.drop 1) = .ok (["LA;"], [1, 2]) := by
    decide +kernel
  have hlength : (nestedAnnotations.drop 1).length < 30 := by decide
  obtain ⟨htypes, -, -, -, hbounded⟩ := takesExactly_and_iterate_eq typePool
  exact ⟨hread, htypes.goesOn _ _ _ _ hread, hlength, (hbounded _ _ _ hlength).2.2⟩

end ClassFile

end ClasspathIndex
