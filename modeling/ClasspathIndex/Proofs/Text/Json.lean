import ClasspathIndex.Proofs.Text.Utf16
import ClasspathIndex.Text.Json
import ClasspathIndex.Toml.Quoted

/-!
# What is written as JSON is read as the same value

`Json.Reads` is the grammar of JSON, for the values that are written: it tells which value a text
starts with and what is left of the text after it.  A text starts with one value only
(`Reads.unique`), and what `Json.pretty` writes is a text of the value given and of no other
(`isTextOf_pretty_iff`), blanks around it allowed.
-/

namespace ClasspathIndex.Json

open Text

/-! ### The grammar -/

/-- Whether a character may stand between the parts of a value. -/
def isBlank (c : Char) : Bool :=
  c == ' ' || c == '\t' || c == '\n' || c == '\r'

/-- A text without the blanks that it starts with. -/
def skipBlanks (text : List Char) : List Char :=
  text.dropWhile isBlank

/-- The letters that may follow a backslash, each with the character that it stands for. -/
def escapes : List (Char × Char) :=
  [('"', '"'), ('\\', '\\'), ('/', '/'), ('b', '\x08'), ('f', '\x0c'), ('n', '\n'), ('r', '\r'),
    ('t', '\t')]

/-- The unit that is written by hexadecimal digits. -/
def unit? (digits : List Char) : Option UInt16 :=
  (digits.mapM Toml.hexDigit?).map fun ds => (ds.foldl (fun n d => 16 * n + d) 0).toUInt16

/-- A quoted text goes on with a character, and what is left after it.  A character beyond U+FFFF
may be written as the two halves of its surrogate pair. -/
inductive Spells : List Char → Char → List Char → Prop where
  | plain {c : Char} {rest : List Char} (hquote : c ≠ '"') (hbackslash : c ≠ '\\') (hc : ' ' ≤ c) :
    Spells (c :: rest) c rest
  | escaped {letter c : Char} {rest : List Char} (h : escapes.lookup letter = some c) :
    Spells ('\\' :: letter :: rest) c rest
  | unit {a b d e : Char} {u : UInt16} {c : Char} {rest : List Char}
      (hu : unit? [a, b, d, e] = some u) (hhigh : ¬ Utf16.IsHigh u) (hlow : ¬ Utf16.IsLow u)
      (hc : c.toNat = u.toNat) :
    Spells ('\\' :: 'u' :: a :: b :: d :: e :: rest) c rest
  | pair {a b d e a' b' d' e' : Char} {high low : UInt16} {c : Char} {rest : List Char}
      (hu : unit? [a, b, d, e] = some high) (hv : unit? [a', b', d', e'] = some low)
      (hhigh : Utf16.IsHigh high) (hlow : Utf16.IsLow low)
      (hc : c.toNat = 0x10000 + (high.toNat - 0xD800) * 0x400 + (low.toNat - 0xDC00)) :
    Spells ('\\' :: 'u' :: a :: b :: d :: e :: '\\' :: 'u' :: a' :: b' :: d' :: e' :: rest) c rest

/-- What stands after an opening quote: the characters up to the closing one, and what is left
after it. -/
inductive Quotes : List Char → List Char → List Char → Prop where
  | nil {rest : List Char} : Quotes ('"' :: rest) [] rest
  | cons {text text' rest : List Char} {c : Char} {cs : List Char} (hc : Spells text c text')
      (hcs : Quotes text' cs rest) : Quotes text (c :: cs) rest

/-- What a text may start with: a value, a field, or what stands after an opening bracket if that
is at least one item or field. -/
inductive Part where
  | value (v : Json)
  | items (vs : List Json)
  | field (f : String × Json)
  | fields (fs : List (String × Json))

/-- The part that a text starts with, and what is left after it. -/
inductive Reads : Part → List Char → List Char → Prop where
  | text {t t' rest : List Char} {s : String} (hopen : skipBlanks t = '"' :: t')
      (hs : Quotes t' s.toList rest) : Reads (.value (.text s)) t rest
  | isTrue {t rest : List Char} (h : skipBlanks t = 't' :: 'r' :: 'u' :: 'e' :: rest) :
    Reads (.value (.boolean true)) t rest
  | isFalse {t rest : List Char} (h : skipBlanks t = 'f' :: 'a' :: 'l' :: 's' :: 'e' :: rest) :
    Reads (.value (.boolean false)) t rest
  | emptyArray {t t' rest : List Char} (hopen : skipBlanks t = '[' :: t')
      (hclose : skipBlanks t' = ']' :: rest) : Reads (.value (.array [])) t rest
  | array {t t' rest : List Char} {vs : List Json} (hopen : skipBlanks t = '[' :: t')
      (hvs : Reads (.items vs) t' rest) : Reads (.value (.array vs)) t rest
  | emptyObject {t t' rest : List Char} (hopen : skipBlanks t = '\x7b' :: t')
      (hclose : skipBlanks t' = '\x7d' :: rest) : Reads (.value (.object [])) t rest
  | object {t t' rest : List Char} {fs : List (String × Json)}
      (hopen : skipBlanks t = '\x7b' :: t') (hfs : Reads (.fields fs) t' rest) :
    Reads (.value (.object fs)) t rest
  | lastItem {t t' rest : List Char} {v : Json} (hv : Reads (.value v) t t')
      (hclose : skipBlanks t' = ']' :: rest) : Reads (.items [v]) t rest
  | items {t t₁ t₂ rest : List Char} {v : Json} {vs : List Json} (hv : Reads (.value v) t t₁)
      (hcomma : skipBlanks t₁ = ',' :: t₂) (hvs : Reads (.items vs) t₂ rest) :
    Reads (.items (v :: vs)) t rest
  | field {t t₁ t₂ t₃ rest : List Char} {name : String} {v : Json}
      (hopen : skipBlanks t = '"' :: t₁) (hname : Quotes t₁ name.toList t₂)
      (hcolon : skipBlanks t₂ = ':' :: t₃) (hv : Reads (.value v) t₃ rest) :
    Reads (.field (name, v)) t rest
  | lastField {t t' rest : List Char} {f : String × Json} (hf : Reads (.field f) t t')
      (hclose : skipBlanks t' = '\x7d' :: rest) : Reads (.fields [f]) t rest
  | fields {t t₁ t₂ rest : List Char} {f : String × Json} {fs : List (String × Json)}
      (hf : Reads (.field f) t t₁) (hcomma : skipBlanks t₁ = ',' :: t₂)
      (hfs : Reads (.fields fs) t₂ rest) : Reads (.fields (f :: fs)) t rest

/-- Whether a whole text is the value, with blanks around it. -/
def IsTextOf (text : String) (v : Json) : Prop :=
  ∃ rest, Reads (.value v) text.toList rest ∧ skipBlanks rest = []

/-! ### A text starts with one value -/

variable {t r r' : List Char}

/-- What spells a character does not start with a quotation mark. -/
lemma Spells.ne_quote {c : Char} (h : Spells t c r) : t.head? ≠ some '"' := by
  cases h with
  | plain hquote _ _ => simpa using hquote
  | _ => simp

/-- A text spells one character at its start, if any. -/
lemma Spells.unique {c c' : Char} (h : Spells t c r) (h' : Spells t c' r') : c' = c ∧ r' = r := by
  cases h with
  | plain _ hbackslash _ =>
    cases h' with
    | plain _ _ _ => exact ⟨rfl, rfl⟩
    | _ => exact absurd rfl hbackslash
  | escaped h =>
    cases h' with
    | plain _ hbackslash _ => exact absurd rfl hbackslash
    | escaped h' => exact ⟨Option.some.inj (h'.symm.trans h), rfl⟩
    | _ => cases h
  | unit hu hhigh hlow hc =>
    cases h' with
    | plain _ hbackslash _ => exact absurd rfl hbackslash
    | escaped h' => cases h'
    | unit hu' _ _ hc' =>
      obtain rfl := Option.some.inj (hu.symm.trans hu')
      exact ⟨Char.toNat_inj.1 (hc'.trans hc.symm), rfl⟩
    | pair hu' _ hhigh' _ _ =>
      obtain rfl := Option.some.inj (hu.symm.trans hu')
      exact absurd hhigh' hhigh
  | pair hu hv hhigh hlow hc =>
    cases h' with
    | plain _ hbackslash _ => exact absurd rfl hbackslash
    | escaped h' => cases h'
    | unit hu' hhigh' _ _ =>
      obtain rfl := Option.some.inj (hu.symm.trans hu')
      exact absurd hhigh hhigh'
    | pair hu' hv' _ _ hc' =>
      obtain rfl := Option.some.inj (hu.symm.trans hu')
      obtain rfl := Option.some.inj (hv.symm.trans hv')
      exact ⟨Char.toNat_inj.1 (hc'.trans hc.symm), rfl⟩

/-- A quoted text ends at one place. -/
lemma Quotes.unique {cs cs' : List Char} (h : Quotes t cs r) (h' : Quotes t cs' r') :
    cs' = cs ∧ r' = r := by
  induction h generalizing cs' with
  | nil =>
    cases h' with
    | nil => exact ⟨rfl, rfl⟩
    | cons hc _ => exact absurd rfl hc.ne_quote
  | cons hc _ ih =>
    cases h' with
    | nil => exact absurd rfl hc.ne_quote
    | cons hc' hcs' =>
      obtain ⟨rfl, rfl⟩ := hc.unique hc'
      obtain ⟨rfl, rfl⟩ := ih hcs'
      exact ⟨rfl, rfl⟩

/-- Whether two parts are both values, both items, both one field or both fields. -/
def Part.SameKind : Part → Part → Prop
  | .value _, .value _ => True
  | .items _, .items _ => True
  | .field _, .field _ => True
  | .fields _, .fields _ => True
  | _, _ => False

/-- Neither a value nor a field starts with a closing bracket. -/
lemma Reads.ne_closing {p : Part} (h : Reads p t r) {c : Char} (hc : c = ']' ∨ c = '\x7d')
    (rest : List Char) : skipBlanks t ≠ c :: rest := by
  induction h with
  | lastItem _ _ ih => exact ih
  | items _ _ _ ih => exact ih
  | lastField _ _ ih => exact ih
  | fields _ _ _ ih => exact ih
  | _ => grind

/-- What is left after the next character that is no blank. -/
lemma left_eq {c c' : Char} (h : skipBlanks t = c :: r) (h' : skipBlanks t = c' :: r') : r' = r :=
  (List.cons.inj (h'.symm.trans h)).2

/-- A text starts with one value at most, and with one list of items, one field and one list of
fields. -/
lemma Reads.unique {p q : Part} (h : Reads p t r) (h' : Reads q t r') (hkind : p.SameKind q) :
    q = p ∧ r' = r := by
  -- By induction on one reading: the first characters that are no blanks leave the other one a
  -- single constructor, except that items and fields may end where the other one goes on.
  induction h generalizing q r' with
  | text hopen hs =>
    cases h' with
    | text hopen' hs' =>
      obtain rfl := left_eq hopen hopen'
      obtain ⟨heq, rfl⟩ := hs.unique hs'
      exact ⟨by rw [String.toList_inj.1 heq], rfl⟩
    | _ => simp_all [Part.SameKind]
  | isTrue h => cases h' <;> simp_all [Part.SameKind]
  | isFalse h => cases h' <;> simp_all [Part.SameKind]
  | emptyArray hopen hclose =>
    cases h' with
    | array hopen' hvs =>
      obtain rfl := left_eq hopen hopen'
      exact absurd hclose (hvs.ne_closing (.inl rfl) _)
    | _ => simp_all [Part.SameKind]
  | array hopen hvs ih =>
    cases h' with
    | emptyArray hopen' hclose =>
      obtain rfl := left_eq hopen hopen'
      exact absurd hclose (hvs.ne_closing (.inl rfl) _)
    | array hopen' hvs' =>
      obtain rfl := left_eq hopen hopen'
      obtain ⟨⟨⟩, rfl⟩ := ih hvs' trivial
      exact ⟨rfl, rfl⟩
    | _ => simp_all [Part.SameKind]
  | emptyObject hopen hclose =>
    cases h' with
    | object hopen' hfs =>
      obtain rfl := left_eq hopen hopen'
      exact absurd hclose (hfs.ne_closing (.inr rfl) _)
    | _ => simp_all [Part.SameKind]
  | object hopen hfs ih =>
    cases h' with
    | emptyObject hopen' hclose =>
      obtain rfl := left_eq hopen hopen'
      exact absurd hclose (hfs.ne_closing (.inr rfl) _)
    | object hopen' hfs' =>
      obtain rfl := left_eq hopen hopen'
      obtain ⟨⟨⟩, rfl⟩ := ih hfs' trivial
      exact ⟨rfl, rfl⟩
    | _ => simp_all [Part.SameKind]
  | lastItem hv hclose ih =>
    cases h' with
    | lastItem hv' hclose' =>
      obtain ⟨⟨⟩, rfl⟩ := ih hv' trivial
      simp_all
    | items hv' hcomma _ =>
      obtain ⟨-, rfl⟩ := ih hv' trivial
      simp_all
    | _ => exact hkind.elim
  | items hv hcomma _ ihv ihvs =>
    cases h' with
    | lastItem hv' hclose =>
      obtain ⟨-, rfl⟩ := ihv hv' trivial
      simp_all
    | items hv' hcomma' hvs' =>
      obtain ⟨⟨⟩, rfl⟩ := ihv hv' trivial
      obtain rfl := left_eq hcomma hcomma'
      obtain ⟨⟨⟩, rfl⟩ := ihvs hvs' trivial
      exact ⟨rfl, rfl⟩
    | _ => exact hkind.elim
  | field hopen hname hcolon _ ih =>
    cases h' with
    | field hopen' hname' hcolon' hv' =>
      obtain rfl := left_eq hopen hopen'
      obtain ⟨heq, rfl⟩ := hname.unique hname'
      obtain rfl := String.toList_inj.1 heq
      obtain rfl := left_eq hcolon hcolon'
      obtain ⟨⟨⟩, rfl⟩ := ih hv' trivial
      exact ⟨rfl, rfl⟩
    | _ => exact hkind.elim
  | lastField hf hclose ih =>
    cases h' with
    | lastField hf' hclose' =>
      obtain ⟨⟨⟩, rfl⟩ := ih hf' trivial
      simp_all
    | fields hf' hcomma _ =>
      obtain ⟨-, rfl⟩ := ih hf' trivial
      simp_all
    | _ => exact hkind.elim
  | fields hf hcomma _ ihf ihfs =>
    cases h' with
    | lastField hf' hclose =>
      obtain ⟨-, rfl⟩ := ihf hf' trivial
      simp_all
    | fields hf' hcomma' hfs' =>
      obtain ⟨⟨⟩, rfl⟩ := ihf hf' trivial
      obtain rfl := left_eq hcomma hcomma'
      obtain ⟨⟨⟩, rfl⟩ := ihfs hfs' trivial
      exact ⟨rfl, rfl⟩
    | _ => exact hkind.elim

/-- A text stands for one value, if any. -/
lemma IsTextOf.unique {text : String} {v w : Json} (h : IsTextOf text v) (h' : IsTextOf text w) :
    w = v := by
  obtain ⟨_, hv, -⟩ := h
  obtain ⟨_, hw, -⟩ := h'
  obtain ⟨⟨⟩, -⟩ := hv.unique hw trivial
  rfl

/-! ### What is written -/

/-- Induction on the values that a value holds. -/
lemma induction {motive : Json → Prop} (text : ∀ s, motive (text s))
    (boolean : ∀ b, motive (boolean b))
    (array : ∀ items, (∀ v ∈ items, motive v) → motive (array items))
    (object : ∀ fields, (∀ f ∈ fields, motive f.2) → motive (object fields)) : ∀ v, motive v
  | .text s => text s
  | .boolean b => boolean b
  | .array items => array items fun v hv => by
    have hlt := List.sizeOf_lt_of_mem hv
    exact induction text boolean array object v
  | .object fields => object fields fun f hf => by
    have hlt : sizeOf f.2 < 1 + sizeOf fields := by
      have hmem := List.sizeOf_lt_of_mem hf
      have hsnd : sizeOf f = 1 + sizeOf f.1 + sizeOf f.2 := rfl
      omega
    exact induction text boolean array object f.2
termination_by v => sizeOf v

/-- The items of an array are written one by one. -/
lemma prettyItems_eq_map (depth : Nat) (items : List Json) :
    prettyItems depth items = items.map (prettyAt depth) := by
  induction items with
  | nil => rw [prettyItems, List.map_nil]
  | cons v items ih => rw [prettyItems, ih, List.map_cons]

/-- A field as it is written. -/
def fieldText (depth : Nat) (f : String × Json) : String :=
  quote f.1 ++ ": " ++ prettyAt depth f.2

/-- The fields of an object are written one by one. -/
lemma prettyFields_eq_map (depth : Nat) (fields : List (String × Json)) :
    prettyFields depth fields = fields.map (fieldText depth) := by
  induction fields with
  | nil => rw [prettyFields, List.map_nil]
  | cons f fields ih => rw [prettyFields, ih, List.map_cons, fieldText]

/-- A control character is got back from its digits. -/
lemma unit?_hexDigit : ∀ n < 32,
    unit? ['0', '0', hexDigit (n / 16), hexDigit (n % 16)] = some n.toUInt16 := by
  decide

/-- What is written for a character spells it, whatever follows. -/
lemma spells_escapeChar (c : Char) (rest : List Char) : Spells (escapeChar c ++ rest) c rest := by
  unfold escapeChar
  by_cases hcontrol : c < ' '
  · split_ifs
    any_goals subst c; exact .escaped rfl
    -- A control character without a letter of its own is written by its number.
    have hlt : c.toNat < 32 := hcontrol
    have hnat : c.toNat.toUInt16.toNat = c.toNat := by
      rw [UInt16.toNat_ofNat']
      omega
    refine .unit (unit?_hexDigit _ hlt) ?_ ?_ hnat.symm
    · rw [Utf16.IsHigh, hnat]
      omega
    · rw [Utf16.IsLow, hnat]
      omega
  · split_ifs
    any_goals subst c; exact .escaped rfl
    exact .plain ‹_› ‹_› (Char.not_lt.1 hcontrol)

/-- What is written for characters quotes them. -/
lemma quotes_flatMap_escapeChar (cs rest : List Char) :
    Quotes (cs.flatMap escapeChar ++ '"' :: rest) cs rest := by
  induction cs with
  | nil => exact .nil
  | cons c cs ih =>
    rw [List.flatMap_cons, List.append_assoc]
    exact .cons (spells_escapeChar c _) ih

/-- A quoted text is its escaped characters between quotation marks. -/
lemma toList_quote_append (s : String) (rest : List Char) :
    (quote s).toList ++ rest = '"' :: (s.toList.flatMap escapeChar ++ '"' :: rest) := by
  simp [quote]

/-- A quoted text is read as this text. -/
lemma reads_quote (s : String) (rest : List Char) :
    Reads (.value (.text s)) ((quote s).toList ++ rest) rest := by
  rw [toList_quote_append]
  exact .text rfl (quotes_flatMap_escapeChar _ _)

/-- The blanks of a new line are skipped. -/
lemma skipBlanks_newLine (depth : Nat) (t : List Char) :
    skipBlanks ((newLine depth).toList ++ t) = skipBlanks t := by
  have hblank : ∀ c ∈ (newLine depth).toList, isBlank c = true := by
    intro c hc
    simp only [newLine, String.toList_append, String.toList_ofList, List.mem_append,
      List.mem_replicate] at hc
    rcases hc with hc | ⟨-, rfl⟩
    · obtain rfl := List.mem_singleton.1 hc
      rfl
    · rfl
  exact List.dropWhile_append_of_pos hblank

/-- Blanks before a part are passed over. -/
lemma Reads.of_skipBlanks_eq {p : Part} {t' : List Char} (h : Reads p t r)
    (heq : skipBlanks t' = skipBlanks t) : Reads p t' r := by
  induction h with
  | text hopen hs => exact .text (heq.trans hopen) hs
  | isTrue h => exact .isTrue (heq.trans h)
  | isFalse h => exact .isFalse (heq.trans h)
  | emptyArray hopen hclose => exact .emptyArray (heq.trans hopen) hclose
  | array hopen hvs => exact .array (heq.trans hopen) hvs
  | emptyObject hopen hclose => exact .emptyObject (heq.trans hopen) hclose
  | object hopen hfs => exact .object (heq.trans hopen) hfs
  | lastItem _ hclose ih => exact .lastItem (ih heq) hclose
  | items _ hcomma hvs ih => exact .items (ih heq) hcomma hvs
  | field hopen hname hcolon hv => exact .field (heq.trans hopen) hname hcolon hv
  | lastField _ hclose ih => exact .lastField (ih heq) hclose
  | fields _ hcomma hfs ih => exact .fields (ih heq) hcomma hfs

/-- What is read without a new line before it is read with one. -/
lemma Reads.newLine {p : Part} (h : Reads p t r) (depth : Nat) :
    Reads p ((newLine depth).toList ++ t) r :=
  h.of_skipBlanks_eq (skipBlanks_newLine depth t)

/-- What stands in a block after its opening bracket. -/
def blockTail (closing : String) (depth : Nat) (parts : List String) : String :=
  String.intercalate "," (parts.map fun part => newLine (depth + 1) ++ part) ++ newLine depth ++
    closing

/-- A block of parts is its opening and what follows. -/
lemma block_eq {opening closing : String} {depth : Nat} {parts : List String} (h : parts ≠ []) :
    block opening closing depth parts = opening ++ blockTail closing depth parts := by
  rw [block, if_neg (by simpa using h), blockTail, String.append_assoc, String.append_assoc,
    String.append_assoc]

/-- What stands in a block, from its last part on: the last part with the closing bracket, and any
other part with a comma after it. -/
lemma blockTail_induction {α : Type} {motive : List α → List Char → Prop} {render : α → String}
    {closing : String} {depth : Nat} {rest : List Char} {as : List α} (hne : as ≠ [])
    (last : ∀ a ∈ as, motive [a] ((Json.newLine (depth + 1)).toList ++
      ((render a).toList ++ ((Json.newLine depth).toList ++ (closing.toList ++ rest)))))
    (cons : ∀ a ∈ as, ∀ bs t, motive bs t → motive (a :: bs)
      ((Json.newLine (depth + 1)).toList ++ ((render a).toList ++ ',' :: t))) :
    motive as ((blockTail closing depth (as.map render)).toList ++ rest) := by
  induction as with
  | nil => exact absurd rfl hne
  | cons a as ih =>
    cases as with
    | nil =>
      have htext := last a List.mem_cons_self
      simpa [blockTail] using htext
    | cons b bs =>
      have htail := ih (by simp) (fun c hc => last c (List.mem_cons_of_mem _ hc))
        (fun c hc => cons c (List.mem_cons_of_mem _ hc))
      have htext := cons a List.mem_cons_self _ _ htail
      simpa [blockTail, String.intercalate_cons_cons] using htext

/-- The items of an array are read, if each of them is. -/
lemma reads_items {depth : Nat} {vs : List Json} (hne : vs ≠ [])
    (h : ∀ v ∈ vs, ∀ rest, Reads (.value v) ((prettyAt (depth + 1) v).toList ++ rest) rest)
    (rest : List Char) :
    Reads (.items vs)
      ((blockTail "]" depth (prettyItems (depth + 1) vs)).toList ++ rest) rest := by
  rw [prettyItems_eq_map]
  refine blockTail_induction (motive := fun vs t => Reads (.items vs) t rest) hne
    (fun v hv => ?_) (fun v hv vs t hvs => ?_)
  · exact .lastItem ((h v hv _).newLine _) (by rw [skipBlanks_newLine]; rfl)
  · exact .items ((h v hv _).newLine _) rfl hvs

/-- A field is read, if its value is. -/
lemma reads_fieldText {depth : Nat} {f : String × Json}
    (h : ∀ rest, Reads (.value f.2) ((prettyAt depth f.2).toList ++ rest) rest)
    (rest : List Char) : Reads (.field f) ((fieldText depth f).toList ++ rest) rest := by
  simp only [fieldText, String.toList_append, List.append_assoc]
  rw [toList_quote_append]
  exact .field rfl (quotes_flatMap_escapeChar _ _) rfl ((h rest).of_skipBlanks_eq rfl)

/-- The fields of an object are read, if each of their values is. -/
lemma reads_fields {depth : Nat} {fs : List (String × Json)} (hne : fs ≠ [])
    (h : ∀ f ∈ fs, ∀ rest, Reads (.value f.2) ((prettyAt (depth + 1) f.2).toList ++ rest) rest)
    (rest : List Char) :
    Reads (.fields fs)
      ((blockTail "\x7d" depth (prettyFields (depth + 1) fs)).toList ++ rest) rest := by
  rw [prettyFields_eq_map]
  refine blockTail_induction (motive := fun fs t => Reads (.fields fs) t rest) hne
    (fun f hf => ?_) (fun f hf fs t hfs => ?_)
  · exact .lastField ((reads_fieldText (h f hf) _).newLine _) (by rw [skipBlanks_newLine]; rfl)
  · exact .fields ((reads_fieldText (h f hf) _).newLine _) rfl hfs

/-- What is written for a value is read as this value, at any depth and whatever comes after. -/
lemma reads_prettyAt (v : Json) (depth : Nat) (rest : List Char) :
    Reads (.value v) ((prettyAt depth v).toList ++ rest) rest := by
  induction v using induction generalizing depth rest with
  | text s =>
    rw [prettyAt]
    exact reads_quote s rest
  | boolean b =>
    rw [prettyAt]
    cases b with
    | true => exact .isTrue rfl
    | false => exact .isFalse rfl
  | array items ih =>
    rw [prettyAt]
    cases items with
    | nil =>
      have htext : (block "[" "]" depth (prettyItems (depth + 1) [])).toList = ['[', ']'] := by
        simp [block, prettyItems]
      rw [htext]
      exact .emptyArray rfl rfl
    | cons v items =>
      rw [block_eq (by simp [prettyItems]), String.toList_append, List.append_assoc]
      exact .array rfl (reads_items (by simp) (fun w hw => ih w hw _) rest)
  | object fields ih =>
    rw [prettyAt]
    cases fields with
    | nil =>
      have htext : (block "\x7b" "\x7d" depth (prettyFields (depth + 1) [])).toList =
          ['\x7b', '\x7d'] := by
        simp [block, prettyFields]
      rw [htext]
      exact .emptyObject rfl rfl
    | cons f fields =>
      rw [block_eq (by simp [prettyFields_eq_map]), String.toList_append, List.append_assoc]
      exact .object rfl (reads_fields (by simp) (fun g hg => ih g hg _) rest)

/-- What is written for a value, with the end of a line after it, is a text of this value and of no
other. -/
theorem isTextOf_pretty_iff {v w : Json} : IsTextOf (v.pretty ++ "\n") w ↔ w = v := by
  have hv : IsTextOf (v.pretty ++ "\n") v := by
    refine ⟨['\n'], ?_, rfl⟩
    rw [String.toList_append]
    exact reads_prettyAt v 0 _
  constructor
  · exact hv.unique
  · rintro rfl
    exact hv

end ClasspathIndex.Json
