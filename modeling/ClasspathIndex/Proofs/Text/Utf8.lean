import ClasspathIndex.Proofs.Text.Split
import ClasspathIndex.Text.Utf8

/-!
# The bytes of a text

The encoding of a text is the concatenation of the encodings of its characters.  An ASCII
character is one byte, and that byte occurs nowhere in the encoding of another character,
so that a text can be cut at ASCII characters before or after it is encoded.  Texts and their
encodings are in the same order (`Utf8.encode_lt_encode`), and what the bytes of one text leave of
those of another is a text again (`Utf8.exists_append_of_encode_append`).
-/

namespace ClasspathIndex.Text.Utf8

/-- A text is encoded character by character. -/
lemma encode_eq_flatMap (s : String) : encode s = s.toList.flatMap String.utf8EncodeChar := by
  rw [encode, String.toUTF8_eq_toByteArray, ← String.utf8Encode_toList, List.utf8Encode]
  simp

/-- Texts are encoded one after the other. -/
lemma encode_append (s t : String) : encode (s ++ t) = encode s ++ encode t := by
  simp [encode_eq_flatMap]

/-- Characters are encoded one after the other. -/
lemma encode_ofList (cs : List Char) :
    encode (String.ofList cs) = cs.flatMap String.utf8EncodeChar := by
  rw [encode_eq_flatMap, String.toList_ofList]

/-- A text is told by its bytes. -/
lemma encode_injective : Function.Injective encode := by
  intro s t h
  have hs := decode?_encode s
  rw [h, decode?_encode] at hs
  exact (Option.some.inj hs).symm

/-- An ASCII character is written in one byte. -/
lemma utf8EncodeChar_of_ascii {c : Char} (hc : c.toNat < 128) :
    String.utf8EncodeChar c = [c.toUInt8] := by
  have : c.val.toNat ≤ 0x7f := Nat.le_of_lt_succ hc
  unfold String.utf8EncodeChar
  rw [if_pos this]
  rfl

/-- The byte of an ASCII character has its number. -/
lemma toNat_toUInt8 {c : Char} (hc : c.toNat < 128) : c.toUInt8.toNat = c.toNat := by
  have h : c.toUInt8.toNat = c.toNat % 256 := rfl
  omega

/-- ASCII characters are told by their bytes. -/
lemma toUInt8_inj {c d : Char} (hc : c.toNat < 128) (hd : d.toNat < 128)
    (h : c.toUInt8 = d.toUInt8) : c = d := by
  have := congrArg UInt8.toNat h
  rw [toNat_toUInt8 hc, toNat_toUInt8 hd] at this
  exact Char.toNat_inj.1 this

/-- No byte of another character is that of an ASCII character. -/
lemma le_of_mem_utf8EncodeChar {c : Char} (hc : ¬ c.toNat < 128) {b : UInt8}
    (hb : b ∈ String.utf8EncodeChar c) : 128 ≤ b.toNat := by
  have hc' : ¬ c.val.toNat ≤ 0x7f := by
    have : c.val.toNat = c.toNat := rfl
    omega
  unfold String.utf8EncodeChar at hb
  simp only [hc', if_false] at hb
  split at hb
  · simp at hb
    rcases hb with rfl | rfl <;> simp <;> omega
  split at hb
  · simp at hb
    rcases hb with rfl | rfl | rfl <;> simp <;> omega
  · simp at hb
    rcases hb with rfl | rfl | rfl | rfl <;> simp <;> omega

/-- The byte of an ASCII character occurs where the character does. -/
lemma mem_encode_iff {c : Char} (hc : c.toNat < 128) {s : String} :
    c.toUInt8 ∈ encode s ↔ c ∈ s.toList := by
  rw [encode_eq_flatMap, List.mem_flatMap]
  constructor
  · rintro ⟨d, hd, hmem⟩
    by_cases hascii : d.toNat < 128
    · rw [utf8EncodeChar_of_ascii hascii, List.mem_singleton] at hmem
      rwa [toUInt8_inj hc hascii hmem]
    · have := le_of_mem_utf8EncodeChar hascii hmem
      have hbyte := toNat_toUInt8 hc
      omega
  · intro h
    exact ⟨c, h, by rw [utf8EncodeChar_of_ascii hc]; exact List.mem_singleton_self _⟩

/-- Encoding and cutting at an ASCII character can be done in any order. -/
lemma splitOn_encode {c : Char} (hc : c.toNat < 128) (s : String) :
    (encode s).splitOn c.toUInt8 =
      (s.toList.splitOn c).map fun segment => encode (String.ofList segment) := by
  rw [encode_eq_flatMap]
  induction s.toList with
  | nil => rfl
  | cons d cs ih =>
    obtain ⟨head, tail, hsplit⟩ := List.exists_cons_of_ne_nil (List.splitOn_ne_nil c cs)
    rw [List.flatMap_cons, List.splitOn_cons_eq_if_modifyHead]
    by_cases hd : d = c
    · subst hd
      rw [utf8EncodeChar_of_ascii hc, List.singleton_append, List.splitOn_cons_eq_if_modifyHead, ih]
      simp [encode_ofList]
    · have hmem : c.toUInt8 ∉ String.utf8EncodeChar d := by
        intro hmem
        have hsingle : c ∈ (String.ofList [d]).toList :=
          (mem_encode_iff hc).1 (by rw [encode_ofList]; simpa using hmem)
        simp at hsingle
        exact hd hsingle.symm
      rw [splitOn_append_of_not_mem hmem, ih, hsplit, if_neg (by simpa using hd)]
      simp [encode_ofList]

/-! ### Order -/

/-- The encodings of two characters differ in a byte as the characters do, whatever follows. -/
lemma utf8EncodeChar_append_lt {c d : Char} (h : c < d) (xs ys : Bytes) :
    String.utf8EncodeChar c ++ xs < String.utf8EncodeChar d ++ ys := by
  have hlt : c.val.toNat < d.val.toNat := h
  have hd : d.val.toNat < 1114112 := by
    have := d.valid
    rw [UInt32.isValidChar, Nat.isValidChar] at this
    omega
  have hdigits (n : Nat) : n / 4096 = n / 64 / 64 ∧ n / 262144 = n / 64 / 64 / 64 := by omega
  unfold String.utf8EncodeChar
  dsimp only
  generalize c.val.toNat = m at *
  generalize d.val.toNat = n at *
  rw [(hdigits m).1, (hdigits m).2, (hdigits n).1, (hdigits n).2]
  clear hdigits
  split_ifs <;>
    simp only [List.cons_append, List.nil_append, List.cons_lt_cons_iff, UInt8.lt_iff_toNat_lt,
      ← UInt8.toNat_inj, UInt8.toNat_ofNat', Nat.reducePow] <;> omega

/-- Texts are in the order of their bytes. -/
lemma encode_lt_encode {s t : String} (h : s < t) : encode s < encode t := by
  rw [encode_eq_flatMap, encode_eq_flatMap]
  have hlex := String.lt_iff_toList_lt.1 h
  generalize s.toList = cs at hlex
  generalize t.toList = ds at hlex
  induction ds generalizing cs with
  | nil => simp at hlex
  | cons d ds ih =>
    cases cs with
    | nil =>
      obtain ⟨b, bs, hb⟩ := List.exists_cons_of_ne_nil (String.utf8EncodeChar_ne_nil (c := d))
      rw [List.flatMap_nil, List.flatMap_cons, hb]
      exact List.nil_lt_cons _ _
    | cons c cs =>
      rw [List.flatMap_cons, List.flatMap_cons]
      rcases List.cons_lt_cons_iff.1 hlex with hlt | ⟨rfl, hlt⟩
      · exact utf8EncodeChar_append_lt hlt _ _
      · exact List.append_left_lt (ih _ hlt)

/-! ### The start of a text -/

/-- The first byte of a character. -/
def firstByte (c : Char) : UInt8 :=
  (String.utf8EncodeChar c).headD 0

/-- A text of one character has its bytes. -/
lemma encode_singleton (c : Char) : encode (String.singleton c) = String.utf8EncodeChar c := by
  rw [encode_eq_flatMap, String.toList_singleton, List.flatMap_singleton]

/-- A character starts with its first byte. -/
lemma exists_utf8EncodeChar_eq_cons (c : Char) :
    ∃ bs, String.utf8EncodeChar c = firstByte c :: bs := by
  obtain ⟨b, bs, h⟩ := List.exists_cons_of_ne_nil (String.utf8EncodeChar_ne_nil (c := c))
  exact ⟨bs, by rw [firstByte, h]; rfl⟩

/-- Only an ASCII character starts with its byte. -/
lemma firstByte_eq_iff {c x : Char} (hx : x.toNat < 128) : firstByte c = x.toUInt8 ↔ c = x := by
  constructor
  · intro h
    obtain ⟨bs, hbs⟩ := exists_utf8EncodeChar_eq_cons c
    have hmem : x.toUInt8 ∈ encode (String.singleton c) := by
      rw [encode_singleton, hbs, h]
      exact List.mem_cons_self
    have := (mem_encode_iff hx).1 hmem
    rw [String.toList_singleton, List.mem_singleton] at this
    exact this.symm
  · rintro rfl
    rw [firstByte, utf8EncodeChar_of_ascii hx]
    rfl

/-- A text is empty, or its bytes start with the first byte of its first character. -/
lemma eq_empty_or_exists_singleton_append (u : String) :
    u = "" ∨ ∃ c rest, u = String.singleton c ++ rest := by
  cases h : u.toList with
  | nil => exact .inl (String.toList_eq_nil_iff.1 h)
  | cons c cs =>
    refine .inr ⟨c, String.ofList cs, ?_⟩
    rw [← String.toList_inj, h]
    simp

/-- A text starts with the first byte of its first character. -/
lemma encode_singleton_append (c : Char) (rest : String) :
    ∃ bs, encode (String.singleton c ++ rest) = firstByte c :: bs := by
  obtain ⟨bs, hbs⟩ := exists_utf8EncodeChar_eq_cons c
  exact ⟨bs ++ encode rest, by rw [encode_append, encode_singleton, hbs]; rfl⟩

/-- A text starts with an ASCII character if and only if its bytes start with that of the
character. -/
lemma head?_encode_eq_iff {u : String} {x : Char} (hx : x.toNat < 128) :
    (encode u).head? = some x.toUInt8 ↔ u.toList.head? = some x := by
  rcases eq_empty_or_exists_singleton_append u with rfl | ⟨c, rest, rfl⟩
  · have hempty : encode "" = [] := rfl
    simp [hempty]
  · obtain ⟨bs, hbs⟩ := encode_singleton_append c rest
    rw [hbs, List.head?_cons, Option.some.injEq, firstByte_eq_iff hx, String.toList_append,
      String.toList_singleton, List.singleton_append, List.head?_cons, Option.some.injEq]

/-! ### Parts of a text -/

/-- What stands before an ASCII character in a text is a text. -/
lemma exists_encode_eq_of_append_cons {u : String} {x : Char} (hx : x.toNat < 128) {bs cs : Bytes}
    (h : encode u = bs ++ x.toUInt8 :: cs) (hbs : x.toUInt8 ∉ bs) :
    ∃ v, encode v = bs := by
  have hsplit := splitOn_encode hx u
  rw [h, List.splitOn_append_cons_self, List.splitOn_eq_singleton hbs,
    List.singleton_append] at hsplit
  obtain ⟨segment, segments, -, hhead, -⟩ := List.map_eq_cons_iff.1 hsplit.symm
  exact ⟨_, hhead⟩

/-- Two characters that start the same bytes are the same. -/
lemma utf8EncodeChar_append_inj {c d : Char} {xs ys : Bytes}
    (h : String.utf8EncodeChar c ++ xs = String.utf8EncodeChar d ++ ys) : c = d ∧ xs = ys := by
  rcases lt_trichotomy c d with hlt | rfl | hlt
  · have hbytes := utf8EncodeChar_append_lt hlt xs ys
    rw [h] at hbytes
    exact absurd hbytes (List.lt_irrefl _)
  · exact ⟨rfl, List.append_cancel_left h⟩
  · have hbytes := utf8EncodeChar_append_lt hlt ys xs
    rw [h] at hbytes
    exact absurd hbytes (List.lt_irrefl _)

/-- What follows the bytes of a text in the bytes of another one is the rest of that text. -/
lemma exists_append_of_encode_append {s t : String} {bs : Bytes}
    (h : encode s ++ bs = encode t) : ∃ rest, s ++ rest = t ∧ encode rest = bs := by
  have hchars (cs ds : List Char)
      (h : cs.flatMap String.utf8EncodeChar ++ bs = ds.flatMap String.utf8EncodeChar) :
      ∃ rest, cs ++ rest = ds ∧ rest.flatMap String.utf8EncodeChar = bs := by
    induction cs generalizing ds with
    | nil => exact ⟨ds, rfl, h.symm⟩
    | cons c cs ih =>
      rw [List.flatMap_cons, List.append_assoc] at h
      cases ds with
      | nil => simp at h
      | cons d ds =>
        rw [List.flatMap_cons] at h
        obtain ⟨rfl, hrest⟩ := utf8EncodeChar_append_inj h
        obtain ⟨rest, rfl, hbs⟩ := ih ds hrest
        exact ⟨rest, rfl, hbs⟩
  rw [encode_eq_flatMap, encode_eq_flatMap] at h
  obtain ⟨rest, hrest, hbs⟩ := hchars _ _ h
  refine ⟨String.ofList rest, ?_, ?_⟩
  · rw [← String.toList_inj, String.toList_append, String.toList_ofList, hrest]
  · rw [encode_ofList, hbs]

end ClasspathIndex.Text.Utf8
