import ClasspathIndex.Proofs.Text.Utf16
import ClasspathIndex.Proofs.Text.Utf8
import ClasspathIndex.Text.ModifiedUtf8

/-!
# Text constants are read back

Units and characters below U+10000 are written in the same way, but for zero: up to 0x7F in one
byte, then in two bytes (`twoBytes`) and in three (`threeBytes`).  So the units of a constant are
read back one by one (`units_encodeUnits_append`), and reading the UTF-8 of a text unit by unit
gives the units of the text, as far as it has no supplementary characters (`units_encode`).

A constant that is valid UTF-8 is not read by its units.  As no unit is written with one of the
bytes that start a supplementary character, the text has none of these, and is what its units
stand for (`decode_encodeUnits`).  In general the two ways of reading differ in these characters
only (`decode_and_decodeUnits_of_valid`).
-/

namespace ClasspathIndex.Text.ModifiedUtf8

/-! ### Numbers in several bytes -/

/-- The layout of a number below 0x800 in two bytes. -/
def twoBytes (n : Nat) : Bytes :=
  [UInt8.ofNat (n / 64 + 192), UInt8.ofNat (n % 64 + 128)]

/-- The layout of a number below 0x10000 in three bytes. -/
def threeBytes (n : Nat) : Bytes :=
  [UInt8.ofNat (n / 4096 + 224), UInt8.ofNat (n / 64 % 64 + 128), UInt8.ofNat (n % 64 + 128)]

/-- The layout of a number above 0xFFFF in four bytes. -/
def fourBytes (n : Nat) : Bytes :=
  [UInt8.ofNat (n / 262144 % 8 + 240), UInt8.ofNat (n / 4096 % 64 + 128),
    UInt8.ofNat (n / 64 % 64 + 128), UInt8.ofNat (n % 64 + 128)]

/-- An ASCII byte has its highest bit clear. -/
lemma and_of_ascii : ∀ m < 128, (UInt8.ofNat m &&& 0x80 == 0) = true := by
  decide

/-- A continuing byte gives its six bits. -/
lemma isTail_ofNat : ∀ m < 64, isTail (UInt8.ofNat (m + 128)) = true ∧
    tailBits (UInt8.ofNat (m + 128)) = UInt16.ofNat m := by
  decide

/-- The first of two bytes is told by its three upper bits, and gives the others. -/
lemma and_of_lead_two : ∀ m < 32, (UInt8.ofNat (m + 192) &&& 0x80 == 0) = false ∧
    (UInt8.ofNat (m + 192) &&& 0xE0 == 0xC0) = true ∧
      (UInt8.ofNat (m + 192) &&& 0x1F).toUInt16 = UInt16.ofNat m := by
  decide

/-- The first of three bytes is told by its four upper bits, and gives the others. -/
lemma and_of_lead_three : ∀ m < 16, (UInt8.ofNat (m + 224) &&& 0x80 == 0) = false ∧
    (UInt8.ofNat (m + 224) &&& 0xE0 == 0xC0) = false ∧
      (UInt8.ofNat (m + 224) &&& 0xF0 == 0xE0) = true ∧
        (UInt8.ofNat (m + 224) &&& 0x0F).toUInt16 = UInt16.ofNat m := by
  decide

/-- A byte that continues a unit starts none. -/
lemma and_of_tail : ∀ m < 64, (UInt8.ofNat (m + 128) &&& 0x80 == 0) = false ∧
    (UInt8.ofNat (m + 128) &&& 0xE0 == 0xC0) = false ∧
      (UInt8.ofNat (m + 128) &&& 0xF0 == 0xE0) = false := by
  decide

/-- The first of four bytes starts no unit. -/
lemma and_of_lead_four : ∀ m < 8, (UInt8.ofNat (m + 240) &&& 0x80 == 0) = false ∧
    (UInt8.ofNat (m + 240) &&& 0xE0 == 0xC0) = false ∧
      (UInt8.ofNat (m + 240) &&& 0xF0 == 0xE0) = false := by
  decide

/-- Bits that lie below others are added to them. -/
lemma toNat_or_of_lt {a b : UInt16} {i x : Nat} (ha : a.toNat = 2 ^ i * x) (hb : b.toNat < 2 ^ i) :
    (a ||| b).toNat = a.toNat + b.toNat := by
  rw [UInt16.toNat_or, ha, ← Nat.two_pow_add_eq_or_of_lt hb]

/-- A number of two bytes is kept as a unit. -/
lemma toNat_ofNat_of_lt {n : Nat} (h : n < 0x10000) : (UInt16.ofNat n).toNat = n :=
  UInt16.toNat_ofNat_of_lt' h

/-- Shifting by six multiplies by 64, as long as it fits. -/
lemma toNat_shiftLeft_six {m : Nat} (hm : m < 0x400) :
    (UInt16.ofNat m <<< 6).toNat = 2 ^ 6 * m := by
  simp [Nat.shiftLeft_eq]
  omega

/-- Shifting by twelve multiplies by 4096, as long as it fits. -/
lemma toNat_shiftLeft_twelve {m : Nat} (hm : m < 0x10) :
    (UInt16.ofNat m <<< 12).toNat = 2 ^ 12 * m := by
  simp [Nat.shiftLeft_eq]
  omega

/-- A unit is made up of the bits of its two bytes. -/
lemma bits_twoBytes {n : Nat} (h : n < 0x800) :
    UInt16.ofNat (n / 64) <<< 6 ||| UInt16.ofNat (n % 64) = UInt16.ofNat n := by
  have hhigh : (UInt16.ofNat (n / 64) <<< 6).toNat = 2 ^ 6 * (n / 64) :=
    toNat_shiftLeft_six (by omega)
  have hlow : (UInt16.ofNat (n % 64)).toNat = n % 64 := toNat_ofNat_of_lt (by omega)
  apply UInt16.toNat_inj.1
  rw [toNat_or_of_lt hhigh (by omega), hhigh, hlow, toNat_ofNat_of_lt (by omega)]
  exact Nat.div_add_mod n 64

/-- A unit is made up of the bits of its three bytes. -/
lemma bits_threeBytes {n : Nat} (h : n < 0x10000) :
    UInt16.ofNat (n / 4096) <<< 12 ||| UInt16.ofNat (n / 64 % 64) <<< 6 ||| UInt16.ofNat (n % 64) =
      UInt16.ofNat n := by
  have hhigh : (UInt16.ofNat (n / 4096) <<< 12).toNat = 2 ^ 12 * (n / 4096) :=
    toNat_shiftLeft_twelve (by omega)
  have hmid : (UInt16.ofNat (n / 64 % 64) <<< 6).toNat = 2 ^ 6 * (n / 64 % 64) :=
    toNat_shiftLeft_six (by omega)
  have hlow : (UInt16.ofNat (n % 64)).toNat = n % 64 := toNat_ofNat_of_lt (by omega)
  have hupper : (UInt16.ofNat (n / 4096) <<< 12 ||| UInt16.ofNat (n / 64 % 64) <<< 6).toNat =
      2 ^ 6 * (n / 64) := by
    rw [toNat_or_of_lt hhigh (by omega), hhigh, hmid]
    omega
  apply UInt16.toNat_inj.1
  rw [toNat_or_of_lt hupper (by omega), hupper, hlow, toNat_ofNat_of_lt h]
  exact Nat.div_add_mod n 64

/-! ### Reading unit by unit -/

/-- An ASCII byte is read as its unit. -/
lemma units_ascii {n : Nat} (h : n < 0x80) (bs : Bytes) :
    units (UInt8.ofNat n :: bs) = UInt16.ofNat n :: units bs := by
  have hunit : (UInt8.ofNat n).toUInt16 = UInt16.ofNat n := by
    apply UInt16.toNat_inj.1
    rw [UInt8.toNat_toUInt16, toNat_ofNat_of_lt (by omega)]
    exact UInt8.toNat_ofNat_of_lt' (by norm_num; omega)
  rw [units.eq_def]
  simp only [and_of_ascii n h, if_true, hunit]

/-- Two bytes are read as the unit that they were written for. -/
lemma units_twoBytes {n : Nat} (h : n < 0x800) (bs : Bytes) :
    units (twoBytes n ++ bs) = UInt16.ofNat n :: units bs := by
  obtain ⟨hlead, hkind, hbits⟩ := and_of_lead_two (n / 64) (by omega)
  obtain ⟨htail, htailBits⟩ := isTail_ofNat (n % 64) (by omega)
  rw [twoBytes, List.cons_append, List.singleton_append, units.eq_def]
  simp only [hlead, hkind, htail, if_true, Bool.false_eq_true, if_false]
  rw [hbits, htailBits, bits_twoBytes h]

/-- Three bytes are read as the unit that they were written for. -/
lemma units_threeBytes {n : Nat} (h : n < 0x10000) (bs : Bytes) :
    units (threeBytes n ++ bs) = UInt16.ofNat n :: units bs := by
  obtain ⟨hlead, hkind, hkind', hbits⟩ := and_of_lead_three (n / 4096) (by omega)
  obtain ⟨hmid, hmidBits⟩ := isTail_ofNat (n / 64 % 64) (by omega)
  obtain ⟨hlast, hlastBits⟩ := isTail_ofNat (n % 64) (by omega)
  rw [threeBytes, List.cons_append, List.cons_append, List.singleton_append, units.eq_def]
  simp only [hlead, hkind, hkind', hmid, hlast, Bool.and_true, if_true, Bool.false_eq_true,
    if_false]
  rw [hbits, hmidBits, hlastBits, bits_threeBytes h]

/-- A byte that starts no unit counts for itself. -/
lemma units_stray {b : UInt8} (h : (b &&& 0x80 == 0) = false ∧ (b &&& 0xE0 == 0xC0) = false ∧
    (b &&& 0xF0 == 0xE0) = false) (bs : Bytes) : units (b :: bs) = 0xFFFD :: units bs := by
  rw [units.eq_def]
  simp only [h.1, h.2.1, h.2.2, Bool.false_eq_true, if_false]

/-- Each of four bytes is read as a broken one. -/
lemma units_fourBytes (n : Nat) (bs : Bytes) :
    units (fourBytes n ++ bs) = List.replicate 4 0xFFFD ++ units bs := by
  have hlead := and_of_lead_four (n / 262144 % 8) (Nat.mod_lt _ (by decide))
  have htail (m : Nat) := and_of_tail (m % 64) (Nat.mod_lt _ (by decide))
  rw [fourBytes, List.cons_append, units_stray hlead, List.cons_append, units_stray (htail _),
    List.cons_append, units_stray (htail _), List.singleton_append, units_stray (htail _)]
  rfl

/-! ### Units -/

/-- The first of two bytes is 192 more than the bits that it carries. -/
lemma or_lead_two : ∀ m < 32, (0xC0 : UInt8) ||| UInt8.ofNat m = UInt8.ofNat (m + 192) := by
  decide

/-- The first of three bytes is 224 more than the bits that it carries. -/
lemma or_lead_three : ∀ m < 16, (0xE0 : UInt8) ||| UInt8.ofNat m = UInt8.ofNat (m + 224) := by
  decide

/-- A tail byte is 128 more than the bits that it carries. -/
lemma or_tail : ∀ m < 64, (0x80 : UInt8) ||| UInt8.ofNat m = UInt8.ofNat (m + 128) := by
  decide

/-- The lower byte of a unit is that of its number. -/
lemma toUInt8_eq_ofNat {u : UInt16} {n : Nat} (h : u.toNat = n) : u.toUInt8 = UInt8.ofNat n := by
  subst h
  exact (UInt8.ofNat_uInt16ToNat u).symm

/-- Units are written like characters, except that zero takes two bytes. -/
lemma encodeUnit_eq (u : UInt16) :
    encodeUnit u =
      if u.toNat ≠ 0 ∧ u.toNat < 0x80 then [UInt8.ofNat u.toNat]
      else if u.toNat < 0x800 then twoBytes u.toNat
      else threeBytes u.toNat := by
  have hlt := u.toNat_lt
  have hzero : u ≠ 0 ↔ u.toNat ≠ 0 := not_congr UInt16.toNat_inj.symm
  have hascii : u < 0x80 ↔ u.toNat < 0x80 := UInt16.lt_iff_toNat_lt
  have htwo : u < 0x800 ↔ u.toNat < 0x800 := UInt16.lt_iff_toNat_lt
  have hsix : (u >>> 6).toNat = u.toNat / 64 := Nat.shiftRight_eq_div_pow _ 6
  have htwelve : (u >>> 12).toNat = u.toNat / 4096 := Nat.shiftRight_eq_div_pow _ 12
  have hlow : (u &&& 0x3F).toNat = u.toNat % 64 := Nat.and_two_pow_sub_one_eq_mod _ 6
  have hmid : (u >>> 6 &&& 0x3F).toNat = u.toNat / 64 % 64 := by
    rw [← hsix]
    exact Nat.and_two_pow_sub_one_eq_mod _ 6
  unfold encodeUnit
  simp only [hzero, hascii, htwo, toUInt8_eq_ofNat hsix, toUInt8_eq_ofNat htwelve,
    toUInt8_eq_ofNat hlow, toUInt8_eq_ofNat hmid, toUInt8_eq_ofNat (Eq.refl u.toNat)]
  split
  · rfl
  split
  · rw [or_lead_two _ (by omega), or_tail _ (by omega), twoBytes]
  · rw [or_lead_three _ (by omega), or_tail _ (by omega), or_tail _ (by omega), threeBytes]

/-- The units of a constant are read back, whatever follows them. -/
lemma units_encodeUnit_append (u : UInt16) (bs : Bytes) :
    units (encodeUnit u ++ bs) = u :: units bs := by
  have hlt := u.toNat_lt
  have hu : UInt16.ofNat u.toNat = u := UInt16.ofNat_toNat
  rw [encodeUnit_eq]
  split
  · rename_i h
    rw [List.singleton_append, units_ascii h.2, hu]
  split
  · rename_i h
    rw [units_twoBytes h, hu]
  · rw [units_threeBytes hlt, hu]

/-- Units are read from their encoding, whatever follows. -/
lemma units_encodeUnits_append (us : List UInt16) (bs : Bytes) :
    units (encodeUnits us ++ bs) = us ++ units bs := by
  induction us with
  | nil => rfl
  | cons u us ih =>
    have hcons : encodeUnits (u :: us) = encodeUnit u ++ encodeUnits us := List.flatMap_cons
    rw [hcons, List.append_assoc, units_encodeUnit_append, ih, List.cons_append]

/-- Units are read from their encoding. -/
lemma units_encodeUnits (us : List UInt16) : units (encodeUnits us) = us := by
  have happend := units_encodeUnits_append us []
  rwa [List.append_nil, units, List.append_nil] at happend

/-- No unit is written with a byte that starts a supplementary character. -/
lemma toNat_lt_of_mem_encodeUnits {us : List UInt16} {b : UInt8} (h : b ∈ encodeUnits us) :
    b.toNat < 0xF0 := by
  obtain ⟨u, -, hb⟩ := List.mem_flatMap.1 h
  have hlt := u.toNat_lt
  rw [encodeUnit_eq] at hb
  split at hb
  · obtain rfl := List.mem_singleton.1 hb
    rw [UInt8.toNat_ofNat']
    omega
  split at hb
  · simp only [twoBytes, List.mem_cons, List.not_mem_nil, or_false] at hb
    rcases hb with rfl | rfl <;> rw [UInt8.toNat_ofNat'] <;> omega
  · simp only [threeBytes, List.mem_cons, List.not_mem_nil, or_false] at hb
    rcases hb with rfl | rfl | rfl <;> rw [UInt8.toNat_ofNat'] <;> omega

/-! ### Characters -/

/-- Characters below U+10000 are written like units. -/
lemma utf8EncodeChar_eq {c : Char} (hc : c.toNat < 0x10000) :
    String.utf8EncodeChar c =
      if c.toNat < 0x80 then [UInt8.ofNat c.toNat]
      else if c.toNat < 0x800 then twoBytes c.toNat
      else threeBytes c.toNat := by
  have hval : c.val.toNat = c.toNat := rfl
  have hone : c.toNat ≤ 127 ↔ c.toNat < 0x80 := Nat.lt_succ_iff.symm
  have htwo : c.toNat ≤ 2047 ↔ c.toNat < 0x800 := Nat.lt_succ_iff.symm
  have hthree : c.toNat ≤ 65535 := Nat.le_of_lt_succ hc
  unfold String.utf8EncodeChar
  simp only [hval, hone, htwo, hthree, if_true]
  split
  · rfl
  split
  · rw [Nat.mod_eq_of_lt (by omega), twoBytes]
  · rw [Nat.mod_eq_of_lt (by omega), threeBytes]

/-- Supplementary characters are written in four bytes. -/
lemma utf8EncodeChar_of_large {c : Char} (hc : ¬ c.toNat < 0x10000) :
    String.utf8EncodeChar c = fourBytes c.toNat := by
  have hval : c.val.toNat = c.toNat := rfl
  unfold String.utf8EncodeChar
  dsimp only
  rw [if_neg (by omega), if_neg (by omega), if_neg (by omega)]
  rfl

/-- The first byte of a supplementary character is large. -/
lemma exists_mem_utf8EncodeChar {c : Char} (hc : ¬ c.toNat < 0x10000) :
    ∃ b ∈ String.utf8EncodeChar c, 0xF0 ≤ b.toNat := by
  rw [utf8EncodeChar_of_large hc]
  refine ⟨_, List.mem_cons_self, ?_⟩
  rw [UInt8.toNat_ofNat']
  omega

/-- What is read unit by unit where a character is written: a supplementary one is lost, and each
of its four bytes counts for itself. -/
def unitwiseChar (c : Char) : List Char :=
  if c.toNat < 0x10000 then [c] else List.replicate 4 '\uFFFD'

/-- What is read unit by unit where a text is written. -/
def unitwise (cs : List Char) : List Char :=
  cs.flatMap unitwiseChar

/-- The bytes of a character are read as the units of the characters that stand for it. -/
lemma units_utf8EncodeChar_append (c : Char) (bs : Bytes) :
    units (String.utf8EncodeChar c ++ bs) = Utf16.encode (unitwiseChar c) ++ units bs := by
  unfold unitwiseChar
  split
  · rename_i hc
    have hunit : Utf16.encode [c] = [UInt16.ofNat c.toNat] := by
      rw [Utf16.encode, List.flatMap_singleton]
      exact if_pos hc
    rw [utf8EncodeChar_eq hc, hunit, List.singleton_append]
    split
    · rename_i h
      rw [List.singleton_append, units_ascii h]
    split
    · rename_i h
      rw [units_twoBytes h]
    · rw [units_threeBytes hc]
  · rename_i hc
    have hunits : Utf16.encode (List.replicate 4 '\uFFFD') = List.replicate 4 0xFFFD := by decide
    rw [utf8EncodeChar_of_large hc, units_fourBytes, hunits]

/-- The units in the UTF-8 of a text are those of the text that is read unit by unit. -/
lemma units_encode (s : String) : units (Utf8.encode s) = Utf16.encode (unitwise s.toList) := by
  rw [Utf8.encode_eq_flatMap]
  induction s.toList with
  | nil => rfl
  | cons c cs ih =>
    rw [List.flatMap_cons, units_utf8EncodeChar_append, ih, unitwise, unitwise, List.flatMap_cons,
      Utf16.encode, Utf16.encode, Utf16.encode, List.flatMap_append]

/-- A text is read unit by unit from its bytes, with four marks for a supplementary character. -/
lemma decodeUnits_encode (s : String) :
    decodeUnits (Utf8.encode s) = String.ofList (unitwise s.toList) := by
  rw [decodeUnits, units_encode, Utf16.decode_encode]

/-- Each supplementary character makes a text longer by three. -/
lemma length_unitwise (cs : List Char) :
    (unitwise cs).length = cs.length + 3 * cs.countP fun c => 0x10000 ≤ c.toNat := by
  induction cs with
  | nil => rfl
  | cons c cs ih =>
    have hcons : unitwise (c :: cs) = unitwiseChar c ++ unitwise cs := List.flatMap_cons
    rw [hcons, List.length_append, ih, List.length_cons]
    by_cases hc : c.toNat < 0x10000
    · have hchar : (unitwiseChar c).length = 1 := by rw [unitwiseChar, if_pos hc]; rfl
      rw [List.countP_cons_of_neg (by simpa using hc), hchar]
      omega
    · have hchar : (unitwiseChar c).length = 4 := by rw [unitwiseChar, if_neg hc]; rfl
      rw [List.countP_cons_of_pos (by simpa using hc), hchar]
      omega

/-- A text is the same read unit by unit exactly if it has no supplementary characters. -/
lemma unitwise_eq_self_iff {cs : List Char} :
    unitwise cs = cs ↔ ∀ c ∈ cs, c.toNat < 0x10000 := by
  constructor
  · intro h c hc
    have hlength := length_unitwise cs
    rw [h] at hlength
    have hcount : cs.countP (fun c => 0x10000 ≤ c.toNat) = 0 := by omega
    simpa using List.countP_eq_zero.1 hcount c hc
  · intro h
    have hchars : cs.flatMap unitwiseChar = cs.flatMap fun c => [c] :=
      List.flatMap_congr fun c hc => if_pos (h c hc)
    rw [unitwise, hchars, List.flatMap_singleton']

/-! ### Constants -/

/-- A constant is the text that its units stand for, also when it is valid UTF-8. -/
lemma decode_encodeUnits (us : List UInt16) :
    decode (encodeUnits us) = String.ofList (Utf16.decode us) := by
  have hunits : decodeUnits (encodeUnits us) = String.ofList (Utf16.decode us) := by
    rw [decodeUnits, units_encodeUnits]
  unfold decode
  split
  · rename_i s hs
    have hencode : Utf8.encode s = encodeUnits us := Utf8.encode_of_decode? hs
    have hsmall : ∀ c ∈ s.toList, c.toNat < 0x10000 := by
      intro c hc
      by_contra hlarge
      obtain ⟨b, hb, hle⟩ := exists_mem_utf8EncodeChar hlarge
      have hmem : b ∈ encodeUnits us := by
        rw [← hencode, Utf8.encode_eq_flatMap]
        exact List.mem_flatMap.2 ⟨c, hc, hb⟩
      have hlt := toNat_lt_of_mem_encodeUnits hmem
      omega
    rw [← hunits, ← hencode, decodeUnits_encode, unitwise_eq_self_iff.2 hsmall,
      String.ofList_toList]
  · exact hunits

/-- A constant written from units, unpaired surrogates and zeros among them, is the text that the
units stand for and no other.  Hence every text is read back from the constant written for it. -/
theorem decode_encodeUnits_iff_and_decode_encode :
    (∀ us cs, decode (encodeUnits us) = String.ofList cs ↔ Utf16.ReadsAs us cs) ∧
      ∀ s, decode (encode s) = s := by
  refine ⟨fun us cs => ?_, fun s => ?_⟩
  · rw [decode_encodeUnits, String.ofList_inj, Utf16.decode_eq_iff]
  · rw [encode, decode_encodeUnits, Utf16.decode_encode, String.ofList_toList]

/-- An unpaired surrogate, zero, and a pair of surrogates. -/
example : encodeUnits [0xD800, 0, 0xD83D, 0xDE00] =
    [0xED, 0xA0, 0x80, 0xC0, 0x80, 0xED, 0xA0, 0xBD, 0xED, 0xB8, 0x80] := by
  decide

/-- A constant that is valid UTF-8 is its text.  Read unit by unit it is this text with four
replacement characters for each supplementary character, and so the same text exactly if there are
none of these. -/
theorem decode_and_decodeUnits_of_valid {bs : Bytes} {s : String}
    (h : Utf8.decode? bs = some s) :
    decode bs = s ∧ decodeUnits bs = String.ofList (unitwise s.toList) ∧
      (decodeUnits bs = decode bs ↔ ∀ c ∈ s.toList, c.toNat < 0x10000) := by
  have htext : decode bs = s := by
    unfold decode
    rw [h]
  have hunits : decodeUnits bs = String.ofList (unitwise s.toList) := by
    rw [← Utf8.encode_of_decode? h, decodeUnits_encode]
  refine ⟨htext, hunits, ?_⟩
  rw [htext, hunits, ← unitwise_eq_self_iff, ← String.toList_inj, String.toList_ofList]

/-- Characters of one, two, three and four bytes. -/
theorem decode_and_decodeUnits_of_valid_sample :
    Utf8.decode? [0x41, 0xC3, 0xA9, 0xE2, 0x82, 0xAC, 0xF0, 0x9F, 0x98, 0x80, 0x42] =
        some "Aé€😀B" ∧
      decodeUnits [0x41, 0xC3, 0xA9, 0xE2, 0x82, 0xAC, 0xF0, 0x9F, 0x98, 0x80, 0x42] =
        "Aé€\uFFFD\uFFFD\uFFFD\uFFFDB" ∧
      decodeUnits [0x41, 0xC3, 0xA9, 0xE2, 0x82, 0xAC] =
        decode [0x41, 0xC3, 0xA9, 0xE2, 0x82, 0xAC] := by
  have hlong : Utf8.decode? [0x41, 0xC3, 0xA9, 0xE2, 0x82, 0xAC, 0xF0, 0x9F, 0x98, 0x80, 0x42] =
      some "Aé€😀B" := by decide +kernel
  have hshort : Utf8.decode? [0x41, 0xC3, 0xA9, 0xE2, 0x82, 0xAC] = some "Aé€" := by
    decide +kernel
  obtain ⟨-, hunits, -⟩ := decode_and_decodeUnits_of_valid hlong
  obtain ⟨-, -, hsame⟩ := decode_and_decodeUnits_of_valid hshort
  exact ⟨hlong, hunits, hsame.2 (by simp)⟩

end ClasspathIndex.Text.ModifiedUtf8
