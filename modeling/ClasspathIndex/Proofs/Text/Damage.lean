import ClasspathIndex.Proofs.Text.ModifiedUtf8

/-!
# Damaged constants

A constant that is not valid UTF-8 is read unit by unit, and every byte that starts no unit counts
for itself.  Damage does not spread: reading starts anew at each byte that does not continue a unit
(`units_append`), and after each unit that is complete.

Characters in UTF-8 and units are written in blocks alike: a first byte that tells how many bytes
follow, and that many bytes that continue (`IsBlock`).  So bytes that are not valid UTF-8 do not
become valid between texts, and are read there as they are read alone
(`decode_encode_append_append`).
-/

namespace ClasspathIndex.Text.ModifiedUtf8

variable {xs ys as bs : Bytes}

/-! ### Reading starts anew -/

/-- The tail bytes are those from 80 up to BF. -/
lemma isTail_iff {b : UInt8} : isTail b = true ↔ 0x80 ≤ b.toNat ∧ b.toNat < 0xC0 := by
  have hbytes : ∀ m < 256, isTail (UInt8.ofNat m) = true ↔ 0x80 ≤ m ∧ m < 0xC0 := by
    decide +kernel
  have hb := hbytes b.toNat b.toNat_lt
  rwa [UInt8.ofNat_toNat] at hb

/-- Whether a byte string is empty or starts with a byte that does not continue a unit. -/
def StartsAnew (bs : Bytes) : Prop :=
  ∀ b, bs.head? = some b → isTail b = false

/-- Bytes before one that does not continue a unit are read as if nothing followed. -/
lemma units_append (h : StartsAnew ys) : units (xs ++ ys) = units xs ++ units ys := by
  -- Only where a block lacks bytes, the reader looks at `ys`, and finds nothing that continues it.
  fun_induction units xs with
  | case1 => rfl
  | case2 b bs hascii ih =>
    rw [List.cons_append, units.eq_def]
    simp only [hascii, if_true, ih, List.cons_append]
  | case3 b hascii htwo c cs hc ih =>
    rw [List.cons_append, List.cons_append, units.eq_def]
    simp only [hascii, htwo, hc, ih, if_true, Bool.false_eq_true, if_false, List.cons_append]
  | case4 b hascii htwo c cs hc ih =>
    rw [List.cons_append] at ih
    rw [List.cons_append, List.cons_append, units.eq_def]
    simp only [hascii, htwo, hc, ih, if_true, Bool.false_eq_true, if_false, List.cons_append]
  | case5 b hascii htwo =>
    rw [List.singleton_append, units.eq_def]
    simp only [hascii, htwo, if_true, Bool.false_eq_true, if_false]
    cases ys with
    | nil => rfl
    | cons y ys => simp [h y rfl]
  | case6 b hascii htwo hthree c d ds hcd ih =>
    rw [List.cons_append, List.cons_append, List.cons_append, units.eq_def]
    simp only [hascii, htwo, hthree, hcd, ih, if_true, Bool.false_eq_true, if_false,
      List.cons_append]
  | case7 b hascii htwo hthree c d ds hcd ih =>
    rw [List.cons_append, List.cons_append] at ih
    rw [List.cons_append, List.cons_append, List.cons_append, units.eq_def]
    simp only [hascii, htwo, hthree, hcd, ih, if_true, Bool.false_eq_true, if_false,
      List.cons_append]
  | case8 b hascii htwo hthree c ih =>
    rw [List.singleton_append] at ih
    rw [List.cons_append, List.singleton_append, units.eq_def]
    simp only [hascii, htwo, hthree, if_true, Bool.false_eq_true, if_false]
    cases ys with
    | nil => simp [units]
    | cons y ys =>
      simp only [h y rfl, ih, Bool.and_false, Bool.false_eq_true, if_false, List.cons_append]
  | case9 b hascii htwo hthree =>
    rw [List.singleton_append, units.eq_def]
    simp only [hascii, htwo, hthree, if_true, Bool.false_eq_true, if_false]
    rcases ys with _ | ⟨y, _ | ⟨z, zs⟩⟩
    · rfl
    · rfl
    · simp [h y rfl]
  | case10 b bs hascii htwo hthree ih =>
    rw [List.cons_append, units.eq_def]
    simp only [hascii, htwo, hthree, ih, Bool.false_eq_true, if_false, List.cons_append]

/-! ### Blocks -/

/-- How many bytes a first byte announces, itself included. -/
def announced (b : UInt8) : Nat :=
  if b.toNat < 0x80 then 1 else if b.toNat < 0xE0 then 2 else if b.toNat < 0xF0 then 3 else 4

/-- Whether bytes are a first byte and as many that continue as it announces. -/
def IsBlock (xs : Bytes) : Prop :=
  ∃ b rest, xs = b :: rest ∧ isTail b = false ∧ (∀ c ∈ rest, isTail c = true) ∧
    xs.length = announced b

/-- A block has a first byte. -/
lemma IsBlock.ne_nil (h : IsBlock xs) : xs ≠ [] := by
  obtain ⟨b, rest, rfl, -⟩ := h
  exact List.cons_ne_nil b rest

/-- The same bytes start with one block only. -/
lemma IsBlock.append_inj (hxs : IsBlock xs) (hys : IsBlock ys) (h : xs ++ as = ys ++ bs) :
    xs = ys ∧ as = bs := by
  obtain ⟨b, rest, rfl, -, -, hlength⟩ := hxs
  obtain ⟨c, rest', rfl, -, -, hlength'⟩ := hys
  obtain rfl : b = c := (List.cons.inj h).1
  exact List.append_inj h (hlength.trans hlength'.symm)

/-- A block that starts some bytes is not cut where these go on with a byte that starts anew. -/
lemma IsBlock.exists_append (hxs : IsBlock xs) (hbs : StartsAnew bs) (hys : ys ≠ [])
    (h : xs ++ as = ys ++ bs) : ∃ zs, ys = xs ++ zs ∧ as = zs ++ bs := by
  obtain ⟨b, rest, rfl, -, hrest, -⟩ := hxs
  obtain ⟨y, ys, rfl⟩ := List.exists_cons_of_ne_nil hys
  have hcons : rest ++ as = ys ++ bs := (List.cons.inj h).2
  obtain rfl : b = y := (List.cons.inj h).1
  rcases List.append_eq_append_iff.1 hcons with ⟨zs, rfl, hzs⟩ | ⟨zs, rfl, rfl⟩
  · exact ⟨zs, rfl, hzs⟩
  · cases zs with
    | nil => exact ⟨[], by simp, rfl⟩
    | cons z zs =>
      have hanew := hbs z rfl
      rw [hrest z (by simp)] at hanew
      exact absurd hanew (by simp)

/-- Bytes given by numbers are a block if the first one announces the others. -/
lemma isBlock_of_announced {lead : Nat} (ms : List Nat) (hlead : lead < 0x80 ∨ 0xC0 ≤ lead)
    (hlt : lead < 0x100) (hms : ∀ m ∈ ms, m < 64)
    (hlength : ms.length + 1 = announced (UInt8.ofNat lead)) :
    IsBlock (UInt8.ofNat lead :: ms.map fun m => UInt8.ofNat (m + 128)) := by
  refine ⟨_, _, rfl, ?_, ?_, by rw [← hlength]; simp⟩
  · rw [Bool.eq_false_iff, ne_eq, isTail_iff, UInt8.toNat_ofNat']
    omega
  · intro c hc
    obtain ⟨m, hm, rfl⟩ := List.mem_map.1 hc
    exact (isTail_ofNat m (hms m hm)).1

/-- An ASCII byte is a block of its own. -/
lemma isBlock_ascii {n : Nat} (h : n < 0x80) : IsBlock [UInt8.ofNat n] := by
  refine isBlock_of_announced [] (.inl h) (by omega) (by simp) ?_
  rw [announced, if_pos (by rw [UInt8.toNat_ofNat']; omega)]
  rfl

/-- Two bytes that are written for a number are a block. -/
lemma isBlock_twoBytes {n : Nat} (h : n < 0x800) : IsBlock (twoBytes n) := by
  refine isBlock_of_announced [n % 64] (.inr (by omega)) (by omega) ?_ ?_
  · simp [Nat.mod_lt]
  · rw [announced, UInt8.toNat_ofNat', if_neg (by omega), if_pos (by omega)]
    rfl

/-- Three bytes that are written for a number are a block. -/
lemma isBlock_threeBytes {n : Nat} (h : n < 0x10000) : IsBlock (threeBytes n) := by
  refine isBlock_of_announced [n / 64 % 64, n % 64] (.inr (by omega)) (by omega) ?_ ?_
  · simp [Nat.mod_lt]
  · rw [announced, UInt8.toNat_ofNat', if_neg (by omega), if_neg (by omega), if_pos (by omega)]
    rfl

/-- Four bytes that are written for a number are a block. -/
lemma isBlock_fourBytes (n : Nat) : IsBlock (fourBytes n) := by
  refine isBlock_of_announced [n / 4096 % 64, n / 64 % 64, n % 64] (.inr (by omega)) (by omega)
    ?_ ?_
  · simp [Nat.mod_lt]
  · rw [announced, UInt8.toNat_ofNat', if_neg (by omega), if_neg (by omega), if_neg (by omega)]
    rfl

/-- A character is written in one block. -/
lemma isBlock_utf8EncodeChar (c : Char) : IsBlock (String.utf8EncodeChar c) := by
  by_cases hc : c.toNat < 0x10000
  · rw [utf8EncodeChar_eq hc]
    split
    · rename_i h
      exact isBlock_ascii h
    split
    · rename_i h
      exact isBlock_twoBytes h
    · exact isBlock_threeBytes hc
  · rw [utf8EncodeChar_of_large hc]
    exact isBlock_fourBytes _

/-- A unit is written in one block. -/
lemma isBlock_encodeUnit (u : UInt16) : IsBlock (encodeUnit u) := by
  rw [encodeUnit_eq]
  split
  · rename_i h
    exact isBlock_ascii h.2
  split
  · rename_i h
    exact isBlock_twoBytes h
  · exact isBlock_threeBytes u.toNat_lt

/-- What is written from units can be read by itself after all other bytes. -/
lemma startsAnew_encodeUnits (us : List UInt16) : StartsAnew (encodeUnits us) := by
  intro b hb
  cases us with
  | nil => simp [encodeUnits] at hb
  | cons u us =>
    obtain ⟨first, rest, hblock, hfirst, -⟩ := isBlock_encodeUnit u
    have hcons : encodeUnits (u :: us) = encodeUnit u ++ encodeUnits us := List.flatMap_cons
    rw [hcons, hblock] at hb
    obtain rfl := Option.some.inj hb
    exact hfirst

/-! ### Bytes between texts -/

/-- What follows units in a text is a text. -/
lemma exists_encode_of_encodeUnits_append {us : List UInt16} {w : String}
    (h : encodeUnits us ++ bs = Utf8.encode w) : ∃ v, Utf8.encode v = bs := by
  induction us generalizing w with
  | nil => exact ⟨w, h.symm⟩
  | cons u us ih =>
    have hcons : encodeUnits (u :: us) = encodeUnit u ++ encodeUnits us := List.flatMap_cons
    have hunit := isBlock_encodeUnit u
    rw [hcons, List.append_assoc] at h
    rcases Utf8.eq_empty_or_exists_singleton_append w with rfl | ⟨c, v, rfl⟩
    · exact absurd (List.append_eq_nil_iff.1 h).1 hunit.ne_nil
    · rw [Utf8.encode_append, Utf8.encode_singleton] at h
      exact ih (hunit.append_inj (isBlock_utf8EncodeChar c) h).2

/-- A text that is cut before a byte that starts anew has a text before the cut. -/
lemma exists_encode_of_append {w : String} (hbs : StartsAnew bs)
    (h : as ++ bs = Utf8.encode w) : ∃ v, Utf8.encode v = as := by
  rw [Utf8.encode_eq_flatMap] at h
  generalize w.toList = cs at h
  induction cs generalizing as with
  | nil => exact ⟨"", (List.append_eq_nil_iff.1 h).1.symm⟩
  | cons c cs ih =>
    by_cases has : as = []
    · exact ⟨"", has.symm⟩
    · obtain ⟨rest, rfl, hrest⟩ :=
        (isBlock_utf8EncodeChar c).exists_append hbs has (by rw [h, List.flatMap_cons])
      obtain ⟨v, rfl⟩ := ih hrest.symm
      exact ⟨String.singleton c ++ v, by rw [Utf8.encode_append, Utf8.encode_singleton]⟩

/-- Bytes that are no text do not become one between texts. -/
lemma decode?_encode_append_append (s t : String) (h : Utf8.decode? bs = none) :
    Utf8.decode? (encode s ++ bs ++ encode t) = none := by
  rw [Option.eq_none_iff_forall_ne_some]
  intro w hw
  have hwhole : encode s ++ bs ++ encode t = Utf8.encode w := (Utf8.encode_of_decode? hw).symm
  obtain ⟨v, hv⟩ := exists_encode_of_append (startsAnew_encodeUnits _) hwhole
  obtain ⟨u, rfl⟩ := exists_encode_of_encodeUnits_append hv.symm
  rw [Utf8.decode?_encode] at h
  exact absurd h (by simp)

/-- Bytes that are not valid UTF-8 are read between texts as they are read alone, and the texts
around them are read as they were written. -/
theorem decode_encode_append_append (s t : String) {bs : Bytes} (h : Utf8.decode? bs = none) :
    decode (encode s ++ bs ++ encode t) = s ++ decode bs ++ t := by
  have hunits : units (encode s ++ bs ++ encode t) =
      Utf16.encode s.toList ++ (units bs ++ Utf16.encode t.toList) := by
    rw [encode, encode, List.append_assoc, units_encodeUnits_append,
      units_append (startsAnew_encodeUnits _), units_encodeUnits]
  have hnext : ∀ u, (Utf16.encode t.toList).head? = some u → ¬ Utf16.IsLow u :=
    fun u hu => Utf16.not_isLow_of_head?_encode hu
  have hchars : Utf16.decode (units (encode s ++ bs ++ encode t)) =
      s.toList ++ (Utf16.decode (units bs) ++ t.toList) := by
    rw [hunits, Utf16.decode_encode_append, Utf16.decode_append hnext, Utf16.decode_encode]
  unfold decode
  rw [decode?_encode_append_append s t h, h]
  dsimp only
  rw [decodeUnits, hchars, decodeUnits, ← String.toList_inj]
  simp

/-- A byte that continues nothing, a low surrogate, two bytes of three, and a high surrogate. -/
def damagedBytes : Bytes :=
  [0xA9, 0xED, 0xB8, 0x80, 0xE0, 0xA0, 0xED, 0xA0, 0xBD]

/-- Damaged bytes between two texts, and what is read for each of them. -/
theorem decode_encode_append_append_damagedBytes :
    Utf8.decode? damagedBytes = none ∧
      decode (encode "é😀" ++ damagedBytes ++ encode "😀\u0000") =
        "é😀" ++ "\uFFFD\uFFFD\uFFFD\uFFFD\uFFFD" ++ "😀\u0000" := by
  have hdamaged : Utf8.decode? damagedBytes = none := by decide +kernel
  have halone : decode damagedBytes = "\uFFFD\uFFFD\uFFFD\uFFFD\uFFFD" := by decide +kernel
  rw [decode_encode_append_append "é😀" "😀\u0000" hdamaged, halone]
  exact ⟨hdamaged, rfl⟩

end ClasspathIndex.Text.ModifiedUtf8
