import Mathlib
import ClasspathIndex.Text.Utf16

/-!
# How units are read as text

`Utf16.ReadsAs` says what text a sequence of units stands for, unit by unit: a pair of surrogates
is the supplementary character with its number, a surrogate without its partner is the replacement
character, and every other unit is the character with its number.  `Utf16.decode` gives this text
and no other (`decode_eq_iff`), and gives back every text from its units (`decode_encode`).
-/

namespace ClasspathIndex.Text.Utf16

/-! ### Units and characters -/

/-- Whether the number of a unit is that of a high surrogate. -/
def IsHigh (u : UInt16) : Prop :=
  0xD800 ≤ u.toNat ∧ u.toNat < 0xDC00

/-- Whether the number of a unit is that of a low surrogate. -/
def IsLow (u : UInt16) : Prop :=
  0xDC00 ≤ u.toNat ∧ u.toNat < 0xE000

/-- The test for high surrogates is that of their range. -/
lemma isHigh_iff {u : UInt16} : isHigh u = true ↔ IsHigh u := by
  have hlow : (0xD800 : UInt16).toNat = 0xD800 := rfl
  have hhigh : (0xDBFF : UInt16).toNat = 0xDBFF := rfl
  rw [isHigh, IsHigh, Bool.and_eq_true, decide_eq_true_iff, decide_eq_true_iff,
    UInt16.le_iff_toNat_le, UInt16.le_iff_toNat_le]
  omega

/-- The test for low surrogates is that of their range. -/
lemma isLow_iff {u : UInt16} : isLow u = true ↔ IsLow u := by
  have hlow : (0xDC00 : UInt16).toNat = 0xDC00 := rfl
  have hhigh : (0xDFFF : UInt16).toNat = 0xDFFF := rfl
  rw [isLow, IsLow, Bool.and_eq_true, decide_eq_true_iff, decide_eq_true_iff,
    UInt16.le_iff_toNat_le, UInt16.le_iff_toNat_le]
  omega

/-- No unit is a high and a low surrogate. -/
lemma not_isLow_of_isHigh {u : UInt16} (h : IsHigh u) : ¬ IsLow u := by
  unfold IsHigh IsLow at *
  omega

/-- A number outside the surrogates that is small enough belongs to a character. -/
lemma toNat_ofNat {n : Nat} (h : n < 0xD800 ∨ 0xE000 ≤ n ∧ n < 0x110000) :
    (Char.ofNat n).toNat = n := by
  rw [Char.toNat_ofNat, if_pos]
  unfold Nat.isValidChar
  omega

/-- The number of a character is not that of a surrogate, and below 0x110000. -/
lemma toNat_lt (c : Char) : c.toNat < 0xD800 ∨ 0xE000 ≤ c.toNat ∧ c.toNat < 0x110000 := by
  have h := c.valid
  have hval : c.val.toNat = c.toNat := rfl
  unfold UInt32.isValidChar Nat.isValidChar at h
  omega

/-- A unit that is no surrogate has the number of a character. -/
lemma toNat_ofNat_toNat {u : UInt16} (hhigh : ¬ IsHigh u) (hlow : ¬ IsLow u) :
    (Char.ofNat u.toNat).toNat = u.toNat := by
  have hlt := u.toNat_lt
  refine toNat_ofNat ?_
  unfold IsHigh IsLow at *
  omega

/-- The number of a character is made up of its surrogates. -/
lemma toNat_pairChar {high low : UInt16} (hhigh : IsHigh high) (hlow : IsLow low) :
    (pairChar high low).toNat =
      0x10000 + (high.toNat - 0xD800) * 0x400 + (low.toNat - 0xDC00) := by
  unfold IsHigh IsLow at *
  refine toNat_ofNat (.inr ?_)
  omega

/-! ### Reading -/

/-- What text units stand for.  A high surrogate makes a pair with a low one right after it, and
surrogates outside such pairs have no partner. -/
inductive ReadsAs : List UInt16 → List Char → Prop where
  | nil : ReadsAs [] []
  | pair {high low : UInt16} {us : List UInt16} {c : Char} {cs : List Char} (hhigh : IsHigh high)
      (hlow : IsLow low)
      (hc : c.toNat = 0x10000 + (high.toNat - 0xD800) * 0x400 + (low.toNat - 0xDC00))
      (h : ReadsAs us cs) : ReadsAs (high :: low :: us) (c :: cs)
  | unpairedHigh {high : UInt16} {us : List UInt16} {cs : List Char} (hhigh : IsHigh high)
      (hnext : ∀ u, us.head? = some u → ¬ IsLow u) (h : ReadsAs us cs) :
      ReadsAs (high :: us) ('\uFFFD' :: cs)
  | unpairedLow {low : UInt16} {us : List UInt16} {cs : List Char} (hlow : IsLow low)
      (h : ReadsAs us cs) : ReadsAs (low :: us) ('\uFFFD' :: cs)
  | single {u : UInt16} {us : List UInt16} {c : Char} {cs : List Char} (hhigh : ¬ IsHigh u)
      (hlow : ¬ IsLow u) (hc : c.toNat = u.toNat) (h : ReadsAs us cs) :
      ReadsAs (u :: us) (c :: cs)

/-- The character of a unit that is not the first half of a pair. -/
def loneChar (u : UInt16) : Char :=
  if isHigh u || isLow u then '\uFFFD' else Char.ofNat u.toNat

/-- A high surrogate and a low one are read as one character. -/
lemma decode_pair {high low : UInt16} (hhigh : IsHigh high) (hlow : IsLow low) (us : List UInt16) :
    decode (high :: low :: us) = pairChar high low :: decode us := by
  rw [decode, isHigh_iff.2 hhigh, isLow_iff.2 hlow]
  rfl

/-- A unit that does not start a pair is read for itself. -/
lemma decode_cons {u : UInt16} {us : List UInt16}
    (hnext : IsHigh u → ∀ v, us.head? = some v → ¬ IsLow v) :
    decode (u :: us) = loneChar u :: decode us := by
  cases us with
  | nil => rfl
  | cons v us =>
    have hpair : (isHigh u && isLow v) = false := by
      rw [Bool.eq_false_iff, ne_eq, Bool.and_eq_true, isHigh_iff, isLow_iff]
      exact fun hboth => hnext hboth.1 v rfl hboth.2
    rw [decode, hpair]
    rfl

/-- A lone high surrogate is broken. -/
lemma loneChar_of_isHigh {u : UInt16} (h : IsHigh u) : loneChar u = '\uFFFD' := by
  rw [loneChar, isHigh_iff.2 h]
  rfl

/-- A lone low surrogate is broken. -/
lemma loneChar_of_isLow {u : UInt16} (h : IsLow u) : loneChar u = '\uFFFD' := by
  rw [loneChar, isLow_iff.2 h, Bool.or_true]
  rfl

/-- Any other unit is the character of its number. -/
lemma loneChar_of_not {u : UInt16} (hhigh : ¬ IsHigh u) (hlow : ¬ IsLow u) :
    loneChar u = Char.ofNat u.toNat := by
  rw [loneChar, if_neg]
  rw [Bool.or_eq_true, isHigh_iff, isLow_iff]
  exact not_or.2 ⟨hhigh, hlow⟩

/-- A unit that does not start a pair stands for itself. -/
lemma ReadsAs.cons_loneChar {u : UInt16} {us : List UInt16} {cs : List Char} (h : ReadsAs us cs)
    (hnext : IsHigh u → ∀ v, us.head? = some v → ¬ IsLow v) :
    ReadsAs (u :: us) (loneChar u :: cs) := by
  by_cases hhigh : IsHigh u
  · rw [loneChar_of_isHigh hhigh]
    exact .unpairedHigh hhigh (hnext hhigh) h
  by_cases hlow : IsLow u
  · rw [loneChar_of_isLow hlow]
    exact .unpairedLow hlow h
  · rw [loneChar_of_not hhigh hlow]
    exact .single hhigh hlow (toNat_ofNat_toNat hhigh hlow) h

/-- Units are read as what they are decoded to. -/
lemma readsAs_decode (us : List UInt16) : ReadsAs us (decode us) := by
  induction us using decode.induct with
  | case1 => exact .nil
  | case2 u => exact ReadsAs.nil.cons_loneChar (by simp)
  | case3 u v us hpair ih =>
    rw [Bool.and_eq_true, isHigh_iff, isLow_iff] at hpair
    rw [decode_pair hpair.1 hpair.2]
    exact .pair hpair.1 hpair.2 (toNat_pairChar hpair.1 hpair.2) ih
  | case4 u v us hpair ih =>
    have hnext : IsHigh u → ∀ w, (v :: us).head? = some w → ¬ IsLow w := by
      rintro hhigh w hw hlow
      obtain rfl := Option.some.inj hw
      exact hpair (by rw [isHigh_iff.2 hhigh, isLow_iff.2 hlow]; rfl)
    rw [decode_cons hnext]
    exact ih.cons_loneChar hnext

/-- Units stand for one text only. -/
lemma ReadsAs.decode_eq {us : List UInt16} {cs : List Char} (h : ReadsAs us cs) :
    decode us = cs := by
  induction h with
  | nil => rfl
  | pair hhigh hlow hc h ih =>
    rw [decode_pair hhigh hlow, ih, Char.toNat_inj.1 ((toNat_pairChar hhigh hlow).trans hc.symm)]
  | unpairedHigh hhigh hnext h ih =>
    rw [decode_cons fun _ => hnext, loneChar_of_isHigh hhigh, ih]
  | unpairedLow hlow h ih =>
    rw [decode_cons fun hhigh => absurd hlow (not_isLow_of_isHigh hhigh), loneChar_of_isLow hlow,
      ih]
  | single hhigh hlow hc h ih =>
    rw [decode_cons fun h => absurd h hhigh, loneChar_of_not hhigh hlow, ih,
      Char.toNat_inj.1 ((toNat_ofNat_toNat hhigh hlow).trans hc.symm)]

/-- Units are read as the text they stand for. -/
lemma decode_eq_iff {us : List UInt16} {cs : List Char} : decode us = cs ↔ ReadsAs us cs := by
  constructor
  · rintro rfl
    exact readsAs_decode us
  · exact ReadsAs.decode_eq

/-- Units after others are read for themselves, unless a pair reaches into them. -/
lemma decode_append {us vs : List UInt16} (h : ∀ v, vs.head? = some v → ¬ IsLow v) :
    decode (us ++ vs) = decode us ++ decode vs := by
  induction us using decode.induct with
  | case1 => rfl
  | case2 u =>
    rw [List.singleton_append, decode_cons fun _ => h]
    rfl
  | case3 u v us hpair ih =>
    rw [Bool.and_eq_true, isHigh_iff, isLow_iff] at hpair
    rw [List.cons_append, List.cons_append, decode_pair hpair.1 hpair.2, ih,
      decode_pair hpair.1 hpair.2, List.cons_append]
  | case4 u v us hpair ih =>
    have hnext (rest : List UInt16) : IsHigh u → ∀ w, (v :: rest).head? = some w → ¬ IsLow w := by
      rintro hhigh w hw hlow
      obtain rfl := Option.some.inj hw
      exact hpair (by rw [isHigh_iff.2 hhigh, isLow_iff.2 hlow]; rfl)
    rw [List.cons_append, List.cons_append, decode_cons (hnext _), ← List.cons_append, ih,
      decode_cons (hnext _), List.cons_append]

/-! ### The units of a text -/

/-- The units of a character stand for it, whatever follows them. -/
lemma ReadsAs.encodeChar_append {us : List UInt16} {cs : List Char} (h : ReadsAs us cs) (c : Char) :
    ReadsAs (encodeChar c ++ us) (c :: cs) := by
  have hlt := toNat_lt c
  unfold encodeChar
  split
  · rename_i hsmall
    have hunit : c.toNat.toUInt16.toNat = c.toNat := UInt16.toNat_ofNat_of_lt hsmall
    refine .single ?_ ?_ hunit.symm h
    · rw [IsHigh, hunit]
      omega
    · rw [IsLow, hunit]
      omega
  · rename_i hlarge
    have hhigh : (0xD800 + (c.toNat - 0x10000) / 0x400).toUInt16.toNat =
        0xD800 + (c.toNat - 0x10000) / 0x400 := UInt16.toNat_ofNat_of_lt (by norm_num; omega)
    have hlow : (0xDC00 + (c.toNat - 0x10000) % 0x400).toUInt16.toNat =
        0xDC00 + (c.toNat - 0x10000) % 0x400 := UInt16.toNat_ofNat_of_lt (by norm_num; omega)
    refine .pair ?_ ?_ ?_ h
    · rw [IsHigh, hhigh]
      omega
    · rw [IsLow, hlow]
      omega
    · rw [hhigh, hlow]
      omega

/-- The units of a text stand for it, whatever follows them. -/
lemma ReadsAs.encode_append {us : List UInt16} {cs : List Char} (h : ReadsAs us cs)
    (ds : List Char) : ReadsAs (encode ds ++ us) (ds ++ cs) := by
  induction ds with
  | nil => exact h
  | cons d ds ih =>
    have hcons : encode (d :: ds) = encodeChar d ++ encode ds := List.flatMap_cons
    rw [hcons, List.append_assoc]
    exact ih.encodeChar_append d

/-- Characters are read from their units, whatever follows. -/
lemma decode_encode_append (cs : List Char) (us : List UInt16) :
    decode (encode cs ++ us) = cs ++ decode us :=
  ((readsAs_decode us).encode_append cs).decode_eq

/-- A text is read back from its units. -/
lemma decode_encode (cs : List Char) : decode (encode cs) = cs := by
  have happend := decode_encode_append cs []
  rwa [decode, List.append_nil, List.append_nil] at happend

/-- No text starts with the second half of a pair. -/
lemma not_isLow_of_head?_encode {cs : List Char} {u : UInt16} (h : (encode cs).head? = some u) :
    ¬ IsLow u := by
  cases cs with
  | nil => simp [encode] at h
  | cons c cs =>
    have hcons : encode (c :: cs) = encodeChar c ++ encode cs := List.flatMap_cons
    have hlt := toNat_lt c
    rw [hcons, encodeChar] at h
    split at h
    · rename_i hsmall
      have hunit : c.toNat.toUInt16.toNat = c.toNat := UInt16.toNat_ofNat_of_lt hsmall
      obtain rfl := Option.some.inj h
      rw [IsLow, hunit]
      omega
    · have hhigh : (0xD800 + (c.toNat - 0x10000) / 0x400).toUInt16.toNat =
          0xD800 + (c.toNat - 0x10000) / 0x400 := UInt16.toNat_ofNat_of_lt (by norm_num; omega)
      obtain rfl := Option.some.inj h
      rw [IsLow, hhigh]
      omega

end ClasspathIndex.Text.Utf16
