import ClasspathIndex.Proofs.ClassFile.Encoding

/-!
# Reading the constant pool

A constant is read from its encoding and from nothing else, and the slots of a pool are read
from constants that fill them.  The declared number of slots decides how many constants are
read, so that a constant of eight bytes in the last slot is read whole: `Fills` makes room
for the one slot by which it may reach beyond the others.
-/

namespace ClasspathIndex.ClassFile

open Bytes Reader

namespace Constant

/-- What follows a tag is read from the encodings that start with the tag. -/
lemma readBody_eq_ok_iff {tag : UInt8} {c : Constant} {bs rest : Bytes} :
    readBody tag bs = .ok (c, rest) ↔ c.Fits ∧ tag :: bs = c.encode ++ rest := by
  constructor
  · intro h
    generalize hr : readBody tag = r at h
    unfold readBody at hr
    split at hr <;> rename_i htag <;> subst hr
    case h_18 =>
      simp only [fail_eq_ok_iff] at h
    all_goals
      obtain rfl := UInt8.toNat_inj.1 (htag.trans (UInt8.toNat_ofNat_of_lt' (by decide)).symm)
      simp only [bind_eq_ok_iff, seq_eq_ok_iff, map_eq_ok_iff, pure_eq_ok_iff, take_eq_ok_iff,
        u1_eq_ok_iff, u2_eq_ok_iff, u4_eq_ok_iff, u8_eq_ok_iff] at h
    -- Constants of one shape are taken together: a text of its size, two numbers, one number.
    case h_1 =>
      obtain ⟨size, _, rfl, text, _, ⟨rfl, hsize⟩, rfl, rfl⟩ := h
      exact ⟨by rw [Fits, hsize]; exact size.toNat_lt, by simp [encode, hsize]⟩
    case h_8 | h_9 | h_10 | h_11 | h_12 | h_14 | h_15 =>
      obtain ⟨_, _, second, ⟨first, rfl, rfl⟩, rfl, rfl⟩ := h
      exact ⟨trivial, by simp [encode]⟩
    all_goals
      obtain ⟨x, rfl, rfl⟩ := h
      exact ⟨trivial, by simp [encode]⟩
  · rintro ⟨hfits, h⟩
    cases c with
    | utf8 text =>
      have hsize : text.length.toUInt16.toNat = text.length := UInt16.toNat_ofNat_of_lt hfits
      rw [encode, List.cons_append, List.append_assoc] at h
      obtain ⟨rfl, rfl⟩ := List.cons.inj h
      refine bind_eq_ok_iff.2 ⟨text.length.toUInt16, text ++ rest, ?_, ?_⟩
      · rw [u2_eq_ok_iff, hsize]
      · exact bind_eq_ok_iff.2 ⟨text, rest, take_eq_ok_iff.2 ⟨rfl, hsize.symm⟩, rfl⟩
    | integer bits | float bits | long bits | double bits | classInfo bits | string bits
    | methodType bits | moduleInfo bits | packageInfo bits =>
      rw [encode, List.cons_append] at h
      obtain ⟨rfl, rfl⟩ := List.cons.inj h
      refine map_eq_ok_iff.2 ⟨bits, ?_, rfl⟩
      simp only [u2_eq_ok_iff, u4_eq_ok_iff, u8_eq_ok_iff]
    | methodHandle kind target =>
      rw [encode, List.cons_append, List.cons_append] at h
      obtain ⟨rfl, rfl⟩ := List.cons.inj h
      exact seq_eq_ok_iff.2 ⟨_, _, target, map_eq_ok_iff.2 ⟨kind, u1_eq_ok_iff.2 rfl, rfl⟩,
        u2_eq_ok_iff.2 rfl, rfl⟩
    | _ first second =>
      rw [encode, List.cons_append, List.append_assoc] at h
      obtain ⟨rfl, rfl⟩ := List.cons.inj h
      exact seq_eq_ok_iff.2 ⟨_, _, second, map_eq_ok_iff.2 ⟨first, u2_eq_ok_iff.2 rfl, rfl⟩,
        u2_eq_ok_iff.2 rfl, rfl⟩

/-- A constant is read from its encoding and from nothing else. -/
lemma read_eq_ok_iff {c : Constant} {bs rest : Bytes} :
    read bs = .ok (c, rest) ↔ c.Fits ∧ bs = c.encode ++ rest := by
  simp only [read, bind_eq_ok_iff, u1_eq_ok_iff, readBody_eq_ok_iff]
  constructor
  · rintro ⟨tag, mid, rfl, h⟩
    exact h
  · rintro ⟨hfits, rfl⟩
    obtain ⟨tag, tail, htag⟩ : ∃ tag tail, c.encode = tag :: tail := by
      cases c <;> exact ⟨_, _, rfl⟩
    exact ⟨tag, tail ++ rest, by rw [htag]; rfl, hfits, by rw [htag]; rfl⟩

end Constant

namespace ConstantPool

/-! ### Filling the slots -/

/-- Whether constants fill `n` slots, or one more if the last of them takes two. -/
def Fills (n : Nat) (cs : List Constant) : Prop :=
  (cs.flatMap Constant.slots).length = n ∨
    (cs.flatMap Constant.slots).length = n + 1 ∧ ∃ c, cs.getLast? = some c ∧ c.isWide = true

/-- A wide constant takes two slots, any other one. -/
lemma length_slots (c : Constant) : c.slots.length = if c.isWide then 2 else 1 := by
  unfold Constant.slots
  split <;> rfl

/-- Constants take at least one slot. -/
lemma length_slots_pos {cs : List Constant} (h : cs ≠ []) :
    0 < (cs.flatMap Constant.slots).length := by
  obtain ⟨c, cs, rfl⟩ := List.exists_cons_of_ne_nil h
  rw [List.flatMap_cons, List.length_append, length_slots]
  split <;> omega

/-- If the last constant is wide, they take at least two. -/
lemma two_le_length_slots {cs : List Constant} {c : Constant} (h : cs.getLast? = some c)
    (hc : c.isWide = true) : 2 ≤ (cs.flatMap Constant.slots).length := by
  obtain ⟨cs, rfl⟩ := List.getLast?_eq_some_iff.1 h
  rw [List.flatMap_append, List.length_append, List.flatMap_singleton, length_slots, if_pos hc]
  omega

/-- Without slots there is room for no constant. -/
lemma fills_zero_iff {cs : List Constant} : Fills 0 cs ↔ cs = [] := by
  constructor
  · rintro (h | ⟨h, c, hc, hwide⟩)
    · by_contra hne
      have := length_slots_pos hne
      omega
    · have := two_le_length_slots hc hwide
      omega
  · rintro rfl
    exact .inl rfl

/-- Without constants no slot is filled. -/
lemma fills_nil_iff {n : Nat} : Fills n [] ↔ n = 0 := by
  constructor
  · rintro (h | ⟨h, -⟩)
    · exact h.symm
    · simp at h
  · rintro rfl
    exact .inl rfl

/-- After the slots of the first constant, the others fill the rest. -/
lemma fills_cons_iff {n : Nat} {c : Constant} {cs : List Constant} :
    Fills (c.slots.length + n) (c :: cs) ↔ Fills n cs := by
  cases cs with
  | nil =>
    rw [fills_nil_iff]
    simp only [Fills, List.flatMap_singleton, List.getLast?_singleton]
    omega
  | cons d ds =>
    simp only [Fills, List.flatMap_cons, List.length_append, List.getLast?_cons_cons]
    grind

/-- A single slot is filled by any constant. -/
lemma fills_one_iff {cs : List Constant} : Fills 1 cs ↔ ∃ c, cs = [c] := by
  constructor
  · intro h
    cases cs with
    | nil => simp [fills_nil_iff] at h
    | cons c cs =>
      refine ⟨c, ?_⟩
      have hlen : ((c :: cs).flatMap Constant.slots).length =
          c.slots.length + (cs.flatMap Constant.slots).length := by
        rw [List.flatMap_cons, List.length_append]
      have hcs : cs = [] := by
        by_contra hne
        have hpos := length_slots_pos hne
        by_cases hc : c.isWide = true
        · rw [Fills, hlen, length_slots, if_pos hc] at h
          omega
        · rw [← fills_zero_iff, ← fills_cons_iff (c := c), length_slots, if_neg hc] at hne
          exact hne h
      rw [hcs]
  · rintro ⟨c, rfl⟩
    simp only [Fills, List.flatMap_singleton, List.getLast?_singleton, length_slots]
    split
    · rename_i hc
      exact .inr ⟨rfl, c, rfl, hc⟩
    · exact .inl rfl

/-- More slots than one are filled by a constant and those that fill the slots left by it. -/
lemma fills_add_two_iff {n : Nat} {cs : List Constant} :
    Fills (n + 2) cs ↔
      ∃ c ds, cs = c :: ds ∧ if c.isWide then Fills n ds else Fills (n + 1) ds := by
  cases cs with
  | nil => simp [fills_nil_iff]
  | cons c cs =>
    have hwide (hc : c.isWide = true) : Fills (n + 2) (c :: cs) ↔ Fills n cs := by
      have hcons : Fills (c.slots.length + n) (c :: cs) ↔ Fills n cs := fills_cons_iff
      rwa [length_slots, if_pos hc, Nat.add_comm] at hcons
    have hnarrow (hc : ¬ c.isWide = true) : Fills (n + 2) (c :: cs) ↔ Fills (n + 1) cs := by
      have hcons : Fills (c.slots.length + (n + 1)) (c :: cs) ↔ Fills (n + 1) cs :=
        fills_cons_iff
      rwa [length_slots, if_neg hc, Nat.add_comm] at hcons
    constructor
    · intro h
      refine ⟨c, cs, rfl, ?_⟩
      split
      · rename_i hc
        exact (hwide hc).1 h
      · rename_i hc
        exact (hnarrow hc).1 h
    · rintro ⟨_, _, ⟨rfl, rfl⟩, h⟩
      split at h
      · rename_i hc
        exact (hwide hc).2 h
      · rename_i hc
        exact (hnarrow hc).2 h

/-! ### Reading the slots -/

/-- More slots than one are read as a constant and the slots that it leaves. -/
lemma readSlots_add_two_eq_ok_iff {n : Nat} {ss : List (Option Constant)} {bs rest : Bytes} :
    readSlots (n + 2) bs = .ok (ss, rest) ↔
      ∃ c mid left, Constant.read bs = .ok (c, mid) ∧
        (if c.isWide then readSlots n else readSlots (n + 1)) mid = .ok (left, rest) ∧
          c.slots ++ left = ss := by
  have hleft (c : Constant) :
      (if c.isWide then return some c :: none :: (← readSlots n)
        else return some c :: (← readSlots (n + 1)) : Reader (List (Option Constant))) =
        (c.slots ++ ·) <$> (if c.isWide then readSlots n else readSlots (n + 1)) := by
    unfold Constant.slots
    split <;> rfl
  simp only [readSlots, hleft, bind_eq_ok_iff, map_eq_ok_iff, exists_and_left]

/-- The slots of a pool are read from the constants that fill them. -/
lemma readSlots_eq_ok_iff {n : Nat} {ss : List (Option Constant)} {bs rest : Bytes} :
    readSlots n bs = .ok (ss, rest) ↔
      ∃ cs, Fills n cs ∧ (∀ c ∈ cs, c.Fits) ∧ cs.flatMap Constant.slots = ss ∧
        bs = cs.flatMap Constant.encode ++ rest := by
  -- The induction is that of the reader: no slot is left, or one, in which a constant of two
  -- slots hangs over, or more.
  induction n using readSlots.induct generalizing ss bs rest with
  | case1 =>
    simp only [readSlots, pure_eq_ok_iff, fills_zero_iff]
    constructor
    · rintro ⟨rfl, rfl⟩
      exact ⟨[], by simp⟩
    · rintro ⟨_, rfl, -, rfl, rfl⟩
      simp
  | case2 =>
    simp only [readSlots, bind_eq_ok_iff, Constant.read_eq_ok_iff, pure_eq_ok_iff, fills_one_iff]
    constructor
    · rintro ⟨c, mid, ⟨hfits, rfl⟩, hslots, rfl⟩
      exact ⟨[c], ⟨c, rfl⟩, by simpa using hfits, by rw [List.flatMap_singleton]; exact hslots,
        by simp⟩
    · rintro ⟨_, ⟨c, rfl⟩, hfits, rfl, rfl⟩
      exact ⟨c, rest, ⟨by simpa using hfits, by simp⟩, by rw [List.flatMap_singleton]; rfl, rfl⟩
  | case3 n ihTwo ihOne =>
    have ihLeft (c : Constant) (ss : List (Option Constant)) (bs : Bytes) :
        (if c.isWide then readSlots n else readSlots (n + 1)) bs = .ok (ss, rest) ↔
          ∃ cs, (if c.isWide then Fills n cs else Fills (n + 1) cs) ∧ (∀ c ∈ cs, c.Fits) ∧
            cs.flatMap Constant.slots = ss ∧ bs = cs.flatMap Constant.encode ++ rest := by
      split
      · exact ihTwo
      · exact ihOne
    simp only [readSlots_add_two_eq_ok_iff, Constant.read_eq_ok_iff, fills_add_two_iff, ihLeft]
    constructor
    · rintro ⟨c, _, _, ⟨hfits, rfl⟩, ⟨ds, hfill, hds, rfl, rfl⟩, rfl⟩
      exact ⟨c :: ds, ⟨c, ds, rfl, hfill⟩, by simpa using ⟨hfits, hds⟩, List.flatMap_cons, by simp⟩
    · rintro ⟨_, ⟨c, ds, rfl, hfill⟩, hfits, rfl, rfl⟩
      rw [List.forall_mem_cons] at hfits
      exact ⟨c, _, _, ⟨hfits.1, by simp⟩, ⟨ds, hfill, hfits.2, rfl, rfl⟩, List.flatMap_cons.symm⟩

/-- A pool is read from its declared count and its constants. -/
lemma read_eq_ok_iff {pool : ConstantPool} {bs rest : Bytes} :
    read bs = .ok (pool, rest) ↔
      ∃ (count : UInt16) (cs : List Constant), Fills (count.toNat - 1) cs ∧ (∀ c ∈ cs, c.Fits) ∧
        ofConstants cs = pool ∧
          bs = bigEndianOf 2 count.toNat ++ (cs.flatMap Constant.encode ++ rest) := by
  simp only [read, bind_eq_ok_iff, u2_eq_ok_iff, readSlots_eq_ok_iff, pure_eq_ok_iff]
  constructor
  · rintro ⟨count, _, rfl, _, _, ⟨cs, hfill, hfits, rfl, rfl⟩, rfl, rfl⟩
    exact ⟨count, cs, hfill, hfits, rfl, rfl⟩
  · rintro ⟨count, cs, hfill, hfits, rfl, rfl⟩
    exact ⟨count, _, rfl, _, rest, ⟨cs, hfill, hfits, rfl, rfl⟩, rfl, rfl⟩

/-! ### Looking up names -/

/-- A text is found exactly where the pool has one. -/
lemma text_eq_ok_iff {pool : ConstantPool} {index : UInt16} {s : String} :
    pool.text index = .ok s ↔ pool.HasText index ∧ pool.textAt index = s := by
  unfold text HasText textAt
  split <;> simp_all

/-- The name of a class is found exactly where the pool has one. -/
lemma className_eq_ok_iff {pool : ConstantPool} {index : UInt16} {s : String} :
    pool.className index = .ok s ↔ pool.HasClassName index ∧ pool.classNameAt index = s := by
  unfold className HasClassName classNameAt
  split
  · rename_i name h
    rw [text_eq_ok_iff, h]
    simp
  · rename_i h
    simp only [reduceCtorEq, false_iff, not_and, forall_exists_index]
    rintro name ⟨hname, -⟩
    exact absurd hname (h name)

end ConstantPool
end ClasspathIndex.ClassFile
