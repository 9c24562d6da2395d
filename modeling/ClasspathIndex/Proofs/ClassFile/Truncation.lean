import ClasspathIndex.Proofs.ClassFile.RoundTrip

/-!
# Class files that are cut off

The reader of class files decides from the bytes it has looked at.  Unless it ran out of bytes, it
does the same when more bytes follow, whether it succeeds or fails: this is
`Reader.PrefixStable`, and every reader has it because its parts have it.  The content of an
attribute is read from bytes of its own, so that running out of these is settled as well.

Hence every byte string with a summary has a shortest start that has one.  Shorter starts are cut
off, and longer ones have the same summary (`summary_append_and_exists_length`).
-/

namespace ClasspathIndex.ClassFile

namespace Reader

variable {α β : Type}

/-- Whether a reader, unless it runs out of bytes, does the same when more bytes follow: it gives
the same value and leaves those bytes too, or fails for the same reason. -/
structure PrefixStable (r : Reader α) : Prop where
  ok : ∀ {bs x rest}, r bs = .ok (x, rest) → ∀ t, r (bs ++ t) = .ok (x, rest ++ t)
  error : ∀ {bs e}, r bs = .error e → e ≠ .unexpectedEnd → ∀ t, r (bs ++ t) = .error e

namespace PrefixStable

/-! ### Readers without parts -/

/-- A reader that only answers is prefix stable. -/
lemma pure (x : α) : PrefixStable (pure x : Reader α) where
  ok h t := by
    obtain ⟨rfl, rfl⟩ := pure_eq_ok_iff.1 h
    rfl
  error h := by cases h

/-- A reader that refuses is prefix stable. -/
lemma fail (e : Error) : PrefixStable (fail e : Reader α) where
  ok h := by cases h
  error h _ _ := h

/-- A step that reads nothing is prefix stable. -/
lemma lift (e : Except Error α) : PrefixStable (liftM e : Reader α) where
  ok h t := by
    obtain ⟨rfl, rfl⟩ := lift_eq_ok_iff.1 h
    rfl
  error {bs e'} h _ t := by
    cases e with
    | ok x => cases h
    | error e =>
      cases h
      rfl

/-- The first byte is the same if more bytes follow. -/
lemma u1 : PrefixStable u1 where
  ok h t := by
    obtain rfl := u1_eq_ok_iff.1 h
    rfl
  error {bs e} h hne := by
    cases bs with
    | nil =>
      cases h
      exact absurd rfl hne
    | cons b bs => cases h

/-- The first bytes are the same if more bytes follow. -/
lemma take (n : Nat) : PrefixStable (take n) where
  ok h t := by
    obtain ⟨rfl, hlen⟩ := take_eq_ok_iff.1 h
    exact take_eq_ok_iff.2 ⟨List.append_assoc _ _ _, hlen⟩
  error {bs e} h hne := by
    unfold Reader.take at h
    split at h
    · cases h
    · cases h
      exact absurd rfl hne

/-- What is read from bytes of its own does not depend on the bytes around them. -/
lemma within (body : Bytes) (r : Reader α) : PrefixStable (within body r) where
  ok h t := by
    obtain ⟨hr, rfl⟩ := within_eq_ok_iff.1 h
    exact within_eq_ok_iff.2 ⟨hr, rfl⟩
  error {bs e} h _ t := by
    unfold Reader.within at h ⊢
    split at h
    · cases h
    · exact h

/-! ### Readers made of others -/

variable {r : Reader α}

/-- Readers in a row are prefix stable if each of them is. -/
lemma bind {f : α → Reader β} (hr : PrefixStable r) (hf : ∀ x, PrefixStable (f x)) :
    PrefixStable (r >>= f) where
  ok h t := by
    obtain ⟨x, mid, hx, hy⟩ := bind_eq_ok_iff.1 h
    exact bind_eq_ok_iff.2 ⟨x, mid ++ t, hr.ok hx t, (hf x).ok hy t⟩
  error {bs e} h hne t := by
    change (r bs).bind (fun p => f p.1 p.2) = _ at h
    change (r (bs ++ t)).bind (fun p => f p.1 p.2) = _
    cases hrun : r bs with
    | error e' =>
      rw [hrun] at h
      cases h
      rw [hr.error hrun hne t]
      rfl
    | ok p =>
      obtain ⟨x, mid⟩ := p
      rw [hrun] at h
      rw [hr.ok hrun t]
      exact (hf x).error h hne t

/-- What is made of the value read does not matter. -/
lemma map (f : α → β) (hr : PrefixStable r) : PrefixStable (f <$> r) := by
  rw [← bind_pure_comp]
  exact hr.bind fun x => pure (f x)

/-- A function and its argument are readers in a row. -/
lemma seq {f : Reader (α → β)} (hf : PrefixStable f) (hr : PrefixStable r) :
    PrefixStable (f <*> r) := by
  rw [seq_eq_bind_map]
  exact hf.bind fun g => hr.map g

/-- A reader that is prefix stable is so any number of times. -/
lemma times (hr : PrefixStable r) (n : Nat) : PrefixStable (times r n) := by
  induction n with
  | zero => exact pure []
  | succ n ih => exact hr.bind fun x => ih.bind fun xs => pure (x :: xs)

/-- A number of two bytes is read alike if more bytes follow. -/
lemma u2 : PrefixStable u2 :=
  u1.bind fun _ => u1.bind fun _ => pure _

/-- A number of four bytes is read alike if more bytes follow. -/
lemma u4 : PrefixStable u4 :=
  u2.bind fun _ => u2.bind fun _ => pure _

/-- A number of eight bytes is read alike if more bytes follow. -/
lemma u8 : PrefixStable u8 :=
  u4.bind fun _ => u4.bind fun _ => pure _

/-- Counted values are read alike if more bytes follow. -/
lemma counted (hr : PrefixStable r) : PrefixStable (counted r) :=
  u2.bind fun n => hr.times n.toNat

end PrefixStable

end Reader

open Reader

/-! ### The parts of a class file -/

/-- What follows a tag is read alike if more bytes follow. -/
lemma Constant.prefixStable_readBody (tag : UInt8) : PrefixStable (readBody tag) := by
  unfold readBody
  split
  case h_1 => exact .bind .u2 fun size => .bind (.take _) fun text => .pure _
  case h_2 | h_3 => exact .map _ .u4
  case h_4 | h_5 => exact .map _ .u8
  case h_6 | h_7 | h_13 | h_16 | h_17 => exact .map _ .u2
  case h_12 => exact .seq (.map _ .u1) .u2
  case h_18 => exact .fail _
  all_goals exact .seq (.map _ .u2) .u2

/-- A constant is read alike if more bytes follow. -/
lemma Constant.prefixStable_read : PrefixStable Constant.read :=
  .bind .u1 prefixStable_readBody

/-- The slots of a pool are read alike if more bytes follow. -/
lemma ConstantPool.prefixStable_readSlots (n : Nat) : PrefixStable (readSlots n) := by
  induction n using readSlots.induct with
  | case1 => exact .pure []
  | case2 => exact .bind Constant.prefixStable_read fun _ => .pure _
  | case3 n ihTwo ihOne =>
    refine .bind Constant.prefixStable_read fun c => ?_
    split
    · exact ihTwo.bind fun _ => .pure _
    · exact ihOne.bind fun _ => .pure _

/-- A pool with its count is read alike if more bytes follow. -/
lemma ConstantPool.prefixStable_read : PrefixStable ConstantPool.read :=
  .bind .u2 fun _ => .bind (prefixStable_readSlots _) fun _ => .pure _

/-- An attribute is taken as a whole, or not at all. -/
lemma Attribute.prefixStable_read : PrefixStable Attribute.read :=
  .bind .u2 fun _ => .bind .u4 fun _ => .bind (.take _) fun _ => .pure _

/-- A field with its attributes is read alike if more bytes follow. -/
lemma Member.prefixStable_read : PrefixStable Member.read :=
  .seq (.seq (.seq (.map _ .u2) .u2) .u2) (.counted Attribute.prefixStable_read)

/-- Annotations are read from the content of their attribute, which was cut out before. -/
lemma prefixStable_readDeprecation (pool : ConstantPool) : PrefixStable (readDeprecation pool) := by
  refine .bind Attribute.prefixStable_read fun attr => .bind (.lift _) fun name => ?_
  split
  · exact .pure true
  split
  · exact .bind (.within _ _) fun _ => .pure _
  · exact .pure false

/-- A method is read alike if more bytes follow: its attributes are looked into one by one. -/
lemma prefixStable_readMethod (pool : ConstantPool) : PrefixStable (readMethod pool) := by
  refine .bind .u2 fun access => .bind .u2 fun nameIndex => .bind .u2 fun descriptorIndex => ?_
  refine .bind .u2 fun count => .bind (.lift _) fun name => .bind (.lift _) fun descriptor => ?_
  refine .bind (.times (prefixStable_readDeprecation pool) _) fun marks => ?_
  split
  · exact .pure none
  · exact .bind (.lift _) fun _ => .pure _

/-- The magic number and the version are read alike if more bytes follow. -/
lemma prefixStable_readHeader : PrefixStable readHeader := by
  have hversion (minor major : UInt16) : PrefixStable
      (if major < minMajor ∨ maxMajor < major then fail (.unsupportedVersion major minor)
        else pure ()) := by
    split
    · exact .fail _
    · exact .pure ()
  refine .bind .u4 fun mark => ?_
  split
  · exact .bind (.fail _) fun _ => .bind .u2 fun minor => .bind .u2 (hversion minor)
  · exact .bind .u2 fun minor => .bind .u2 (hversion minor)

/-- Names are looked up while more bytes are still to be read, and the name of the class at the
end: all of this is settled by the bytes before. -/
lemma prefixStable_read : PrefixStable read := by
  refine .bind prefixStable_readHeader fun _ => .bind ConstantPool.prefixStable_read fun pool => ?_
  refine .bind .u2 fun access => .bind .u2 fun thisClass => .bind .u2 fun superClass => ?_
  refine .bind (.counted .u2) fun interfaces => ?_
  refine .bind (.counted Member.prefixStable_read) fun fields => ?_
  refine .bind (.counted (prefixStable_readMethod pool)) fun methods => ?_
  refine .bind (.counted Attribute.prefixStable_read) fun attributes => ?_
  exact .bind (.lift _) fun _ => .pure _

/-! ### Summaries of starts -/

/-- More bytes change nothing for a byte string that is not cut off. -/
lemma summary_append {bs : Bytes} (h : summary bs ≠ .error .unexpectedEnd) (t : Bytes) :
    summary (bs ++ t) = summary bs := by
  unfold summary at h ⊢
  cases hread : read bs with
  | error e =>
    have hne : e ≠ .unexpectedEnd := by
      rintro rfl
      rw [hread] at h
      exact h rfl
    rw [prefixStable_read.error hread hne t]
  | ok p =>
    obtain ⟨s, rest⟩ := p
    rw [prefixStable_read.ok hread t]
    rfl

/-- Some start of a byte string with a summary is the first that is not cut off. -/
lemma exists_first_summary {bs : Bytes} {s : Summary} (h : summary bs = .ok s) :
    ∃ n ≤ bs.length, (∀ k < n, summary (bs.take k) = .error .unexpectedEnd) ∧
      summary (bs.take n) = .ok s := by
  have hwhole : summary (bs.take bs.length) ≠ .error .unexpectedEnd := by
    rw [List.take_length, h]
    simp
  have hexists : ∃ n, summary (bs.take n) ≠ .error .unexpectedEnd := ⟨bs.length, hwhole⟩
  refine ⟨Nat.find hexists, Nat.find_min' hexists hwhole, fun k hk => ?_, ?_⟩
  · exact not_not.1 (Nat.find_min hexists hk)
  · have happend := summary_append (Nat.find_spec hexists) (bs.drop (Nat.find hexists))
    rw [List.take_append_drop, h] at happend
    exact happend.symm

/-- A byte string that is not cut off has the summary, or is refused for the reason, that every
longer one has.  Hence a byte string with a summary has a shortest start with this summary: starts
below it are cut off, and longer starts and longer byte strings have the same summary. -/
theorem summary_append_and_exists_length :
    (∀ p t : Bytes, summary p ≠ .error .unexpectedEnd → summary (p ++ t) = summary p) ∧
      ∀ (b : Bytes) (s : Summary), summary b = .ok s → ∃ n ≤ b.length,
        (∀ p, p <+: b → p.length < n → summary p = .error .unexpectedEnd) ∧
        (∀ p, p <+: b → n ≤ p.length → summary p = .ok s) ∧
        ∀ t, summary (b ++ t) = .ok s := by
  refine ⟨fun p t h => summary_append h t, fun b s h => ?_⟩
  obtain ⟨n, hn, hbelow, hfirst⟩ := exists_first_summary h
  have hlonger (t : Bytes) : summary (b.take n ++ t) = .ok s := by
    rw [summary_append (by simp [hfirst]), hfirst]
  refine ⟨n, hn, fun p hp hlt => ?_, fun p hp hle => ?_, fun t => ?_⟩
  · rw [List.prefix_iff_eq_take.1 hp]
    exact hbelow p.length hlt
  · obtain ⟨t, rfl⟩ : b.take n <+: p :=
      List.prefix_of_prefix_length_le (List.take_prefix n b) hp (by rw [List.length_take]; omega)
    exact hlonger t
  · rw [summary_append (by simp [h]), h]

/-- A wrong mark is refused whatever follows it, and the sample with two bytes after it has a
shortest start with its summary. -/
theorem summary_append_and_exists_length_sample :
    summary [0xCA, 0xFE, 0xBA, 0xBF] = .error .invalidMagic ∧
      summary ([0xCA, 0xFE, 0xBA, 0xBF] ++ sample.encode) = .error .invalidMagic ∧
      summary (sample.encode ++ [1, 2]) = .ok sample.view ∧
      ∃ n ≤ (sample.encode ++ [1, 2]).length,
        (∀ p, p <+: sample.encode ++ [1, 2] → p.length < n → summary p = .error .unexpectedEnd) ∧
        (∀ p, p <+: sample.encode ++ [1, 2] → n ≤ p.length → summary p = .ok sample.view) ∧
        ∀ t, summary (sample.encode ++ [1, 2] ++ t) = .ok sample.view := by
  have hmark : summary [0xCA, 0xFE, 0xBA, 0xBF] = .error .invalidMagic := by decide +kernel
  have hsample : summary (sample.encode ++ [1, 2]) = .ok sample.view := by decide +kernel
  refine ⟨hmark, ?_, hsample, summary_append_and_exists_length.2 _ _ hsample⟩
  rw [summary_append_and_exists_length.1 _ _ (by rw [hmark]; decide), hmark]

end ClasspathIndex.ClassFile
