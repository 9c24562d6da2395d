import Mathlib
import ClasspathIndex.ClassFile.Reader

/-!
# What readers take off

A reader that succeeds has taken the encoding of a value off the front of its bytes.
`Reader.ReadsUpTo` says that a reader takes off exactly the encodings of the valid values
of a format: every encoding is read, whatever follows it, and nothing else is.  The notion
is closed under repetition (`ReadsUpTo.times`) and under counted lists
(`ReadsUpTo.counted`), so that a reader is settled by its parts.

Numbers are written with the most significant byte first (`Bytes.bigEndianOf`).
-/

namespace ClasspathIndex

namespace Bytes

/-! ### Numbers of a fixed size -/

/-- The last `size` digits to the base 256 of a number, the most significant first. -/
def bigEndianOf : Nat → Nat → Bytes
  | 0, _ => []
  | size + 1, n => (n / 256 ^ size).toUInt8 :: bigEndianOf size n

/-- The upper bytes of a number are those of its quotient, the lower ones its own. -/
lemma bigEndianOf_add (j k n : Nat) :
    bigEndianOf (j + k) n = bigEndianOf j (n / 256 ^ k) ++ bigEndianOf k n := by
  induction j with
  | zero => simp [bigEndianOf]
  | succ j ih =>
    have hdiv : n / 256 ^ (j + k) = n / 256 ^ k / 256 ^ j := by
      rw [Nat.div_div_eq_div_mul, ← pow_add, Nat.add_comm k j]
    rw [Nat.add_right_comm, bigEndianOf, bigEndianOf, ih, hdiv, List.cons_append]

/-- Digits above the last `k` do not matter. -/
lemma bigEndianOf_mul_add (k m n : Nat) : bigEndianOf k (256 ^ k * m + n) = bigEndianOf k n := by
  induction k generalizing m with
  | zero => rfl
  | succ k ih =>
    have hhead : (256 ^ (k + 1) * m + n) / 256 ^ k = n / 256 ^ k + 256 * m := by
      rw [pow_succ, Nat.mul_assoc, Nat.mul_add_div (by positivity), Nat.add_comm]
    have htail := ih (256 * m)
    rw [← Nat.mul_assoc, ← pow_succ] at htail
    rw [bigEndianOf, bigEndianOf, hhead, htail]
    congr 1
    apply UInt8.toNat_inj.1
    simp [Nat.toUInt8]

/-- The bytes of a number in two parts are the bytes of its parts. -/
lemma bigEndianOf_pair (j k m n : Nat) (hn : n < 256 ^ k) :
    bigEndianOf (j + k) (256 ^ k * m + n) = bigEndianOf j m ++ bigEndianOf k n := by
  have hdiv : (256 ^ k * m + n) / 256 ^ k = m := by
    rw [Nat.mul_add_div (by positivity), Nat.div_eq_of_lt hn, Nat.add_zero]
  rw [bigEndianOf_add, hdiv, bigEndianOf_mul_add]

end Bytes

namespace ClassFile.Reader

variable {α β : Type}

/-! ### Success of a composed reader -/

/-- A reader that only answers leaves what it was given. -/
lemma pure_eq_ok_iff {x y : α} {bs rest : Bytes} :
    (pure x : Reader α) bs = .ok (y, rest) ↔ x = y ∧ bs = rest := by
  change Except.ok (x, bs) = Except.ok (y, rest) ↔ _
  simp

/-- Two readers in a row succeed if each does, the second one on what the first one left. -/
lemma bind_eq_ok_iff {r : Reader α} {f : α → Reader β} {y : β} {bs rest : Bytes} :
    (r >>= f) bs = .ok (y, rest) ↔ ∃ x mid, r bs = .ok (x, mid) ∧ f x mid = .ok (y, rest) := by
  change (r bs).bind (fun p => f p.1 p.2) = _ ↔ _
  cases h : r bs with
  | error e => simp [Except.bind]
  | ok p =>
    cases p
    simp [Except.bind]

/-- What is made of the value read is made of it afterwards. -/
lemma map_eq_ok_iff {r : Reader α} {f : α → β} {y : β} {bs rest : Bytes} :
    (f <$> r) bs = .ok (y, rest) ↔ ∃ x, r bs = .ok (x, rest) ∧ f x = y := by
  rw [← bind_pure_comp, bind_eq_ok_iff]
  simp only [pure_eq_ok_iff]
  constructor
  · rintro ⟨x, mid, h, hx, rfl⟩
    exact ⟨x, h, hx⟩
  · rintro ⟨x, h, hx⟩
    exact ⟨x, rest, h, hx, rfl⟩

/-- A function and its argument are read one after the other. -/
lemma seq_eq_ok_iff {f : Reader (α → β)} {r : Reader α} {y : β} {bs rest : Bytes} :
    (f <*> r) bs = .ok (y, rest) ↔
      ∃ g mid x, f bs = .ok (g, mid) ∧ r mid = .ok (x, rest) ∧ g x = y := by
  rw [seq_eq_bind_map, bind_eq_ok_iff]
  simp only [map_eq_ok_iff]
  constructor
  · rintro ⟨g, mid, hg, x, hx, rfl⟩
    exact ⟨g, mid, x, hg, hx, rfl⟩
  · rintro ⟨g, mid, x, hg, hx, rfl⟩
    exact ⟨g, mid, hg, x, hx, rfl⟩

/-- A step that reads nothing succeeds on any bytes and leaves them. -/
lemma lift_eq_ok_iff {e : Except Error α} {y : α} {bs rest : Bytes} :
    (liftM e : Reader α) bs = .ok (y, rest) ↔ e = .ok y ∧ bs = rest := by
  change e.bind (fun x => .ok (x, bs)) = _ ↔ _
  cases e <;> simp [Except.bind]

/-- A reader that refuses does not succeed. -/
lemma fail_eq_ok_iff {e : Error} {y : α} {bs rest : Bytes} :
    (fail e : Reader α) bs = .ok (y, rest) ↔ False := by
  simp [fail]

/-- Reading within a body leaves what follows the body, whatever is left in it. -/
lemma within_eq_ok_iff {r : Reader α} {body : Bytes} {y : α} {bs rest : Bytes} :
    within body r bs = .ok (y, rest) ↔ (∃ left, r body = .ok (y, left)) ∧ bs = rest := by
  unfold within
  cases h : r body with
  | error e => simp
  | ok p =>
    cases p
    simp

/-! ### Bytes and numbers -/

/-- The first byte is read. -/
lemma u1_eq_ok_iff {x : UInt8} {bs rest : Bytes} : u1 bs = .ok (x, rest) ↔ bs = x :: rest := by
  cases bs <;> simp [u1]

/-- As many bytes are taken as are asked for. -/
lemma take_eq_ok_iff {n : Nat} {x bs rest : Bytes} :
    take n bs = .ok (x, rest) ↔ bs = x ++ rest ∧ x.length = n := by
  rw [← Bytes.splitExact?_eq_some]
  cases h : bs.splitExact? n <;> simp [take, h]

/-- Two bytes make up one number, the upper one first. -/
lemma toNat_join16 (high low : UInt8) :
    (high.toUInt16 <<< 8 ||| low.toUInt16).toNat = 256 * high.toNat + low.toNat := by
  have hhigh := high.toNat_lt
  have hlow := low.toNat_lt
  have hshift : (high.toUInt16 <<< 8).toNat = high.toNat <<< 8 := by
    simp [Nat.shiftLeft_eq]
    omega
  rw [UInt16.toNat_or, hshift, UInt8.toNat_toUInt16, ← Nat.shiftLeft_add_eq_or_of_lt hlow,
    Nat.shiftLeft_eq, Nat.mul_comm]

/-- Two numbers of two bytes make up one of four, the upper one first. -/
lemma toNat_join32 (high low : UInt16) :
    (high.toUInt32 <<< 16 ||| low.toUInt32).toNat = 256 ^ 2 * high.toNat + low.toNat := by
  have hhigh := high.toNat_lt
  have hlow := low.toNat_lt
  have hshift : (high.toUInt32 <<< 16).toNat = high.toNat <<< 16 := by
    simp [Nat.shiftLeft_eq]
    omega
  rw [UInt32.toNat_or, hshift, UInt16.toNat_toUInt32, ← Nat.shiftLeft_add_eq_or_of_lt hlow,
    Nat.shiftLeft_eq, Nat.mul_comm, show 2 ^ 16 = 256 ^ 2 by norm_num]

/-- Two numbers of four bytes make up one of eight, the upper one first. -/
lemma toNat_join64 (high low : UInt32) :
    (high.toUInt64 <<< 32 ||| low.toUInt64).toNat = 256 ^ 4 * high.toNat + low.toNat := by
  have hhigh := high.toNat_lt
  have hlow := low.toNat_lt
  have hshift : (high.toUInt64 <<< 32).toNat = high.toNat <<< 32 := by
    simp [Nat.shiftLeft_eq]
    omega
  rw [UInt64.toNat_or, hshift, UInt32.toNat_toUInt64, ← Nat.shiftLeft_add_eq_or_of_lt hlow,
    Nat.shiftLeft_eq, Nat.mul_comm, show 2 ^ 32 = 256 ^ 4 by norm_num]

/-- A number in two halves of `k` bytes, each read by `half`. -/
lemma join_eq_ok_iff {half : Reader α} {join : α → α → β} {f : α → Nat} {g : β → Nat} {k : Nat}
    (hhalf : ∀ {x bs rest}, half bs = .ok (x, rest) ↔ bs = Bytes.bigEndianOf k (f x) ++ rest)
    (hf : ∀ x, f x < 256 ^ k) (hsurj : ∀ n < 256 ^ k, ∃ x, f x = n)
    (hjoin : ∀ high low, g (join high low) = 256 ^ k * f high + f low)
    (hinj : Function.Injective g) (hg : ∀ y, g y < 256 ^ (k + k)) {y : β} {bs rest : Bytes} :
    (do
      let high ← half
      let low ← half
      return join high low : Reader β) bs = .ok (y, rest) ↔
        bs = Bytes.bigEndianOf (k + k) (g y) ++ rest := by
  simp only [bind_eq_ok_iff, pure_eq_ok_iff, hhalf]
  constructor
  · rintro ⟨high, _, rfl, low, _, rfl, rfl, rfl⟩
    rw [hjoin, Bytes.bigEndianOf_pair _ _ _ _ (hf low), List.append_assoc]
  · rintro rfl
    have hpos : 0 < 256 ^ k := by positivity
    obtain ⟨high, hhigh⟩ := hsurj (g y / 256 ^ k)
      (Nat.div_lt_of_lt_mul (by rw [← pow_add]; exact hg y))
    obtain ⟨low, hlow⟩ := hsurj (g y % 256 ^ k) (Nat.mod_lt _ hpos)
    have hy : g y = 256 ^ k * f high + f low := by
      rw [hhigh, hlow, Nat.div_add_mod]
    refine ⟨high, _, ?_, low, _, rfl, hinj (by rw [hjoin, hy]), rfl⟩
    rw [hy, Bytes.bigEndianOf_pair _ _ _ _ (hf low), List.append_assoc]

/-- One byte is read from its encoding. -/
lemma u1_eq_ok_iff_bigEndianOf {x : UInt8} {bs rest : Bytes} :
    u1 bs = .ok (x, rest) ↔ bs = Bytes.bigEndianOf 1 x.toNat ++ rest := by
  simp [u1_eq_ok_iff, Bytes.bigEndianOf]

/-- A number of two bytes is read from its encoding. -/
lemma u2_eq_ok_iff {x : UInt16} {bs rest : Bytes} :
    u2 bs = .ok (x, rest) ↔ bs = Bytes.bigEndianOf 2 x.toNat ++ rest :=
  join_eq_ok_iff u1_eq_ok_iff_bigEndianOf UInt8.toNat_lt
    (fun n hn => ⟨n.toUInt8, UInt8.toNat_ofNat_of_lt hn⟩) (by simpa using toNat_join16)
    (fun _ _ => UInt16.toNat_inj.1) UInt16.toNat_lt

/-- A number of four bytes is read from its encoding. -/
lemma u4_eq_ok_iff {x : UInt32} {bs rest : Bytes} :
    u4 bs = .ok (x, rest) ↔ bs = Bytes.bigEndianOf 4 x.toNat ++ rest :=
  join_eq_ok_iff u2_eq_ok_iff UInt16.toNat_lt
    (fun n hn => ⟨n.toUInt16, UInt16.toNat_ofNat_of_lt hn⟩) toNat_join32
    (fun _ _ => UInt32.toNat_inj.1) UInt32.toNat_lt

/-- A number of eight bytes is read from its encoding. -/
lemma u8_eq_ok_iff {x : UInt64} {bs rest : Bytes} :
    u8 bs = .ok (x, rest) ↔ bs = Bytes.bigEndianOf 8 x.toNat ++ rest :=
  join_eq_ok_iff u4_eq_ok_iff UInt32.toNat_lt
    (fun n hn => ⟨n.toUInt32, UInt32.toNat_ofNat_of_lt hn⟩) toNat_join64
    (fun _ _ => UInt64.toNat_inj.1) UInt64.toNat_lt

/-! ### Formats -/

/-- On at most `n` bytes, `r` takes off exactly the encodings of valid values, and gives what
`view` keeps of the value.

The bound makes room for readers that are given fuel for bytes of a known number. -/
structure ReadsUpTo (n : Nat) (r : Reader β) (valid : α → Prop) (encode : α → Bytes)
    (view : α → β) : Prop where
  eq_ok_iff : ∀ {bs y rest}, bs.length ≤ n →
    (r bs = .ok (y, rest) ↔ ∃ x, valid x ∧ view x = y ∧ bs = encode x ++ rest)

/-- The bytes of a count and of the values that are counted. -/
def encodeCounted (encode : α → Bytes) (xs : List α) : Bytes :=
  Bytes.bigEndianOf 2 xs.length ++ xs.flatMap encode

variable {n : Nat} {r : Reader β} {valid : α → Prop} {encode : α → Bytes} {view : α → β}

/-- A reader without fuel needs no bound. -/
lemma eq_ok_iff_of_forall (h : ∀ n, ReadsUpTo n r valid encode view) {bs rest : Bytes} {y : β} :
    r bs = .ok (y, rest) ↔ ∃ x, valid x ∧ view x = y ∧ bs = encode x ++ rest :=
  (h bs.length).eq_ok_iff le_rfl

/-- A value read repeatedly is a list of values. -/
lemma ReadsUpTo.times (h : ReadsUpTo n r valid encode view) (k : Nat) :
    ReadsUpTo n (times r k) (fun xs => xs.length = k ∧ ∀ x ∈ xs, valid x) (List.flatMap encode)
      (List.map view) := by
  induction k with
  | zero =>
    refine ⟨fun {bs ys rest} _ => ?_⟩
    simp only [Reader.times, pure_eq_ok_iff, List.length_eq_zero_iff]
    constructor
    · rintro ⟨rfl, rfl⟩
      exact ⟨[], by simp⟩
    · rintro ⟨xs, ⟨rfl, _⟩, rfl, rfl⟩
      simp
  | succ k ih =>
    refine ⟨fun {bs ys rest} hbs => ?_⟩
    simp only [Reader.times, bind_eq_ok_iff, pure_eq_ok_iff]
    constructor
    · rintro ⟨y, mid, hy, ys', mid', hys, rfl, rfl⟩
      obtain ⟨x, hx, rfl, rfl⟩ := (h.eq_ok_iff hbs).1 hy
      have hmid : mid.length ≤ n := by
        rw [List.length_append] at hbs
        omega
      obtain ⟨xs, ⟨hlen, hxs⟩, rfl, rfl⟩ := (ih.eq_ok_iff hmid).1 hys
      refine ⟨x :: xs, ⟨by simp [hlen], by simpa using ⟨hx, hxs⟩⟩, rfl, by simp⟩
    · rintro ⟨xs, ⟨hlen, hxs⟩, rfl, rfl⟩
      obtain ⟨x, xs, rfl⟩ := List.exists_cons_of_length_eq_add_one hlen
      rw [List.forall_mem_cons] at hxs
      rw [List.flatMap_cons, List.append_assoc] at hbs ⊢
      have hmid : (List.flatMap encode xs ++ rest).length ≤ n := by
        rw [List.length_append] at hbs
        omega
      exact ⟨view x, _, (h.eq_ok_iff hbs).2 ⟨x, hxs.1, rfl, rfl⟩, xs.map view, rest,
        (ih.eq_ok_iff hmid).2 ⟨xs, ⟨by simpa using hlen, hxs.2⟩, rfl, rfl⟩, rfl, rfl⟩

/-- A counted list has fewer than 65536 values. -/
lemma ReadsUpTo.counted (h : ReadsUpTo n r valid encode view) :
    ReadsUpTo n (counted r) (fun xs => xs.length < 2 ^ 16 ∧ ∀ x ∈ xs, valid x)
      (encodeCounted encode) (List.map view) := by
  refine ⟨fun {bs ys rest} hbs => ?_⟩
  simp only [Reader.counted, bind_eq_ok_iff, u2_eq_ok_iff]
  constructor
  · rintro ⟨count, mid, rfl, hys⟩
    have hmid : mid.length ≤ n := by
      rw [List.length_append] at hbs
      omega
    obtain ⟨xs, ⟨hlen, hxs⟩, rfl, rfl⟩ := ((h.times _).eq_ok_iff hmid).1 hys
    refine ⟨xs, ⟨hlen ▸ count.toNat_lt, hxs⟩, rfl, ?_⟩
    rw [encodeCounted, hlen, List.append_assoc]
  · rintro ⟨xs, ⟨hlen, hxs⟩, rfl, rfl⟩
    have hcount : xs.length.toUInt16.toNat = xs.length := UInt16.toNat_ofNat_of_lt hlen
    rw [encodeCounted, List.append_assoc] at hbs ⊢
    have hmid : (List.flatMap encode xs ++ rest).length ≤ n := by
      rw [List.length_append] at hbs
      omega
    exact ⟨xs.length.toUInt16, _, by rw [hcount],
      ((h.times _).eq_ok_iff hmid).2 ⟨xs, ⟨hcount.symm, hxs⟩, rfl, rfl⟩⟩

end ClassFile.Reader

end ClasspathIndex
