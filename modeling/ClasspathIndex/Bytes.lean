/-!
# Byte strings

File contents, file names and encoded texts are finite sequences of bytes.
-/

namespace ClasspathIndex

/-- A finite sequence of bytes. -/
abbrev Bytes := List UInt8

namespace Bytes

/-- The number written by `bs` with the least significant byte first. -/
def littleEndian (bs : Bytes) : Nat :=
  bs.foldr (fun b n => 256 * n + b.toNat) 0

/-- The first `n` bytes and what follows them, if there are that many. -/
def splitExact? : Nat → Bytes → Option (Bytes × Bytes)
  | 0, bs => some ([], bs)
  | _ + 1, [] => none
  | n + 1, b :: bs => (splitExact? n bs).map fun p => (b :: p.1, p.2)

/-- Bytes are split at the given length, in one way. -/
theorem splitExact?_eq_some {n : Nat} {bs a r : Bytes} :
    splitExact? n bs = some (a, r) ↔ bs = a ++ r ∧ a.length = n := by
  induction n generalizing bs a with
  | zero =>
    simp only [splitExact?, Option.some.injEq, Prod.mk.injEq, List.length_eq_zero_iff]
    constructor
    · rintro ⟨rfl, rfl⟩; exact ⟨rfl, rfl⟩
    · rintro ⟨rfl, rfl⟩; exact ⟨rfl, rfl⟩
  | succ n ih =>
    cases bs with
    | nil =>
      simp only [splitExact?, reduceCtorEq, false_iff]
      rintro ⟨e, hl⟩
      cases a <;> simp_all
    | cons b bs =>
      cases a with
      | nil => simp [splitExact?]
      | cons c a =>
        simp only [splitExact?, Option.map_eq_some_iff, Prod.exists, Prod.mk.injEq,
          List.cons.injEq, List.cons_append, List.length_cons, Nat.add_right_cancel_iff]
        constructor
        · rintro ⟨a', r', h, ⟨rfl, rfl⟩, rfl⟩
          obtain ⟨rfl, hl⟩ := ih.1 h
          exact ⟨⟨rfl, rfl⟩, hl⟩
        · rintro ⟨⟨rfl, rfl⟩, hl⟩
          exact ⟨a, r, ih.2 ⟨rfl, hl⟩, ⟨rfl, rfl⟩, rfl⟩

end Bytes

end ClasspathIndex
