import Mathlib

/-!
# Sorting by a key

Values are sorted by a key of theirs: names of directory entries by their bytes, texts and classes
by their code points.  What comes out ascends, and does not depend on the order of the values
that came in if their keys are distinct.
-/

namespace ClasspathIndex

variable {α β : Type} [LE β] [DecidableLE β] [Std.IsLinearOrder β]

/-- Sorted by a key, values ascend. -/
lemma pairwise_mergeSort_key (key : α → β) (xs : List α) :
    (xs.mergeSort fun a b => decide (key a ≤ key b)).Pairwise fun a b => key a ≤ key b := by
  refine (List.pairwise_mergeSort ?_ ?_ xs).imp fun h => of_decide_eq_true h
  · intro a b c hab hbc
    rw [decide_eq_true_iff] at hab hbc ⊢
    exact Std.le_trans hab hbc
  · intro a b
    rw [Bool.or_eq_true, decide_eq_true_iff, decide_eq_true_iff]
    exact Std.le_total

/-- Values with distinct keys are sorted strictly. -/
lemma pairwise_lt_mergeSort_key [LT β] [Std.LawfulOrderLT β] {key : α → β} {xs : List α}
    (h : (xs.map key).Nodup) :
    (xs.mergeSort fun a b => decide (key a ≤ key b)).Pairwise fun a b => key a < key b := by
  have hperm := (List.mergeSort_perm xs fun a b => decide (key a ≤ key b)).map key
  have hne := List.pairwise_map.1 (hperm.nodup_iff.2 h)
  exact ((pairwise_mergeSort_key key xs).and hne).imp fun h => Std.lt_of_le_of_ne h.1 h.2

/-- Sorted by a key that tells the values apart, the order in which they came is lost. -/
lemma mergeSort_key_eq_of_perm {key : α → β} {xs ys : List α} (h : xs.Perm ys)
    (hkey : ∀ a ∈ xs, ∀ b ∈ xs, key a = key b → a = b) :
    (xs.mergeSort fun a b => decide (key a ≤ key b)) =
      ys.mergeSort fun a b => decide (key a ≤ key b) := by
  refine List.Perm.eq_of_pairwise ?_ (pairwise_mergeSort_key key xs) (pairwise_mergeSort_key key ys)
    ((List.mergeSort_perm xs _).trans (h.trans (List.mergeSort_perm ys _).symm))
  intro a b ha hb hab hba
  exact hkey a (List.mem_mergeSort.1 ha) b (h.mem_iff.2 (List.mem_mergeSort.1 hb))
    (Std.le_antisymm hab hba)

end ClasspathIndex
