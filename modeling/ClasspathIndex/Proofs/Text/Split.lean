import Mathlib
import ClasspathIndex.Text.Split

/-!
# Segments of a list

Cutting a list at every occurrence of a separator gives its segments.  A list starts with
another one and a separator exactly if its segments start with those of the other one and go on
(`exists_append_cons_iff`), and elements that are no separators only make the last segment
longer (`exists_splitOn_append`).
-/

namespace ClasspathIndex.Text

variable {α : Type} {sep : α} {xs ys base : List α}

/-- Elements that are no separators do not change what a list starts with. -/
lemma exists_append_append_cons_iff (hys : sep ∉ ys) :
    (∃ rest, xs ++ ys = base ++ sep :: rest) ↔ ∃ rest, xs = base ++ sep :: rest := by
  constructor
  · rintro ⟨rest, h⟩
    rcases List.append_eq_append_iff.1 h with ⟨mid, rfl, hmid⟩ | ⟨mid, rfl, hmid⟩
    · exact absurd (hmid ▸ List.mem_append_right mid List.mem_cons_self) hys
    · cases mid with
      | nil =>
        rw [List.nil_append] at hmid
        exact absurd (hmid ▸ List.mem_cons_self) hys
      | cons x mid =>
        obtain ⟨rfl, rfl⟩ := List.cons.inj hmid
        exact ⟨mid, rfl⟩
  · rintro ⟨rest, rfl⟩
    exact ⟨rest ++ ys, by simp⟩

/-- Joining segments adds only separators. -/
lemma mem_intercalate_iff {x : α} (hx : x ≠ sep) {segments : List (List α)} :
    x ∈ [sep].intercalate segments ↔ ∃ segment ∈ segments, x ∈ segment := by
  induction segments with
  | nil => simp
  | cons segment segments ih =>
    cases segments with
    | nil => simp
    | cons next segments =>
      rw [List.intercalate_cons_cons, List.mem_append, List.mem_append, List.mem_singleton, ih,
        List.exists_mem_cons_iff _ segment]
      simp [hx]

variable [DecidableEq α]

/-- A list is cut at its first separator in one way. -/
lemma append_cons_inj {as bs : List α} (hxs : sep ∉ xs) (hys : sep ∉ ys) :
    xs ++ sep :: as = ys ++ sep :: bs ↔ xs = ys ∧ as = bs := by
  constructor
  · intro h
    have hleft : breakFirst sep (xs ++ sep :: as) = some (xs, as) :=
      breakFirst_eq_some.2 ⟨rfl, hxs⟩
    have hright : breakFirst sep (xs ++ sep :: as) = some (ys, bs) :=
      breakFirst_eq_some.2 ⟨h, hys⟩
    exact Prod.mk.inj (Option.some.inj (hleft.symm.trans hright))
  · rintro ⟨rfl, rfl⟩
    rfl

/-- No piece holds the separator. -/
lemma not_mem_of_mem_splitOn {segment : List α} (h : segment ∈ xs.splitOn sep) : sep ∉ segment := by
  induction xs generalizing segment with
  | nil => simp_all
  | cons x xs ih =>
    rw [List.splitOn_cons_eq_if_modifyHead] at h
    split at h
    · rcases List.mem_cons.1 h with rfl | h
      · simp
      · exact ih h
    · rename_i hx
      obtain ⟨head, tail, hsplit⟩ := List.exists_cons_of_ne_nil (List.splitOn_ne_nil sep xs)
      rw [hsplit, List.modifyHead_cons, List.mem_cons] at h
      rcases h with rfl | h
      · have hhead : sep ∉ head := ih (by rw [hsplit]; simp)
        rw [List.mem_cons, not_or]
        exact ⟨fun e => hx (by simp [e]), hhead⟩
      · exact ih (by rw [hsplit]; exact List.mem_cons_of_mem _ h)

/-- Every element but a separator is in a segment. -/
lemma exists_mem_splitOn_iff {x : α} (hx : x ≠ sep) :
    (∃ segment ∈ xs.splitOn sep, x ∈ segment) ↔ x ∈ xs := by
  rw [← mem_intercalate_iff hx, List.intercalate_splitOn]

/-- Before the first separator, elements belong to the first segment. -/
lemma splitOn_append_of_not_mem (h : sep ∉ xs) :
    (xs ++ ys).splitOn sep = (ys.splitOn sep).modifyHead (xs ++ ·) := by
  induction xs with
  | nil =>
    obtain ⟨head, tail, hsplit⟩ := List.exists_cons_of_ne_nil (List.splitOn_ne_nil sep ys)
    rw [List.nil_append, hsplit, List.modifyHead_cons, List.nil_append]
  | cons x xs ih =>
    rw [List.mem_cons, not_or] at h
    have hx : (x == sep) = false := beq_eq_false_iff_ne.2 (Ne.symm h.1)
    rw [List.cons_append, List.splitOn_cons_eq_if_modifyHead, hx, ih h.2, if_neg (by simp)]
    obtain ⟨head, tail, hsplit⟩ := List.exists_cons_of_ne_nil (List.splitOn_ne_nil sep ys)
    rw [hsplit]
    rfl

/-- Elements that are no separators make the last segment longer. -/
lemma exists_splitOn_append (xs : List α) :
    ∃ segments last, sep ∉ last ∧ ∀ ys, sep ∉ ys →
      (xs ++ ys).splitOn sep = segments ++ [last ++ ys] := by
  cases h : breakLast sep xs with
  | none =>
    have hxs := breakLast_eq_none.1 h
    refine ⟨[], xs, hxs, fun ys hys => ?_⟩
    rw [List.splitOn_eq_singleton (by simp [hxs, hys]), List.nil_append]
  | some p =>
    obtain ⟨front, last⟩ := p
    obtain ⟨rfl, hlast⟩ := breakLast_eq_some.1 h
    refine ⟨front.splitOn sep, last, hlast, fun ys hys => ?_⟩
    have hend : (last ++ ys).splitOn sep = [last ++ ys] :=
      List.splitOn_eq_singleton (by simp [hlast, hys])
    rw [List.append_assoc, List.cons_append, List.splitOn_append_cons_self, hend]

/-- What starts with a list and a separator has its segments first. -/
lemma exists_append_cons_iff :
    (∃ rest, xs = base ++ sep :: rest) ↔
      ∃ segments, segments ≠ [] ∧ xs.splitOn sep = base.splitOn sep ++ segments := by
  constructor
  · rintro ⟨rest, rfl⟩
    exact ⟨rest.splitOn sep, List.splitOn_ne_nil _ _, List.splitOn_append_cons_self _ _⟩
  · rintro ⟨segments, hne, hsplit⟩
    refine ⟨[sep].intercalate segments, ?_⟩
    have hsegments : ∀ segment ∈ segments, sep ∉ segment := by
      intro segment hsegment
      have hmem : segment ∈ xs.splitOn sep := by
        rw [hsplit]
        exact List.mem_append_right _ hsegment
      exact not_mem_of_mem_splitOn hmem
    have hjoined : (base ++ sep :: [sep].intercalate segments).splitOn sep = xs.splitOn sep := by
      rw [hsplit, List.splitOn_append_cons_self, List.splitOn_intercalate sep hsegments hne]
    have hxs : [sep].intercalate (xs.splitOn sep) = xs := List.intercalate_splitOn sep
    rw [← hxs, ← hjoined, List.intercalate_splitOn]

/-- Joined segments that are not empty are those left after cutting; there is no segment if there
was none. -/
lemma filter_splitOn_intercalate {segments : List (List α)}
    (h : ∀ segment ∈ segments, segment ≠ [] ∧ sep ∉ segment) :
    (([sep].intercalate segments).splitOn sep).filter (fun segment => segment ≠ []) = segments := by
  cases segments with
  | nil => simp
  | cons first rest =>
    rw [List.splitOn_intercalate sep (fun segment hmem => (h segment hmem).2) (by simp)]
    exact List.filter_eq_self.2 fun segment hmem => by simpa using (h segment hmem).1

/-- If one element stands for another everywhere, the list is cut at the one as it was at the
other. -/
lemma splitOn_map_replace {new : α} (h : new ∉ xs) :
    (xs.map fun x => if x = sep then new else x).splitOn new = xs.splitOn sep := by
  induction xs with
  | nil => simp
  | cons x xs ih =>
    rw [List.mem_cons, not_or] at h
    rw [List.map_cons, List.splitOn_cons_eq_if_modifyHead, List.splitOn_cons_eq_if_modifyHead,
      ih h.2]
    by_cases hx : x = sep
    · simp [hx]
    · simp [hx, Ne.symm h.1]

end ClasspathIndex.Text
