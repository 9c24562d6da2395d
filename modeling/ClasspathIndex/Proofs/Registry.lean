import Mathlib
import ClasspathIndex.Registry

/-!
# Looking up and putting in

Since the names of a registry are distinct, the entries with a name are at most the one that
is found under it, and `put` takes that entry out and brings the new one in.  The order in
which names come is kept apart from this: it is that of their first occurrences.
-/

namespace ClasspathIndex

/-- A value after others is new in its first occurrence, or changes nothing. -/
lemma eraseDups_append_singleton {α : Type} [BEq α] [LawfulBEq α] (xs : List α) (x : α)
    [Decidable (x ∈ xs)] :
    (xs ++ [x]).eraseDups = if x ∈ xs then xs.eraseDups else xs.eraseDups ++ [x] := by
  rw [List.eraseDups_append]
  split
  · rename_i h
    simp [List.removeAll, h]
  · rename_i h
    simp [List.removeAll, h, List.eraseDups_cons]

/-- Values can be told apart by anything that tells the picked ones from all others. -/
lemma filter_eraseDupsBy {α : Type} [BEq α] [LawfulBEq α] {same : α → α → Bool} {keep : α → Bool}
    (xs : List α) (h : ∀ x ∈ xs, ∀ y ∈ xs, keep x = true ∨ keep y = true →
      (same x y = true ↔ x = y)) :
    (xs.eraseDupsBy same).filter keep = (xs.filter keep).eraseDups := by
  -- What is told apart from the first value is a shorter list, so the induction is on the length.
  induction hlength : xs.length using Nat.strong_induction_on generalizing xs with
  | _ n ih =>
    cases xs with
    | nil => rfl
    | cons x xs =>
      subst hlength
      have hshorter : (xs.filter fun y => same y x = false).length < (x :: xs).length :=
        Nat.lt_succ_of_le (List.length_filter_le _ _)
      have hrest := ih _ hshorter (xs.filter fun y => same y x = false) (fun y hy z hz =>
        h y (List.mem_cons_of_mem _ (List.mem_of_mem_filter hy)) z
          (List.mem_cons_of_mem _ (List.mem_of_mem_filter hz))) rfl
      have hpicked : (xs.filter fun y => same y x = false).filter keep =
          (xs.filter keep).filter fun y => !y == x := by
        rw [List.filter_filter, List.filter_filter]
        refine List.filter_congr fun y hy => ?_
        cases hkeep : keep y with
        | false => simp
        | true =>
          have hsame := h y (List.mem_cons_of_mem _ hy) x List.mem_cons_self (.inl hkeep)
          rcases eq_or_ne y x with rfl | hne
          · simp [hsame.2 rfl]
          · simp [hne, Bool.eq_false_iff.2 fun hyx => hne (hsame.1 hyx)]
      rw [List.eraseDupsBy_cons, List.filter_cons, hrest, hpicked, List.filter_cons]
      split
      · rw [List.eraseDups_cons]
      · rename_i hdropped
        -- A value that is not picked is none of the picked ones.
        rw [List.filter_eq_self.2]
        intro y hy
        have hne : y ≠ x := fun heq => hdropped (heq ▸ (List.mem_filter.1 hy).2)
        simpa using hne

/-- Values are picked out before or after they are told apart. -/
lemma filter_eraseDups {α : Type} [BEq α] [LawfulBEq α] (keep : α → Bool) (xs : List α) :
    xs.eraseDups.filter keep = (xs.filter keep).eraseDups :=
  filter_eraseDupsBy xs fun _ _ _ _ _ => beq_iff_eq

/-- Optional values are the same if they are so as lists of at most one element. -/
lemma eq_of_toList_perm {α : Type} {a b : Option α} (h : a.toList.Perm b.toList) : a = b := by
  cases b with
  | none => exact Option.toList_eq_nil_iff.1 (List.perm_nil.1 h)
  | some y => exact Option.toList_eq_singleton_iff.1 (List.perm_singleton.1 h)

namespace Registry

variable {α : Type} {nameOf : α → String}

/-- Nothing is found under a name exactly if no value has it. -/
lemma find?_eq_none_iff {r : Registry α nameOf} {name : String} :
    r.find? name = none ↔ name ∉ r.names := by
  simp [find?, names, List.find?_eq_none]

/-- What is found under a name has it. -/
lemma name_of_find?_eq_some {r : Registry α nameOf} {name : String} {x : α}
    (h : r.find? name = some x) : nameOf x = name := by
  simpa using List.find?_some h

/-- Of distinct names, each belongs to one entry at most. -/
lemma filter_eq_toList_find? (r : Registry α nameOf) (name : String) :
    r.entries.filter (fun x => nameOf x == name) = (r.find? name).toList := by
  obtain ⟨xs, hdistinct⟩ := r
  change xs.filter _ = (xs.find? _).toList
  induction xs with
  | nil => rfl
  | cons x xs ih =>
    rw [List.map_cons, List.nodup_cons] at hdistinct
    by_cases hx : nameOf x = name
    · have hnone : xs.filter (fun y => nameOf y == name) = [] := by
        rw [List.filter_eq_nil_iff]
        intro y hy hname
        have hmem := List.mem_map_of_mem (f := nameOf) hy
        rw [beq_iff_eq.1 hname, ← hx] at hmem
        exact hdistinct.1 hmem
      rw [List.filter_cons_of_pos (by simpa using hx), List.find?_cons_of_pos (by simpa using hx),
        hnone, Option.toList_some]
    · rw [List.filter_cons_of_neg (by simpa using hx), List.find?_cons_of_neg (by simpa using hx)]
      exact ih hdistinct.2

/-- A known name has its value replaced; a value with a new name comes last. -/
lemma entries_put (r : Registry α nameOf) (x : α) :
    (r.put x).entries =
      if nameOf x ∈ r.names then replaceIn nameOf x r.entries else r.entries ++ [x] := by
  unfold put names
  split
  · rfl
  · rfl

/-- Taking out a name that is not there changes nothing. -/
lemma filter_eq_self_of_notMem {xs : List α} {x : α} (h : nameOf x ∉ xs.map nameOf) :
    xs.filter (fun y => !(nameOf y == nameOf x)) = xs := by
  rw [List.filter_eq_self]
  intro y hy
  have hname : nameOf y ≠ nameOf x := fun hname => h (hname ▸ List.mem_map_of_mem hy)
  simpa using hname

/-- Replacing a name that is not there changes nothing. -/
lemma replaceIn_eq_self_of_notMem {xs : List α} {x : α} (h : nameOf x ∉ xs.map nameOf) :
    replaceIn nameOf x xs = xs := by
  have hother : ∀ y ∈ xs, nameOf y ≠ nameOf x :=
    fun y hy hname => h (hname ▸ List.mem_map_of_mem hy)
  unfold replaceIn
  rw [List.map_congr_left fun y hy => if_neg (hother y hy), List.map_id']

/-- Where names are distinct and that of `x` is among them, replacing takes one entry out and
brings `x` in. -/
lemma replaceIn_perm {xs : List α} {x : α} (hdistinct : (xs.map nameOf).Nodup)
    (h : nameOf x ∈ xs.map nameOf) :
    (replaceIn nameOf x xs).Perm (xs.filter (fun y => !(nameOf y == nameOf x)) ++ [x]) := by
  induction xs with
  | nil => simp at h
  | cons y xs ih =>
    rw [List.map_cons, List.nodup_cons] at hdistinct
    rw [List.map_cons, List.mem_cons] at h
    by_cases hy : nameOf y = nameOf x
    · have hrest : nameOf x ∉ xs.map nameOf := hy ▸ hdistinct.1
      have hhead : replaceIn nameOf x (y :: xs) = x :: replaceIn nameOf x xs := by
        simp [replaceIn, hy]
      rw [hhead, replaceIn_eq_self_of_notMem hrest, List.filter_cons_of_neg (by simpa using hy),
        filter_eq_self_of_notMem hrest]
      exact (List.perm_append_singleton x xs).symm
    · have hhead : replaceIn nameOf x (y :: xs) = y :: replaceIn nameOf x xs := by
        simp [replaceIn, hy]
      rw [hhead, List.filter_cons_of_pos (by simpa using hy), List.cons_append]
      exact (ih hdistinct.2 (h.resolve_left (fun e => hy e.symm))).cons y

/-- The entries after `put` are the new one and those with other names. -/
lemma entries_put_perm (r : Registry α nameOf) (x : α) :
    (r.put x).entries.Perm (r.entries.filter (fun y => !(nameOf y == nameOf x)) ++ [x]) := by
  rw [entries_put]
  split
  · rename_i h
    exact replaceIn_perm r.distinct h
  · rename_i h
    rw [filter_eq_self_of_notMem h]

/-- A value with a new name comes last. -/
lemma entries_put_of_notMem {r : Registry α nameOf} {x : α} (h : nameOf x ∉ r.names) :
    (r.put x).entries = r.entries ++ [x] := by
  rw [entries_put, if_neg h]

/-- What is found under a name does not depend on the order of the entries. -/
lemma find?_eq_of_perm {r s : Registry α nameOf} (h : r.entries.Perm s.entries) (name : String) :
    r.find? name = s.find? name := by
  have hfilter := h.filter fun x => nameOf x == name
  rw [filter_eq_toList_find?, filter_eq_toList_find?] at hfilter
  exact eq_of_toList_perm hfilter

/-- A name leads to the value put in last under it. -/
lemma find?_put (r : Registry α nameOf) (x : α) (name : String) :
    (r.put x).find? name = if nameOf x = name then some x else r.find? name := by
  have hperm := (entries_put_perm r x).filter fun y => nameOf y == name
  rw [filter_eq_toList_find?, List.filter_append, List.filter_filter] at hperm
  refine eq_of_toList_perm (hperm.trans ?_)
  split
  · rename_i hname
    have hnone : r.entries.filter (fun y => nameOf y == name && !(nameOf y == nameOf x)) = [] := by
      simp [hname]
    rw [hnone, List.filter_cons_of_pos (by simpa using hname)]
    exact .rfl
  · rename_i hname
    have hsame : r.entries.filter (fun y => nameOf y == name && !(nameOf y == nameOf x)) =
        r.entries.filter fun y => nameOf y == name := by
      refine List.filter_congr fun y _ => ?_
      by_cases hy : nameOf y = name
      · simp [hy, Ne.symm hname]
      · simp [hy]
    rw [hsame, List.filter_cons_of_neg (by simpa using hname), List.filter_nil, List.append_nil,
      filter_eq_toList_find?]

section Map

variable {β : Type} {nameOfImage : β → String} {g : α → β} {r : Registry α nameOf}
  {s : Registry β nameOfImage}

/-- If the values of a registry are kept in another form under the same names, they are found in
that form. -/
lemma find?_eq_map (hg : ∀ x, nameOfImage (g x) = nameOf x) (h : s.entries = r.entries.map g)
    (name : String) : s.find? name = (r.find? name).map g := by
  unfold find?
  rw [h, List.find?_map]
  simp only [Function.comp_def, hg]

/-- Values kept in another form have the same names, in the same order. -/
lemma names_eq_of_map (hg : ∀ x, nameOfImage (g x) = nameOf x) (h : s.entries = r.entries.map g) :
    s.names = r.names := by
  unfold names
  rw [h, List.map_map]
  exact List.map_congr_left fun x _ => hg x

/-- A value can be put in before or after it is brought into the other form. -/
lemma entries_put_eq_map (hg : ∀ x, nameOfImage (g x) = nameOf x)
    (h : s.entries = r.entries.map g) (x : α) :
    (s.put (g x)).entries = (r.put x).entries.map g := by
  rw [entries_put, entries_put, names_eq_of_map hg h, hg x]
  split
  · unfold replaceIn
    rw [h, List.map_map, List.map_map]
    refine List.map_congr_left fun y _ => ?_
    rw [Function.comp_apply, Function.comp_apply, hg y, hg x, apply_ite g]
  · rw [h, List.map_append, List.map_singleton]

end Map

end Registry

end ClasspathIndex
