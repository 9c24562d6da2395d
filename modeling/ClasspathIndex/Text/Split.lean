/-!
# Cutting lists at a separator

A list is cut once, at the first or at the last occurrence of a separator.  Both cuts
lose nothing but that one occurrence: `breakFirst_eq_some` and `breakLast_eq_some` give
the list back, and say on which side no separator is left.
-/

namespace ClasspathIndex.Text

variable {α : Type} [DecidableEq α]

/-- What stands before and after the first `sep`, if there is one. -/
def breakFirst (sep : α) : List α → Option (List α × List α)
  | [] => none
  | x :: xs =>
    if x = sep then some ([], xs)
    else
      match breakFirst sep xs with
      | none => none
      | some (a, b) => some (x :: a, b)

/-- What stands before and after the last `sep`, if there is one. -/
def breakLast (sep : α) : List α → Option (List α × List α)
  | [] => none
  | x :: xs =>
    match breakLast sep xs with
    | some (a, b) => some (x :: a, b)
    | none => if x = sep then some ([], xs) else none

/-- There is no first place to break at exactly if the separator does not occur. -/
theorem breakFirst_eq_none {sep : α} {xs : List α} : breakFirst sep xs = none ↔ sep ∉ xs := by
  fun_induction breakFirst sep xs <;> grind

/-- The first part of a break at the first place is free of the separator. -/
theorem breakFirst_eq_some {sep : α} {xs a b : List α} :
    breakFirst sep xs = some (a, b) ↔ xs = a ++ sep :: b ∧ sep ∉ a := by
  fun_induction breakFirst sep xs generalizing a b with
  | case1 => simp
  | case2 xs => cases a <;> grind
  | case3 x xs hx h =>
    have := breakFirst_eq_none.1 h
    cases a <;> grind
  | case4 x xs hx a' b' h ih =>
    have := ih.1 h
    cases a with
    | nil => grind
    | cons y a =>
      have := @ih a b
      grind

/-- There is no last place to break at exactly if the separator does not occur. -/
theorem breakLast_eq_none {sep : α} {xs : List α} : breakLast sep xs = none ↔ sep ∉ xs := by
  fun_induction breakLast sep xs with
  | case1 => simp
  | case2 x xs a b h ih => grind
  | case3 xs h ih => grind
  | case4 x xs h hx ih => grind

/-- The second part of a break at the last place is free of the separator. -/
theorem breakLast_eq_some {sep : α} {xs a b : List α} :
    breakLast sep xs = some (a, b) ↔ xs = a ++ sep :: b ∧ sep ∉ b := by
  fun_induction breakLast sep xs generalizing a b with
  | case1 => simp
  | case2 x xs a' b' h ih =>
    have := ih.1 h
    cases a with
    | nil => grind
    | cons y a =>
      have := @ih a b
      grind
  | case3 xs h ih =>
    have := breakLast_eq_none.1 h
    cases a <;> grind
  | case4 x xs h hx ih =>
    have := breakLast_eq_none.1 h
    cases a <;> grind

end ClasspathIndex.Text
