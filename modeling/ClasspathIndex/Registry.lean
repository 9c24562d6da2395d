/-!
# Registries

A registry holds values with distinct names, in the order in which their names were first
put in.  Putting a value under a name that is already there replaces the old value in its
place.
-/

namespace ClasspathIndex

/-- Values with distinct names, in the order of their first insertion. -/
structure Registry (α : Type) (nameOf : α → String) where
  entries : List α
  distinct : (entries.map nameOf).Nodup

namespace Registry

variable {α : Type} {nameOf : α → String}

/-- The registry without entries. -/
def empty : Registry α nameOf :=
  ⟨[], List.nodup_nil⟩

/-- The names, in order. -/
def names (r : Registry α nameOf) : List String :=
  r.entries.map nameOf

/-- The value with the given name. -/
def find? (r : Registry α nameOf) (name : String) : Option α :=
  r.entries.find? fun x => nameOf x == name

/-- Replaces the values that have the name of `x` by `x`. -/
def replaceIn (nameOf : α → String) (x : α) (xs : List α) : List α :=
  xs.map fun y => if nameOf y = nameOf x then x else y

/-- A replaced value has the name of the old one, so that the names stay. -/
theorem map_replaceIn (x : α) (xs : List α) :
    (replaceIn nameOf x xs).map nameOf = xs.map nameOf := by
  simp only [replaceIn, List.map_map]
  exact List.map_congr_left fun y _ => by
    by_cases h : nameOf y = nameOf x <;> simp [h]

/-- Puts in a value: in the place of the value with its name, or else at the end. -/
def put (r : Registry α nameOf) (x : α) : Registry α nameOf :=
  if h : nameOf x ∈ r.entries.map nameOf then
    ⟨replaceIn nameOf x r.entries, (map_replaceIn x r.entries).symm ▸ r.distinct⟩
  else
    ⟨r.entries ++ [x], by
      rw [List.map_append, List.map_singleton, List.nodup_append]
      refine ⟨r.distinct, by simp, fun a ha b hb e => ?_⟩
      rw [List.mem_singleton] at hb
      exact h (hb ▸ e ▸ ha)⟩

/-- A new name is added at the end; a known name keeps its place. -/
theorem names_put (r : Registry α nameOf) (x : α) :
    (r.put x).names = if nameOf x ∈ r.names then r.names else r.names ++ [nameOf x] := by
  unfold put names
  split
  · simp [map_replaceIn]
  · simp

end Registry

end ClasspathIndex
