import Mathlib
import ClasspathIndex.QualifiedName

/-!
# Dots and slashes

Replacing one character by another loses nothing in a text that does not hold the other one
(`replaceChar_replaceChar`), so dotted and slashed names give each other back.  A dotted name is
its simple name, or its package, a dot and its simple name (`eq_append_or_package_eq_empty`).
-/

namespace ClasspathIndex.QualifiedName

open Text

variable {s name : String}

/-! ### Characters -/

/-- A character is replaced wherever it stands. -/
lemma toList_replaceChar (old new : Char) (s : String) :
    (replaceChar old new s).toList = s.toList.map fun c => if c = old then new else c :=
  String.toList_ofList

/-- In the dotted form there is a dot for each slash. -/
lemma toList_dotted (s : String) :
    (dotted s).toList = s.toList.map fun c => if c = '/' then '.' else c :=
  toList_replaceChar '/' '.' s

/-- In the slashed form there is a slash for each dot. -/
lemma toList_slashed (s : String) :
    (slashed s).toList = s.toList.map fun c => if c = '.' then '/' else c :=
  toList_replaceChar '.' '/' s

/-- A replacement is undone by the opposite one, if the new character was not there before. -/
lemma replaceChar_replaceChar {old new : Char} (h : new ∉ s.toList) :
    replaceChar new old (replaceChar old new s) = s := by
  rw [← String.toList_inj, toList_replaceChar, toList_replaceChar, List.map_map]
  refine (List.map_congr_left fun c hc => ?_).trans (List.map_id _)
  by_cases hold : c = old
  · simp [hold]
  · have hnew : c ≠ new := fun hnew => h (hnew ▸ hc)
    simp [hold, hnew]

/-- A name without dots is got back from its dotted form. -/
lemma slashed_dotted (h : '.' ∉ s.toList) : slashed (dotted s) = s :=
  replaceChar_replaceChar h

/-- A name without slashes is got back from its slashed form. -/
lemma dotted_slashed (h : '/' ∉ s.toList) : dotted (slashed s) = s :=
  replaceChar_replaceChar h

/-- What is in a text after a replacement is the new character, or was there before. -/
lemma mem_replaceChar {old new c : Char} (h : c ∈ (replaceChar old new s).toList) :
    c = new ∨ c ∈ s.toList := by
  rw [toList_replaceChar, List.mem_map] at h
  obtain ⟨x, hx, hc⟩ := h
  split at hc
  · exact .inl hc.symm
  · exact .inr (hc ▸ hx)

/-- Parts of a name are dotted one after the other. -/
lemma dotted_append (s t : String) : dotted (s ++ t) = dotted s ++ dotted t := by
  rw [← String.toList_inj]
  simp [toList_dotted]

/-- Parts of a name are slashed one after the other. -/
lemma slashed_append (s t : String) : slashed (s ++ t) = slashed s ++ slashed t := by
  rw [← String.toList_inj]
  simp [toList_slashed]

/-- A full name lies below a package exactly if the internal name does. -/
lemma dotted_eq_append_iff {internal package : String} (hinternal : '.' ∉ internal.toList)
    (hpackage : '/' ∉ package.toList) :
    (∃ rest, dotted internal = package ++ "." ++ rest) ↔
      ∃ rest, internal = slashed package ++ "/" ++ rest := by
  constructor
  · rintro ⟨rest, h⟩
    refine ⟨slashed rest, ?_⟩
    rw [← slashed_dotted hinternal, h, slashed_append, slashed_append]
    rfl
  · rintro ⟨rest, rfl⟩
    refine ⟨dotted rest, ?_⟩
    rw [dotted_append, dotted_append, dotted_slashed hpackage]
    rfl

/-! ### Packages and simple names -/

/-- A simple name holds no dot. -/
lemma dot_not_mem_simple (name : String) : '.' ∉ (simple name).toList := by
  unfold simple
  cases h : breakLast '.' name.toList with
  | none => exact breakLast_eq_none.1 h
  | some p =>
    obtain ⟨front, last⟩ := p
    rw [String.toList_ofList]
    exact (breakLast_eq_some.1 h).2

/-- A name is cut at its last dot, if it has one. -/
lemma eq_append_or_package_eq_empty (name : String) :
    name = package name ++ "." ++ simple name ∨ package name = "" ∧ simple name = name := by
  unfold package simple
  cases h : breakLast '.' name.toList with
  | none => exact .inr ⟨rfl, rfl⟩
  | some p =>
    obtain ⟨front, last⟩ := p
    refine .inl ?_
    rw [← String.toList_inj, (breakLast_eq_some.1 h).1]
    simp

/-- What is in the package or the simple name of a name is in the name. -/
lemma mem_of_mem_package_or_simple {c : Char}
    (h : c ∈ (package name).toList ∨ c ∈ (simple name).toList) : c ∈ name.toList := by
  rcases eq_append_or_package_eq_empty name with hname | ⟨hpackage, hsimple⟩
  · rw [hname]
    simp only [String.toList_append, List.mem_append]
    tauto
  · simpa [hpackage, hsimple] using h

end ClasspathIndex.QualifiedName
