import Mathlib
import ClasspathIndex.Text.Blank
import ClasspathIndex.Text.Split

/-!
# Blank characters around a text

Trimming a text gives the one text that neither starts nor ends with a blank character and from
which the text comes by padding it with blank characters (`trim_eq_iff`).  A text can be trimmed
before or after it is cut at a character that is not blank (`breakFirst_trim`).
-/

namespace ClasspathIndex.Text

/-- Whether a text neither starts nor ends with a blank character. -/
def IsTrimmed (cs : List Char) : Prop :=
  (∀ c, cs.head? = some c → isBlank c = false) ∧ ∀ c, cs.getLast? = some c → isBlank c = false

/-- Whether a text is another one with blank characters before and after it. -/
def Pads (core cs : List Char) : Prop :=
  ∃ before after, (∀ c ∈ before, isBlank c = true) ∧ (∀ c ∈ after, isBlank c = true) ∧
    cs = before ++ core ++ after

variable {core cs ds : List Char}

/-- A text pads itself. -/
lemma Pads.refl (core : List Char) : Pads core core :=
  ⟨[], [], by simp, by simp, by simp⟩

/-- Without blank characters there is nothing to trim. -/
lemma isTrimmed_of_forall (h : ∀ c ∈ cs, isBlank c = false) : IsTrimmed cs :=
  ⟨fun c hc => h c (List.mem_of_mem_head? hc), fun c hc => h c (List.mem_of_getLast? hc)⟩

/-- What is not in a text and not blank is not in a padded text. -/
lemma Pads.not_mem {x : Char} (h : Pads core cs) (hx : isBlank x = false) (hcore : x ∉ core) :
    x ∉ cs := by
  obtain ⟨before, after, hbefore, hafter, rfl⟩ := h
  intro hmem
  have hblank : isBlank x = true := by
    rcases List.mem_append.1 hmem with hmem | hmem
    · rcases List.mem_append.1 hmem with hmem | hmem
      · exact hbefore x hmem
      · exact absurd hmem hcore
    · exact hafter x hmem
  rw [hx] at hblank
  exact Bool.false_ne_true hblank

/-- A padded text holds what its core does. -/
lemma Pads.mem {x : Char} (h : Pads core cs) (hx : x ∈ core) : x ∈ cs := by
  obtain ⟨before, after, -, -, rfl⟩ := h
  simp [hx]

/-- A text is blank if all its characters are. -/
lemma allBlank_iff : allBlank cs = true ↔ ∀ c ∈ cs, isBlank c = true :=
  List.all_eq_true

/-! ### Dropping from both ends -/

/-- Blanks are trimmed at the start, and then at the end. -/
lemma trim_eq (cs : List Char) : trim cs = (cs.dropWhile isBlank).rdropWhile isBlank :=
  rfl

/-- Dropping stops at the first element to keep. -/
lemma dropWhile_append_cons {α : Type} {p : α → Bool} {x : α} (hx : p x = false) (xs ys : List α) :
    (xs ++ x :: ys).dropWhile p = xs.dropWhile p ++ x :: ys := by
  induction xs with
  | nil => simp [hx]
  | cons y xs ih =>
    rw [List.cons_append, List.dropWhile_cons, List.dropWhile_cons, ih]
    split <;> rfl

/-- From the end nothing is dropped beyond a character that stays. -/
lemma rdropWhile_append_cons {α : Type} {p : α → Bool} {x : α} (hx : p x = false)
    (xs ys : List α) : (xs ++ x :: ys).rdropWhile p = xs ++ x :: ys.rdropWhile p := by
  have hreverse : (xs ++ x :: ys).reverse = ys.reverse ++ x :: xs.reverse := by simp
  rw [List.rdropWhile, List.rdropWhile, hreverse, dropWhile_append_cons hx]
  simp

/-- At a character that is not blank, a text is trimmed on each side by itself. -/
lemma trim_append_cons {x : Char} (hx : isBlank x = false) (xs ys : List Char) :
    trim (xs ++ x :: ys) = xs.dropWhile isBlank ++ x :: ys.rdropWhile isBlank := by
  rw [trim_eq, dropWhile_append_cons hx, rdropWhile_append_cons hx]

/-! ### Trimming -/

/-- A text pads what is left of it by trimming. -/
lemma pads_trim (cs : List Char) : Pads (trim cs) cs := by
  refine ⟨cs.takeWhile isBlank, (cs.dropWhile isBlank).rtakeWhile isBlank,
    fun c hc => List.mem_takeWhile_imp hc, fun c hc => List.mem_rtakeWhile_imp hc, ?_⟩
  rw [trim_eq, List.append_assoc, List.rdropWhile_append_rtakeWhile,
    List.takeWhile_append_dropWhile]

/-- What is left by trimming is trimmed. -/
lemma isTrimmed_trim (cs : List Char) : IsTrimmed (trim cs) := by
  rw [trim_eq]
  constructor
  · intro c hc
    obtain ⟨rest, hrest⟩ := List.rdropWhile_prefix isBlank (cs.dropWhile isBlank)
    have hhead : (cs.dropWhile isBlank).head? = some c := by
      rw [← hrest, List.head?_append, hc, Option.some_or]
    have hstop := List.head?_dropWhile_not isBlank cs
    rwa [hhead] at hstop
  · intro c hc
    obtain ⟨hne, hlast⟩ := List.mem_getLast?_eq_getLast hc
    have hstop := List.rdropWhile_last_not isBlank (cs.dropWhile isBlank) hne
    rw [← hlast] at hstop
    exact Bool.eq_false_iff.2 hstop

/-- Trimming a padded text gives its core. -/
lemma Pads.trim_eq (h : Pads core cs) (hcore : IsTrimmed core) : trim cs = core := by
  obtain ⟨before, after, hbefore, hafter, rfl⟩ := h
  rw [Text.trim_eq, List.append_assoc, List.dropWhile_append_of_pos hbefore]
  have hnil : after.rdropWhile isBlank = [] := List.rdropWhile_eq_nil_iff.2 hafter
  cases core with
  | nil =>
    rw [List.nil_append, List.dropWhile_eq_nil_iff.2 hafter, List.rdropWhile_nil]
  | cons c rest =>
    have hhead : isBlank c = false := hcore.1 c rfl
    obtain ⟨front, d, hd⟩ := (List.eq_nil_or_concat' (c :: rest)).resolve_left (by simp)
    have hlast : isBlank d = false := hcore.2 d (by rw [hd]; simp)
    rw [List.cons_append, List.dropWhile_cons_of_neg (by simp [hhead]), ← List.cons_append, hd,
      List.append_assoc, List.singleton_append, rdropWhile_append_cons hlast, hnil]

/-- A text is trimmed to the one text without blank characters at its ends that it pads. -/
lemma trim_eq_iff : trim cs = core ↔ IsTrimmed core ∧ Pads core cs := by
  constructor
  · rintro rfl
    exact ⟨isTrimmed_trim cs, pads_trim cs⟩
  · rintro ⟨hcore, hpads⟩
    exact hpads.trim_eq hcore

/-- Nothing is left of blanks only. -/
lemma trim_eq_nil_iff : trim cs = [] ↔ ∀ c ∈ cs, isBlank c = true := by
  rw [trim_eq_iff]
  constructor
  · rintro ⟨-, before, after, hbefore, hafter, rfl⟩ c hc
    rw [List.append_nil, List.mem_append] at hc
    exact hc.elim (hbefore c) (hafter c)
  · intro h
    exact ⟨isTrimmed_of_forall (by simp), cs, [], h, by simp, by simp⟩

/-- Blanks that were dropped at the start make no difference. -/
lemma trim_dropWhile (cs : List Char) : trim (cs.dropWhile isBlank) = trim cs := by
  rw [trim_eq, trim_eq, List.dropWhile_idempotent]

/-- Blanks that were dropped at the end make no difference. -/
lemma trim_rdropWhile (cs : List Char) : trim (cs.rdropWhile isBlank) = trim cs := by
  obtain ⟨before, after, hbefore, hafter, hcs⟩ := pads_trim (cs.rdropWhile isBlank)
  have hpads : Pads (trim (cs.rdropWhile isBlank)) cs := by
    refine ⟨before, after ++ cs.rtakeWhile isBlank, hbefore, ?_, ?_⟩
    · intro c hc
      rcases List.mem_append.1 hc with hc | hc
      · exact hafter c hc
      · exact List.mem_rtakeWhile_imp hc
    · rw [← List.append_assoc, ← hcs, List.rdropWhile_append_rtakeWhile]
  exact (hpads.trim_eq (isTrimmed_trim _)).symm

/-- A text can be trimmed before it is cut at a character that is not blank, or after. -/
lemma breakFirst_trim {x : Char} (hx : isBlank x = false) (cs : List Char) :
    breakFirst x (trim cs) =
      (breakFirst x cs).map fun p => (p.1.dropWhile isBlank, p.2.rdropWhile isBlank) := by
  cases h : breakFirst x cs with
  | none =>
    have hcs := breakFirst_eq_none.1 h
    rw [Option.map_none, breakFirst_eq_none]
    exact fun hmem => hcs ((pads_trim cs).mem hmem)
  | some p =>
    obtain ⟨before, after⟩ := p
    obtain ⟨rfl, hbefore⟩ := breakFirst_eq_some.1 h
    rw [Option.map_some, breakFirst_eq_some, trim_append_cons hx]
    exact ⟨rfl, fun hmem => hbefore ((List.dropWhile_sublist _).mem hmem)⟩

end ClasspathIndex.Text
