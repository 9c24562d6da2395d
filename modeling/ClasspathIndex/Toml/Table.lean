/-!
# Tables in TOML

A table is filled by statements.  A statement names its place by a path of keys, and
tables that the path goes through come into being with it.  Whether a later statement may
add to a table depends on how it came into being, which its *form* records.
-/

namespace ClasspathIndex.Toml

/-- How a table came into being. -/
inductive TableForm where
  /-- Written between braces; complete from the start. -/
  | inline
  /-- Named by a header of its own. -/
  | header
  /-- Gone through by the path of a header. -/
  | passed
  /-- Gone through by the dotted key of a value. -/
  | dotted
  deriving DecidableEq, Repr

/-- A value. -/
inductive Value where
  | text (s : String)
  /-- A truth value, a number or a date. -/
  | scalar
  | array (items : List Value)
  | table (form : TableForm) (entries : List (String × Value))
  /-- Tables that share a header in double brackets, the latest one last. -/
  | tableArray (tables : List (List (String × Value)))

/-- The entries of a table, in the order in which they were written. -/
abbrev Entries := List (String × Value)

namespace Entries

/-- Replaces the value of a key. -/
def set (key : String) (value : Value) (es : Entries) : Entries :=
  es.map fun e => if e.1 = key then (key, value) else e

/-- Adds a value at the end of a path of dotted keys.  The path may only go through tables
that no header names, and must end in one made by dotted keys. -/
def define (key : String) (value : Value) : List String → Entries → Option Entries
  | [], es => if (es.lookup key).isSome then none else some (es ++ [(key, value)])
  | k :: path, es =>
    match es.lookup k with
    | none => do return es ++ [(k, .table .dotted (← define key value path []))]
    | some (.table form inner) =>
      if form = .dotted ∨ (form = .passed ∧ path ≠ []) then do
        return es.set k (.table form (← define key value path inner))
      else none
    | some _ => none

/-- Changes the table at the end of a header's path, and makes the tables on the way.  In an
array of tables the way goes on in the latest one. -/
def modifyAt (change : Entries → Option Entries) : List String → Entries → Option Entries
  | [], es => change es
  | k :: path, es =>
    match es.lookup k with
    | none => do return es ++ [(k, .table .passed (← modifyAt change path []))]
    | some (.table .inline _) => none
    | some (.table form inner) => do
      return es.set k (.table form (← modifyAt change path inner))
    | some (.tableArray tables) => do
      let latest ← tables.getLast?
      return es.set k (.tableArray (tables.dropLast ++ [← modifyAt change path latest]))
    | some _ => none

/-- Adds the table that a header names.  A table that headers only passed through so far
keeps its entries. -/
def openTable (key : String) (es : Entries) : Option Entries :=
  match es.lookup key with
  | none => some (es ++ [(key, .table .header [])])
  | some (.table .passed inner) =>
    some ((es.filter fun e => e.1 ≠ key) ++ [(key, .table .header inner)])
  | some _ => none

/-- Adds one more table to the array that a header in double brackets names. -/
def openArray (key : String) (es : Entries) : Option Entries :=
  match es.lookup key with
  | none => some (es ++ [(key, .tableArray [[]])])
  | some (.tableArray tables) => some (es.set key (.tableArray (tables ++ [[]])))
  | some _ => none

end Entries

/-- A statement of a document. -/
inductive Statement where
  /-- `[path.key]` -/
  | header (path : List String) (key : String)
  /-- `[[path.key]]` -/
  | arrayHeader (path : List String) (key : String)
  /-- `path.key = value` -/
  | assign (path : List String) (key : String) (value : Value)

/-- A document in the making: its entries, and the path of the table that values are added
to. -/
structure Draft where
  entries : Entries
  current : List String

namespace Draft

/-- Carries out a statement. -/
def apply (d : Draft) : Statement → Option Draft
  | .header path key => do
    return ⟨← d.entries.modifyAt (Entries.openTable key) path, path ++ [key]⟩
  | .arrayHeader path key => do
    return ⟨← d.entries.modifyAt (Entries.openArray key) path, path ++ [key]⟩
  | .assign path key value => do
    return ⟨← d.entries.modifyAt (Entries.define key value path) d.current, d.current⟩

end Draft

/-- The entries of the document that consists of the given statements. -/
def Entries.ofStatements (statements : List Statement) : Option Entries := do
  return (← statements.foldlM Draft.apply ⟨[], []⟩).entries

end ClasspathIndex.Toml
