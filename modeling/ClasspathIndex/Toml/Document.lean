import ClasspathIndex.Toml.Quoted
import ClasspathIndex.Toml.Scalar
import ClasspathIndex.Toml.Table

/-!
# TOML documents

A document is a sequence of lines, each with a header, an assignment or nothing, and
possibly a comment.  `Toml.parse` gives the entries of the document, or `none` for a text
that is no document.
-/

namespace ClasspathIndex.Toml

/-- Drops a comment, if one comes next. -/
def skipComment : List Char → List Char
  | '#' :: rest => rest.dropWhile isPlain
  | cs => cs

/-- Drops blanks, comments and line ends; `comment` says whether a comment has begun on the
line. -/
def skipLines : Bool → List Char → List Char
  | _, [] => []
  | comment, c :: cs =>
    if c = '\n' then skipLines false cs
    else if c = '\r' ∧ cs.head? = some '\n' then skipLines comment cs
    else if comment then if isPlain c then skipLines true cs else c :: cs
    else if c = ' ' ∨ c = '\t' then skipLines false cs
    else if c = '#' then skipLines true cs
    else c :: cs

/-- Drops what may stand between the values of an array. -/
def skipFiller (cs : List Char) : List Char :=
  skipLines false cs

/-- Whether a character may stand in a key without quotes. -/
def isBareKeyChar (c : Char) : Bool :=
  c.isAlphanum || c == '_' || c == '-'

/-- Reads a single key. -/
def simpleKey (cs : List Char) : Option (String × List Char) :=
  match quotedLine cs with
  | some (key, rest) => some (String.ofList key, rest)
  | none =>
    let key := cs.takeWhile isBareKeyChar
    if key.isEmpty then none else some (String.ofList key, cs.dropWhile isBareKeyChar)

/-- Reads keys between dots, at most `fuel` of them, with the blanks around them; gives the
path and the last key. -/
def dottedKey : Nat → List Char → Option (List String × String × List Char)
  | 0, _ => none
  | fuel + 1, cs => do
    let (key, rest) ← simpleKey (skipBlanks cs)
    match skipBlanks rest with
    | '.' :: rest =>
      let (path, last, rest) ← dottedKey fuel rest
      return (key :: path, last, rest)
    | rest => return ([], key, rest)

/-- Reads the path and the last key of a dotted key. -/
def keyPath (cs : List Char) : Option (List String × String × List Char) :=
  dottedKey cs.length cs

mutual

/-- Reads a value.  Every value and every step inside it takes at least one character, so
`fuel` bounds the number of characters. -/
def value : Nat → List Char → Option (Value × List Char)
  | 0, _ => none
  | _ + 1, [] => none
  | fuel + 1, c :: rest =>
    if c = '[' then do
      let (items, rest) ← arrayItems fuel (skipFiller rest)
      return (.array items, rest)
    else if c = '{' then
      match skipBlanks rest with
      | '}' :: rest => some (.table .inline [], rest)
      | rest => do
        let (entries, rest) ← inlineEntries fuel [] rest
        return (.table .inline entries, rest)
    else if c = '"' || c = '\'' then do
      let (text, rest) ← quoted (c :: rest)
      return (.text (String.ofList text), rest)
    else do
      return (.scalar, ← dropScalar? (c :: rest))

/-- Reads the values of an array up to its closing bracket; a comma may follow the last
one. -/
def arrayItems : Nat → List Char → Option (List Value × List Char)
  | 0, _ => none
  | fuel + 1, cs =>
    match cs with
    | ']' :: rest => some ([], rest)
    | _ => do
      let (item, rest) ← value fuel cs
      match skipFiller rest with
      | ',' :: rest =>
        let (items, rest) ← arrayItems fuel (skipFiller rest)
        return (item :: items, rest)
      | ']' :: rest => return ([item], rest)
      | _ => none

/-- Reads assignments up to the closing brace and adds them to the entries. -/
def inlineEntries : Nat → Entries → List Char → Option (Entries × List Char)
  | 0, _, _ => none
  | fuel + 1, entries, cs => do
    let (path, key, rest) ← keyPath cs
    match rest with
    | '=' :: rest =>
      let (v, rest) ← value fuel (skipBlanks rest)
      let entries ← entries.define key v path
      match skipBlanks rest with
      | ',' :: rest => inlineEntries fuel entries rest
      | '}' :: rest => return (entries, rest)
      | _ => none
    | _ => none

end

/-- Reads a statement that starts with `cs`. -/
def statement (cs : List Char) : Option (Statement × List Char) :=
  match cs with
  | '[' :: '[' :: rest => do
    let (path, key, rest) ← keyPath rest
    match rest with
    | ']' :: ']' :: rest => return (.arrayHeader path key, rest)
    | _ => none
  | '[' :: rest => do
    let (path, key, rest) ← keyPath rest
    match rest with
    | ']' :: rest => return (.header path key, rest)
    | _ => none
  | _ => do
    let (path, key, rest) ← keyPath cs
    match rest with
    | '=' :: rest =>
      let (v, rest) ← value (2 * rest.length + 2) (skipBlanks rest)
      return (.assign path key v, rest)
    | _ => none

/-- Reads statements, each on a line of its own; `fuel` bounds the number of lines. -/
def statements : Nat → List Char → Option (List Statement)
  | 0, _ => none
  | fuel + 1, cs =>
    match skipFiller cs with
    | [] => some []
    | cs => do
      let (s, rest) ← statement cs
      match skipComment (skipBlanks rest) with
      | [] => return [s]
      | rest => return s :: (← statements fuel (← newline? rest))

/-- The text without the mark that may stand before it. -/
def dropByteOrderMark : List Char → List Char
  | '\uFEFF' :: rest => rest
  | cs => cs

/-- The entries of a document. -/
def parse (text : String) : Option Entries :=
  let cs := dropByteOrderMark text.toList
  (statements (cs.length + 1) cs).bind Entries.ofStatements

end ClasspathIndex.Toml
