/-!
# JSON

`Json.pretty` writes a value over several lines, each level indented by two blanks more
than the one around it.  Arrays and objects without content are written as `[]` and
`{}`.  Characters beyond ASCII are written as they are.
-/

namespace ClasspathIndex

/-- A value. -/
inductive Json where
  | text (s : String)
  | boolean (b : Bool)
  | array (items : List Json)
  /-- Named values, in order. -/
  | object (fields : List (String × Json))

namespace Json

/-- The digit of a number below 16. -/
def hexDigit (n : Nat) : Char :=
  "0123456789abcdef".toList.getD n '0'

/-- A character as it stands between quotes. -/
def escapeChar (c : Char) : List Char :=
  if c = '"' then ['\\', '"']
  else if c = '\\' then ['\\', '\\']
  else if c = '\x08' then ['\\', 'b']
  else if c = '\t' then ['\\', 't']
  else if c = '\n' then ['\\', 'n']
  else if c = '\x0c' then ['\\', 'f']
  else if c = '\r' then ['\\', 'r']
  else if c < ' ' then
    ['\\', 'u', '0', '0', hexDigit (c.toNat / 16), hexDigit (c.toNat % 16)]
  else [c]

/-- A text between quotes. -/
def quote (s : String) : String :=
  "\"" ++ String.ofList (s.toList.flatMap escapeChar) ++ "\""

/-- The start of a line at the given depth. -/
def newLine (depth : Nat) : String :=
  "\n" ++ String.ofList (List.replicate (2 * depth) ' ')

/-- Parts between two brackets, each on lines of its own. -/
def block (opening closing : String) (depth : Nat) (parts : List String) : String :=
  if parts.isEmpty then opening ++ closing
  else
    opening ++ String.intercalate "," (parts.map fun part => newLine (depth + 1) ++ part) ++
      newLine depth ++ closing

mutual

/-- A value that starts at the given depth. -/
def prettyAt (depth : Nat) : Json → String
  | text s => quote s
  | boolean b => if b then "true" else "false"
  | array items => block "[" "]" depth (prettyItems (depth + 1) items)
  | object fields => block "\x7b" "\x7d" depth (prettyFields (depth + 1) fields)

/-- The items of an array. -/
def prettyItems (depth : Nat) : List Json → List String
  | [] => []
  | item :: items => prettyAt depth item :: prettyItems depth items

/-- The fields of an object. -/
def prettyFields (depth : Nat) : List (String × Json) → List String
  | [] => []
  | (name, value) :: fields =>
    (quote name ++ ": " ++ prettyAt depth value) :: prettyFields depth fields

end

/-- A value on lines of its own. -/
def pretty (value : Json) : String :=
  prettyAt 0 value

end Json

end ClasspathIndex
