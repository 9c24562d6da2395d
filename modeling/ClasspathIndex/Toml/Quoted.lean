/-!
# Quoted text in TOML

TOML has four kinds of quoted text: basic text between double quotes, in which a
backslash starts an escape, literal text between single quotes, in which nothing does, and
both of them between three quotes, where they may run over several lines.  Lines end with
a line feed, with or without a carriage return before it; in a value it is always a line
feed alone.
-/

namespace ClasspathIndex.Toml

/-- Whether a character may stand in quoted text and in comments: a tab, or no control
character. -/
def isPlain (c : Char) : Bool :=
  c == '\t' || (decide (0x20 ≤ c.toNat) && c.toNat != 0x7F)

/-- Drops blanks within a line. -/
def skipBlanks (cs : List Char) : List Char :=
  cs.dropWhile fun c => c == ' ' || c == '\t'

/-- Drops the end of a line, if one comes next. -/
def newline? : List Char → Option (List Char)
  | '\n' :: rest => some rest
  | '\r' :: '\n' :: rest => some rest
  | _ => none

/-- The value of a hexadecimal digit. -/
def hexDigit? (c : Char) : Option Nat :=
  if c.isDigit then some (c.toNat - '0'.toNat)
  else if 'a' ≤ c ∧ c ≤ 'f' then some (c.toNat - 'a'.toNat + 10)
  else if 'A' ≤ c ∧ c ≤ 'F' then some (c.toNat - 'A'.toNat + 10)
  else none

/-- The character whose number is written by hexadecimal digits. -/
def charOfHex? (digits : List Char) : Option Char := do
  let ds ← digits.mapM hexDigit?
  let n := ds.foldl (fun n d => 16 * n + d) 0
  if n.isValidChar then some (Char.ofNat n) else none

/-- The character that an escape of one letter stands for. -/
def escape? : Char → Option Char
  | 'b' => some '\x08'
  | 't' => some '\t'
  | 'n' => some '\n'
  | 'f' => some '\x0c'
  | 'r' => some '\r'
  | '"' => some '"'
  | '\\' => some '\\'
  | _ => none

/-- Reads basic text after its opening quote. -/
def basicText : List Char → Option (List Char × List Char)
  | '"' :: rest => some ([], rest)
  | '\\' :: 'u' :: a :: b :: c :: d :: rest => do
    let x ← charOfHex? [a, b, c, d]
    let (text, rest) ← basicText rest
    return (x :: text, rest)
  | '\\' :: 'U' :: a :: b :: c :: d :: e :: f :: g :: h :: rest => do
    let x ← charOfHex? [a, b, c, d, e, f, g, h]
    let (text, rest) ← basicText rest
    return (x :: text, rest)
  | '\\' :: e :: rest => do
    let x ← escape? e
    let (text, rest) ← basicText rest
    return (x :: text, rest)
  | c :: rest =>
    if isPlain c then do
      let (text, rest) ← basicText rest
      return (c :: text, rest)
    else none
  | [] => none

/-- Reads basic text over several lines after its opening quotes.  With `joining`, blanks
and line ends are passed over: a backslash at the end of a line joins it with the next
text.  Up to two quotes may stand before the closing ones. -/
def basicLines (joining : Bool) : List Char → Option (List Char × List Char)
  | '"' :: '"' :: '"' :: '"' :: '"' :: rest => some (['"', '"'], rest)
  | '"' :: '"' :: '"' :: '"' :: rest => some (['"'], rest)
  | '"' :: '"' :: '"' :: rest => some ([], rest)
  | '\\' :: 'u' :: a :: b :: c :: d :: rest => do
    let x ← charOfHex? [a, b, c, d]
    let (text, rest) ← basicLines false rest
    return (x :: text, rest)
  | '\\' :: 'U' :: a :: b :: c :: d :: e :: f :: g :: h :: rest => do
    let x ← charOfHex? [a, b, c, d, e, f, g, h]
    let (text, rest) ← basicLines false rest
    return (x :: text, rest)
  | '\\' :: e :: rest =>
    match escape? e with
    | some x => do
      let (text, rest) ← basicLines false rest
      return (x :: text, rest)
    | none =>
      if (newline? (skipBlanks (e :: rest))).isSome then basicLines true (e :: rest) else none
  | '\r' :: '\n' :: rest =>
    if joining then basicLines true rest
    else do
      let (text, rest) ← basicLines false rest
      return ('\n' :: text, rest)
  | c :: rest =>
    if joining && (c == ' ' || c == '\t' || c == '\n') then basicLines true rest
    else if isPlain c || c == '\n' then do
      let (text, rest) ← basicLines false rest
      return (c :: text, rest)
    else none
  | [] => none

/-- Reads literal text after its opening quote. -/
def literalText : List Char → Option (List Char × List Char)
  | '\'' :: rest => some ([], rest)
  | c :: rest =>
    if isPlain c then do
      let (text, rest) ← literalText rest
      return (c :: text, rest)
    else none
  | [] => none

/-- Reads literal text over several lines after its opening quotes.  Up to two quotes may
stand before the closing ones. -/
def literalLines : List Char → Option (List Char × List Char)
  | '\'' :: '\'' :: '\'' :: '\'' :: '\'' :: rest => some (['\'', '\''], rest)
  | '\'' :: '\'' :: '\'' :: '\'' :: rest => some (['\''], rest)
  | '\'' :: '\'' :: '\'' :: rest => some ([], rest)
  | '\r' :: '\n' :: rest => do
    let (text, rest) ← literalLines rest
    return ('\n' :: text, rest)
  | c :: rest =>
    if isPlain c || c == '\n' then do
      let (text, rest) ← literalLines rest
      return (c :: text, rest)
    else none
  | [] => none

/-- Reads quoted text of one line. -/
def quotedLine : List Char → Option (List Char × List Char)
  | '"' :: rest => basicText rest
  | '\'' :: rest => literalText rest
  | _ => none

/-- Reads quoted text of any kind; a line end right after three opening quotes is dropped. -/
def quoted : List Char → Option (List Char × List Char)
  | '"' :: '"' :: '"' :: rest => basicLines false ((newline? rest).getD rest)
  | '\'' :: '\'' :: '\'' :: rest => literalLines ((newline? rest).getD rest)
  | cs => quotedLine cs

end ClasspathIndex.Toml
