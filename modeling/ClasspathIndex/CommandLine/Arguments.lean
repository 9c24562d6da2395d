import ClasspathIndex.CommandLine.Options
import ClasspathIndex.Text.Split

/-!
# Reading the command line

A command line has options, a command, and the arguments and options of the command.
A value stands in the same word as its option after an equals sign, or in the next word
unless that word starts with a dash.  After a word of two dashes all words are arguments.

Which of two errors is told is part of the behaviour: the value of an option is looked at
when the next option or argument is recognised, or else at the end of the line; and what
follows a command is looked at before a value that stands right before the command.
-/

namespace ClasspathIndex.CommandLine

open Text

/-- What the program is asked to do. -/
inductive Command where
  /-- Resolve references, and tell the results as JSON or as lines. -/
  | resolve (references : List String) (json : Bool)
  /-- List every class of the index. -/
  | list
  deriving DecidableEq, Repr

/-- A command line that can be carried out. -/
structure Invocation where
  options : Options
  command : Command
  deriving DecidableEq, Repr

/-- A part of the command line: what stands before the command, or the words of a command. -/
inductive Scope where
  | program
  | resolve
  | list
  deriving DecidableEq, Repr

namespace Scope

/-- The flags that may be given. -/
def flags : Scope → List Flag
  | program => [.failOnDuplicates, .verbose, .help, .version]
  | resolve => [.failOnDuplicates, .verbose, .help, .json]
  | list => [.failOnDuplicates, .verbose, .help]

/-- The flag with the given name. -/
def flag? (s : Scope) (name : String) : Option Flag :=
  s.flags.find? fun f => f.name == name

/-- The flag with the given letter. -/
def letter? (s : Scope) (c : Char) : Option Flag :=
  s.flags.find? fun f => f.letter? == some c

end Scope

/-- An option whose value was not looked at yet; the value itself may be still to come. -/
structure Pending where
  option : ValueOption
  value : Option String
  deriving DecidableEq, Repr

/-- What was read of a part of the command line. -/
structure Draft where
  options : Options := {}
  pending : Option Pending := none
  references : List String := []
  json : Bool := false
  deriving DecidableEq, Repr

namespace Draft

/-- Looks at the value of the pending option. -/
def settle (d : Draft) : Except UsageError Draft :=
  match d.pending with
  | none => .ok d
  | some ⟨_, none⟩ => .error .invalidValue
  | some ⟨option, some value⟩ => do
    return { d with options := ← d.options.set option value, pending := none }

/-- The pending option that waits for its value. -/
def awaited? (d : Draft) : Option ValueOption :=
  match d.pending with
  | some ⟨option, none⟩ => some option
  | _ => none

/-- Takes in a flag. -/
def raise (d : Draft) (f : Flag) : Except UsageError Draft := do
  let d ← d.settle
  match f with
  | .help => .error .helpRequested
  | .version => .error .versionRequested
  | .verbose =>
    let verbosity := min (d.options.verbosity + 1) Options.maxVerbosity
    return { d with options := { d.options with verbosity := verbosity } }
  | .failOnDuplicates =>
    if d.options.failOnDuplicates then .error .repeatedOption
    else return { d with options := { d.options with failOnDuplicates := true } }
  | .json => if d.json then .error .repeatedOption else return { d with json := true }

/-- Takes in an option of several letters, given what follows the two dashes. -/
def long (scope : Scope) (d : Draft) (body : List Char) : Except UsageError Draft :=
  let (name, value) := match breakFirst '=' body with
    | some (name, value) => (String.ofList name, some (String.ofList value))
    | none => (String.ofList body, none)
  match ValueOption.all.find? fun o => o.name == name with
  | some option => do
    let d ← d.settle
    match value with
    | some value => return { d with options := ← d.options.set option value }
    | none => return { d with pending := some ⟨option, none⟩ }
  | none =>
    match scope.flag? name with
    | none => .error (.unknownArgument (String.ofList ('-' :: '-' :: body)))
    | some f => if value.isSome then .error .unexpectedValue else d.raise f

/-- Takes in flags, given their letters. -/
def short (scope : Scope) (d : Draft) (letters : List Char) : Except UsageError Draft :=
  letters.foldlM (fun d c =>
    match scope.letter? c with
    | none => .error (.unknownArgument (String.ofList ['-', c]))
    | some f => d.raise f) d

/-- Takes in an argument of a command. -/
def argument (scope : Scope) (d : Draft) (word : String) : Except UsageError Draft :=
  match scope with
  | .resolve => do
    let d ← d.settle
    return { d with references := d.references ++ [word] }
  | _ => .error (.unknownArgument word)

end Draft

/-- What a word is by its dashes. -/
inductive WordKind where
  /-- Two dashes alone. -/
  | dashes
  | long (body : List Char)
  | short (letters : List Char)
  | plain
  deriving DecidableEq, Repr

/-- The kind of a word; a single dash is a plain word. -/
def WordKind.of (word : String) : WordKind :=
  match word.toList with
  | ['-', '-'] => dashes
  | '-' :: '-' :: body => long body
  | ['-'] => plain
  | '-' :: letters => short letters
  | _ => plain

/-- Reads the words after a command. -/
def readCommand (scope : Scope) (d : Draft) : (afterDashes : Bool) → List String →
    Except UsageError Draft
  | _, [] => d.settle
  | true, word :: words => do readCommand scope (← d.argument scope word) true words
  | false, word :: words =>
    match WordKind.of word, d.awaited? with
    | .dashes, _ => readCommand scope d true words
    | .long body, _ => do readCommand scope (← d.long scope body) false words
    | .short letters, _ => do readCommand scope (← d.short scope letters) false words
    | .plain, some option =>
      readCommand scope { d with pending := some ⟨option, some word⟩ } false words
    | .plain, none => do readCommand scope (← d.argument scope word) false words

/-- The names of the commands that do some work. -/
def commandNames : List String := ["resolve", "list"]

/-- The name of the command that shows how to use the program, or another command. -/
def helpName : String := "help"

/-- What comes of asking for help on a sequence of commands. -/
def helpOn : List String → UsageError
  | [] => .helpRequested
  | word :: words =>
    if word ∈ helpName :: commandNames then
      match words with
      | [] => .helpRequested
      | next :: _ => .unknownCommand next
    else .unknownCommand word

/-- Reads the words after a command as a command. -/
def command (name : String) (words : List String) : Except UsageError (Options × Command) :=
  if name = "list" then do
    let d ← readCommand .list {} false words
    return (d.options, .list)
  else if name = "resolve" then do
    let d ← readCommand .resolve {} false words
    if d.references.isEmpty then .error .missingReferences
    else return (d.options, .resolve d.references d.json)
  else if name = helpName then .error (helpOn words)
  else .error (.unknownCommand name)

/-- What is wrong with a command line that ends before a command. -/
def withoutCommand (d : Draft) : UsageError :=
  match d.settle with
  | .error e => e
  | .ok d => if d.options = {} then .nothingGiven else .missingCommand

/-- Reads the words of a command line. -/
def readProgram (d : Draft) : List String → Except UsageError Invocation
  | [] => .error (withoutCommand d)
  | word :: words =>
    match WordKind.of word, d.awaited? with
    | .dashes, _ =>
      match words with
      | [] => .error (withoutCommand d)
      | word :: _ =>
        if word ∈ helpName :: commandNames then .error (.unknownArgument word)
        else .error (.unknownCommand word)
    | .long body, _ => do readProgram (← d.long .program body) words
    | .short letters, _ => do readProgram (← d.short .program letters) words
    | .plain, some option => readProgram { d with pending := some ⟨option, some word⟩ } words
    | .plain, none => do
      let (options, command) ← command word words
      return ⟨options.overlay (← d.settle).options, command⟩

/-- Reads a command line. -/
def parse (words : List String) : Except UsageError Invocation :=
  readProgram {} words

end ClasspathIndex.CommandLine
