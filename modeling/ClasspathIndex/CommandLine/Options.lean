import ClasspathIndex.Settings.Load

/-!
# Options of the command line

Options change settings or say where they are read from.  An option takes a value, or it
is a flag.  Options may stand before the command and after it; what stands after it takes
precedence, as `Options.overlay` says.
-/

namespace ClasspathIndex.CommandLine

/-- Why a command line is not carried out. -/
inductive UsageError where
  | helpRequested
  | versionRequested
  /-- The command line is empty. -/
  | nothingGiven
  | missingCommand
  | unknownCommand (word : String)
  | unknownArgument (word : String)
  /-- The value of an option is missing or not allowed. -/
  | invalidValue
  /-- An option is given twice. -/
  | repeatedOption
  /-- A flag is given a value. -/
  | unexpectedValue
  | missingReferences
  deriving DecidableEq, Repr

/-- The exit status of a program that stops with the error. -/
def UsageError.exitStatus : UsageError → Nat
  | helpRequested => 0
  | versionRequested => 0
  | _ => 2

/-- An option that takes a value. -/
inductive ValueOption where
  | config
  | basePackage
  | classpath
  | javadocUrl
  | anchorStyle
  deriving DecidableEq, Repr

/-- The name of an option after two dashes. -/
def ValueOption.name : ValueOption → String
  | config => "config"
  | basePackage => "base-package"
  | classpath => "classpath"
  | javadocUrl => "javadoc-url"
  | anchorStyle => "anchor-style"

/-- All options that take a value. -/
def ValueOption.all : List ValueOption :=
  [config, basePackage, classpath, javadocUrl, anchorStyle]

/-- An option without a value. -/
inductive Flag where
  | failOnDuplicates
  | verbose
  | json
  | help
  | version
  deriving DecidableEq, Repr

/-- The name of a flag after two dashes. -/
def Flag.name : Flag → String
  | failOnDuplicates => "fail-on-duplicates"
  | verbose => "verbose"
  | json => "json"
  | help => "help"
  | version => "version"

/-- The letter of a flag after one dash. -/
def Flag.letter? : Flag → Option Char
  | verbose => some 'v'
  | help => some 'h'
  | version => some 'V'
  | failOnDuplicates => none
  | json => none

/-- The options of a command line. -/
structure Options where
  /-- The settings file. -/
  config : Option String := none
  basePackage : Option String := none
  classpath : List String := []
  javadocUrl : Option String := none
  anchorStyle : Option AnchorStyle := none
  failOnDuplicates : Bool := false
  /-- How much is logged. -/
  verbosity : Nat := 0
  deriving DecidableEq, Repr

namespace Options

/-- The value of an option that is given for the first time. -/
def once {α : Type} (earlier : Option α) (value : α) : Except UsageError (Option α) :=
  if earlier.isSome then .error .repeatedOption else .ok (some value)

/-- Gives a value to an option.  The class path grows; every other option takes one value. -/
def set (os : Options) (o : ValueOption) (value : String) : Except UsageError Options :=
  match o with
  | .config => do
    let config ← once os.config value
    if value.isEmpty then .error .invalidValue else .ok { os with config := config }
  | .basePackage => do return { os with basePackage := ← once os.basePackage value }
  | .classpath => .ok { os with classpath := os.classpath ++ [value] }
  | .javadocUrl => do return { os with javadocUrl := ← once os.javadocUrl value }
  | .anchorStyle =>
    if os.anchorStyle.isSome then .error .repeatedOption
    else
      match AnchorStyle.ofWord? value with
      | some style => .ok { os with anchorStyle := some style }
      | none => .error .invalidValue

/-- The highest verbosity that is counted. -/
def maxVerbosity : Nat := 255

/-- The options after the command together with those before it. -/
def overlay (later earlier : Options) : Options where
  config := later.config <|> earlier.config
  basePackage := later.basePackage <|> earlier.basePackage
  classpath := if later.classpath.isEmpty then earlier.classpath else later.classpath
  javadocUrl := later.javadocUrl <|> earlier.javadocUrl
  anchorStyle := later.anchorStyle <|> earlier.anchorStyle
  failOnDuplicates := later.failOnDuplicates || earlier.failOnDuplicates
  verbosity := if later.verbosity = 0 then earlier.verbosity else later.verbosity

/-- The settings that the options make of those of the settings file. -/
def adjust (os : Options) (s : Settings) : Settings where
  basePackage := os.basePackage.getD s.basePackage
  classpath := if os.classpath.isEmpty then s.classpath else os.classpath
  duplicates := if os.failOnDuplicates then .fail else s.duplicates
  javadocUrl := os.javadocUrl <|> s.javadocUrl
  anchorStyle := os.anchorStyle.getD s.anchorStyle

/-- The settings that apply under the options. -/
def settings (os : Options) (tree : FileTree) : Except Settings.LoadError Settings := do
  return os.adjust (← Settings.loadOrDefault tree os.config)

end Options

end ClasspathIndex.CommandLine
