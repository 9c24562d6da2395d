import ClasspathIndex.Settings.Basic

/-!
# Settings files

Settings are read from a file of a file tree.  An error is told as a chain of texts: what
was to be done comes first, and each further text is the cause of the one before.
-/

namespace ClasspathIndex

/-- Why a file has no text. -/
inductive ReadError where
  | noFile (error : PathError)
  /-- The content is not valid UTF-8. -/
  | notText
  deriving DecidableEq, Repr

/-- The error in the words of the system. -/
def ReadError.message : ReadError → String
  | noFile error => error.message
  | notText => "stream did not contain valid UTF-8"

/-- The text of the file that a path leads to. -/
def FileTree.readText (tree : FileTree) (p : Path) : Except ReadError String :=
  match tree.readFile p with
  | .error e => .error (.noFile e)
  | .ok content =>
    match Text.Utf8.decode? content with
    | some text => .ok text
    | none => .error .notText

namespace Settings

/-- Why a settings file is of no use. -/
inductive LoadError where
  | unreadable (path : String) (cause : ReadError)
  | malformed (path : String)
  deriving DecidableEq, Repr

/-- What was to be done, and the causes of the failure. -/
def LoadError.chain : LoadError → List String
  | unreadable path cause =>
    ["failed to load '" ++ path ++ "'",
      "unable to read configuration '" ++ path ++ "': " ++ cause.message,
      cause.message]
  | malformed path => ["failed to load '" ++ path ++ "'", "invalid configuration"]

/-- The name of the settings file in the working directory. -/
def defaultFile : String := "classdex.toml"

/-- Reads a settings file. -/
def load (tree : FileTree) (path : String) : Except LoadError Settings :=
  match tree.readText (Path.ofString path) with
  | .error cause => .error (.unreadable path cause)
  | .ok text =>
    match ofToml? text with
    | none => .error (.malformed path)
    | some s => .ok s

/-- Reads the named settings file, or the one of the working directory if there is one. -/
def loadOrDefault (tree : FileTree) (path : Option String) : Except LoadError Settings :=
  match path with
  | some path => load tree path
  | none => if tree.isFile (Path.ofString defaultFile) then load tree defaultFile else .ok {}

end Settings

end ClasspathIndex
