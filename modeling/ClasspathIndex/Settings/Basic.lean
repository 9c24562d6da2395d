import ClasspathIndex.Archive.Directory
import ClasspathIndex.Classpath.Entries
import ClasspathIndex.Index.Build
import ClasspathIndex.Linker
import ClasspathIndex.Toml.Document

/-!
# Settings

Settings say which classes are indexed, where they are looked for, and how links to them
are written.  `Settings.ofToml?` reads them from a document; every setting may be left
out, and any other key makes the document useless.
-/

namespace ClasspathIndex

namespace Toml.Value

/-- The text of a value that is a text. -/
def text? : Value → Option String
  | text s => some s
  | _ => none

/-- The texts of an array of texts. -/
def texts? : Value → Option (List String)
  | array items => items.mapM text?
  | _ => none

/-- Whether a value is a table or an array without content. -/
def isBlank : Value → Bool
  | array items => items.isEmpty
  | table _ entries => entries.isEmpty
  | tableArray tables => tables.isEmpty
  | _ => false

/-- The word of a setting that has a fixed choice of words.  The word may also be given as
the key of a blank value that is all that a table holds. -/
def choice? : Value → Option String
  | text s => some s
  | table _ [(word, v)] => if v.isBlank then some word else none
  | _ => none

end Toml.Value

/-- The policy with the given word. -/
def DuplicatePolicy.ofWord? (word : String) : Option DuplicatePolicy :=
  [lastWriteWins, fail].find? fun policy => policy.word == word

/-- The style with the given word. -/
def AnchorStyle.ofWord? (word : String) : Option AnchorStyle :=
  [legacy, modern].find? fun style => style.word == word

/-- Which classes are indexed, and how links to them are written. -/
structure Settings where
  /-- The namespace of the classes; empty for all classes. -/
  basePackage : String := ""
  /-- Directories and archives; an entry may hold several of them. -/
  classpath : List String := []
  duplicates : DuplicatePolicy := .lastWriteWins
  /-- Where documentation is published, if links are wanted. -/
  javadocUrl : Option String := none
  anchorStyle : AnchorStyle := .legacy
  deriving DecidableEq, Repr

namespace Settings

/-- The single paths of the class path. -/
def roots (s : Settings) : List Path :=
  (Classpath.split s.classpath).map Path.ofString

/-- Changes the setting with the given key. -/
def set (s : Settings) (key : String) (value : Toml.Value) : Option Settings :=
  if key = "base-package" then do return { s with basePackage := ← value.text? }
  else if key = "classpath" then do return { s with classpath := ← value.texts? }
  else if key = "duplicate-classes" then do
    return { s with duplicates := ← DuplicatePolicy.ofWord? (← value.choice?) }
  else if key = "javadoc-url" then do return { s with javadocUrl := some (← value.text?) }
  else if key = "anchor-style" then do
    return { s with anchorStyle := ← AnchorStyle.ofWord? (← value.choice?) }
  else none

/-- The settings of a document. -/
def ofToml? (text : String) : Option Settings := do
  (← Toml.parse text).foldlM (fun s entry => s.set entry.1 entry.2) {}

/-- The index of the classes that the settings select; archives are read by the standard
reader. -/
def buildIndex (s : Settings) (tree : FileTree) : Except BuildError Index :=
  Index.build tree s.duplicates s.roots s.basePackage

/-- The linker, if links are wanted. -/
def linker? (s : Settings) : Option Linker :=
  s.javadocUrl.map fun url => Linker.ofUrl url s.anchorStyle

end Settings

end ClasspathIndex
