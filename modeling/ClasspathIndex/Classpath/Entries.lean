import ClasspathIndex.Text.Blank

/-!
# Class paths

A class path lists directories and archives.  An entry may hold several of them with
colons between; parts that are empty or blank are dropped.
-/

namespace ClasspathIndex.Classpath

/-- The single paths of a class path, in order. -/
def split (entries : List String) : List String :=
  entries.flatMap fun entry =>
    ((entry.toList.splitOn ':').filter fun part => !Text.allBlank part).map String.ofList

end ClasspathIndex.Classpath
