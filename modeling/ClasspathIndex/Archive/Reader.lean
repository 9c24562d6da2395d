import ClasspathIndex.Archive.Member
import ClasspathIndex.Registry

/-!
# Readers of archives

Which files are archives and which of their members can be read is left to a reader of
archives.  What is found in the roots of a class path depends on it, and on nothing else
about archives: all that is asked of a reader is that the members it tells of an archive
have distinct names.
-/

namespace ClasspathIndex

/-- The members of an archive, with distinct names. -/
abbrev Archive.Listing :=
  Registry Archive.Member Archive.Member.name

/-- A way to read archives. -/
class ArchiveReader where
  /-- The members of a readable archive, in the order of its directory. -/
  open? (file : Bytes) : Option Archive.Listing
  /-- The content of a readable member. -/
  content? (file : Bytes) (m : Archive.Member) : Option Bytes

end ClasspathIndex
