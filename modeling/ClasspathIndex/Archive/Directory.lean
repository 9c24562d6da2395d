import ClasspathIndex.Archive.EndRecord
import ClasspathIndex.Archive.ExtraField
import ClasspathIndex.Archive.Inflate
import ClasspathIndex.Archive.Reader

/-!
# Archives

An archive holds members, each behind a header of its own, then a directory of all
members, and an end record that says where the directory is.  Members are found through
the directory.  Foreign bytes may stand before the first member and after the end record:
the end record is searched from the end of the file.  A directory is of use only if all its
entries are sound, and every member starts before it.

`open?` gives the members of a readable archive, and `Member.content?` the bytes of a
readable member.  Together they are the standard reader, which reads members that are stored
as they are or deflated, and no others.
-/

namespace ClasspathIndex.Archive

/-- Reads a directory entry; the places given in the archive are too small by `shift`. -/
def Member.read? (shift : Nat) (bs : Bytes) : Option (Member × Bytes) := do
  let (record, bs) ← Bytes.splitExact? entrySize bs
  if !entryMark.isPrefixOf record then none
  else
    let (name, bs) ← Bytes.splitExact? (number record 28 2) bs
    let (extra, bs) ← Bytes.splitExact? (number record 30 2) bs
    let (comment, bs) ← Bytes.splitExact? (number record 32 2) bs
    let m ← (Member.ofRecord record name comment).complete? extra
    return ({ m with headerPlace := m.headerPlace + shift }, bs)

/-- Reads the given number of directory entries. -/
def readEntries (shift : Nat) : Nat → Bytes → Option (List Member)
  | 0, _ => some []
  | n + 1, bs => do
    let (m, bs) ← Member.read? shift bs
    return m :: (← readEntries shift n bs)

/-- The entries of a directory, if every member starts before the directory. -/
def Location.members? (file : Bytes) (l : Location) : Option (List Member) :=
  (readEntries l.shift l.entries (file.drop l.place)).filter fun members =>
    members.all fun m => decide (m.headerPlace < l.place)

/-- The members of an archive, in the order of its directory; a member with the name of an
earlier one takes its place.  The last usable end record counts. -/
def open? (file : Bytes) : Option Listing :=
  ((placesOf endMark 0 file).reverse.findSome? fun place =>
    (EndRecord.read? file place).bind fun r =>
      (r.location? file).bind fun l => l.members? file).map fun entries =>
        entries.foldl Registry.put .empty

/-- The stored bytes of a member: they follow its header, as far as the file reaches. -/
def Member.stored? (file : Bytes) (m : Member) : Option Bytes := do
  let (header, rest) ← Bytes.splitExact? 30 (file.drop m.headerPlace)
  if headerMark.isPrefixOf header then
    return (rest.drop (number header 26 2 + number header 28 2)).take m.compressedSize
  else none

/-- The content of a member that is neither encrypted nor damaged, and is stored as it is
or deflated. -/
def Member.content? (file : Bytes) (m : Member) : Option Bytes := do
  if m.encrypted || m.cipher.isSome then none
  else
    let data ← m.stored? file
    let content ←
      match m.method with
      | 0 => some data
      | 8 => inflate data
      | _ => none
    if (Archive.checksum content).toNat = m.checksum then return content else none

/-- The standard reader. -/
instance reader : ArchiveReader where
  open? := open?
  content? file m := m.content? file

end ClasspathIndex.Archive
