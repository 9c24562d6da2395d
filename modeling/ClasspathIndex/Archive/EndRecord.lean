import ClasspathIndex.Archive.Record

/-!
# End records

The end record of an archive says where its directory is and how many entries it has.  If
these numbers are too large for it, a large end record holds them; a locator right before
the end record leads to that one.  Foreign bytes may stand before the first member: the
distance between the place that is given for the directory, or for the large end record,
and the place where it is found shifts all other places.

`EndRecord.location?` gives the directory that an end record leads to.
-/

namespace ClasspathIndex.Archive

/-- The directory of an archive. -/
structure Location where
  /-- By how much the places given in the archive are too small. -/
  shift : Nat
  /-- Where the first entry is. -/
  place : Nat
  /-- The number of entries. -/
  entries : Nat
  deriving DecidableEq, Repr

/-! ## Large end records -/

/-- What leads to the large end record. -/
structure Locator where
  /-- Where the locator is. -/
  place : Nat
  directoryDisk : Nat
  /-- Where the large end record is, before any shift. -/
  recordPlace : Nat
  /-- The number of disks. -/
  disks : Nat

/-- The size of a locator. -/
def Locator.size : Nat := 20

/-- The locator before a place, if there is one. -/
def Locator.before? (file : Bytes) (place : Nat) : Option Locator :=
  if place < Locator.size then none
  else
    match Bytes.splitExact? Locator.size (file.drop (place - Locator.size)) with
    | none => none
    | some (record, _) =>
      if locatorMark.isPrefixOf record then
        some {
          place := place - Locator.size
          directoryDisk := number record 4 4
          recordPlace := number record 8 8
          disks := number record 16 4 }
      else none

/-- An end record with room for large numbers. -/
structure LargeEndRecord where
  /-- Where the record was found. -/
  place : Nat
  /-- The number of bytes after the first twelve. -/
  size : Nat
  versionMadeBy : Nat
  versionNeeded : Nat
  disk : Nat
  directoryDisk : Nat
  /-- The number of entries that are in this file. -/
  entriesHere : Nat
  entriesTotal : Nat
  /-- Where the directory starts, before any shift. -/
  directoryPlace : Nat

/-- The large end record at a place. -/
def LargeEndRecord.read? (file : Bytes) (place : Nat) : Option LargeEndRecord :=
  (Bytes.splitExact? 56 (file.drop place)).map fun (record, _) =>
    { place := place
      size := number record 4 8
      versionMadeBy := number record 12 2
      versionNeeded := number record 14 2
      disk := number record 16 4
      directoryDisk := number record 20 4
      entriesHere := number record 24 8
      entriesTotal := number record 32 8
      directoryPlace := number record 48 8 }

/-- The least size of a directory entry. -/
def entrySize : Nat := 46

/-- Whether a record can be the one that a locator leads to: it reaches to the locator, and
the directory fits before it. -/
def Locator.fits (l : Locator) (r : LargeEndRecord) : Bool :=
  decide (44 ≤ r.size) && r.place + 12 + r.size == l.place &&
    r.directoryDisk == l.directoryDisk &&
    decide (r.directoryPlace + entrySize * r.entriesTotal ≤ r.place)

/-- The record that a locator leads to: the first that fits, at or after its given place. -/
def Locator.record? (file : Bytes) (l : Locator) : Option LargeEndRecord :=
  ((placesBetween largeEndMark l.recordPlace l.place file).filterMap
    (LargeEndRecord.read? file)).find? l.fits

/-- The directory that a locator leads to, if it is all in this file. -/
def Locator.location? (file : Bytes) (l : Locator) : Option Location := do
  if 1 < l.disks then none
  else
    let r ← l.record? file
    if r.entriesTotal < r.entriesHere ∨ r.versionMadeBy < r.versionNeeded ∨
        r.disk ≠ r.directoryDisk then none
    else
      let shift := r.place - l.recordPlace
      return ⟨shift, r.directoryPlace + shift, r.entriesTotal⟩

/-! ## End records -/

/-- The end record of an archive. -/
structure EndRecord where
  /-- Where the record was found. -/
  place : Nat
  disk : Nat
  directoryDisk : Nat
  /-- The number of entries that are in this file. -/
  entriesHere : Nat
  entriesTotal : Nat
  /-- Where the directory starts, before any shift. -/
  directoryPlace : Nat

namespace EndRecord

/-- The end record at a place.  Its comment must fit into the file. -/
def read? (file : Bytes) (place : Nat) : Option EndRecord :=
  match Bytes.splitExact? 22 (file.drop place) with
  | none => none
  | some (record, rest) =>
    if rest.length < number record 20 2 then none
    else
      some {
        place := place
        disk := number record 4 2
        directoryDisk := number record 6 2
        entriesHere := number record 8 2
        entriesTotal := number record 10 2
        directoryPlace := number record 16 4 }

/-- Whether the numbers of the record may stand for larger ones. -/
def mayBeLarge (r : EndRecord) : Bool :=
  r.entriesTotal == 0xFFFF || r.directoryPlace == 0xFFFFFFFF

/-- By how much the places given in the archive are too small.  In an archive with
entries, the directory is where the first entry is found at or after its given place. -/
def shift? (file : Bytes) (r : EndRecord) : Option Nat :=
  if r.entriesTotal = 0 then some (r.place - r.directoryPlace)
  else
    (placesBetween entryMark r.directoryPlace r.place file).head?.map
      fun place => place - r.directoryPlace

/-- The directory that the record describes itself, if it is all in this file. -/
def ownLocation? (file : Bytes) (r : EndRecord) : Option Location := do
  if r.disk ≠ r.directoryDisk then none
  else
    let shift ← r.shift? file
    return ⟨shift, r.directoryPlace + shift, r.entriesHere⟩

/-- The directory that the record leads to. -/
def location? (file : Bytes) (r : EndRecord) : Option Location :=
  if r.mayBeLarge then
    match Locator.before? file r.place with
    | some l => l.location? file
    | none => r.ownLocation? file
  else r.ownLocation? file

end EndRecord

end ClasspathIndex.Archive
