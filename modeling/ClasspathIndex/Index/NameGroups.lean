import ClasspathIndex.Registry
import ClasspathIndex.Symbol

/-!
# Groups of classes with the same simple name

Classes stand in the order in which they were found.  The places of those that share a simple
name form a group; the groups are gathered class by class, and each keeps the order of the
classes.
-/

namespace ClasspathIndex

/-- The places of the classes that share a simple name. -/
structure NameGroup where
  name : String
  places : List Nat
  deriving DecidableEq, Repr

/-- Groups with distinct names. -/
abbrev NameGroups := Registry NameGroup NameGroup.name

namespace NameGroups

/-- The places in the group of a name; none if there is no such group. -/
def placesOf (groups : NameGroups) (name : String) : List Nat :=
  (groups.find? name).elim [] NameGroup.places

/-- Adds a place to the group of a name, which is opened if there is none. -/
def addPlace (groups : NameGroups) (name : String) (place : Nat) : NameGroups :=
  groups.put ⟨name, groups.placesOf name ++ [place]⟩

/-- The groups of classes in the given order. -/
def ofClasses (classes : List ClassSymbol) : NameGroups :=
  classes.zipIdx.foldl (fun groups c => groups.addPlace c.1.simpleName c.2) .empty

/-- The classes that share a simple name, in order. -/
def members (groups : NameGroups) (classes : List ClassSymbol) (name : String) :
    List ClassSymbol :=
  (groups.placesOf name).filterMap fun place => classes[place]?

end NameGroups

end ClasspathIndex
