import Accumulator.Text.Fields

/-!
# Locations

* `Location` — where a file lies: names that lead there from the root, or from the working directory
  or a directory above it.
* `Location.child`, `Location.parent`, `Location.encloses` — one step down, one step up, and what lies
  inside.
* `Location.ofPath` — where a path starts, and the names that it goes through.
-/

namespace Accumulator

/-- Where the names of a location start. The working directory is no level above itself. -/
inductive Base where
  | root
  | above (levels : Nat)
  deriving DecidableEq, Repr

/-- A base and the names that lead from there to a file. -/
structure Location where
  base : Base
  names : List (List Char) := []
  deriving DecidableEq, Repr

namespace Location

/-- The location that names lead to from the working directory. -/
def ofNames (names : List (List Char)) : Location := ⟨.above 0, names⟩

/-- What has the given name at a location. -/
def child (place : Location) (name : List Char) : Location :=
  { place with names := place.names ++ [name] }

/-- The directory in which a location lies. The root lies in itself. -/
def parent (place : Location) : Location :=
  if !place.names.isEmpty then { place with names := place.names.dropLast }
  else
    match place.base with
    | .root => place
    | .above levels => ⟨.above (levels + 1), []⟩

/-- Whether the second location lies inside the first one. -/
def encloses (place inner : Location) : Bool :=
  place.base == inner.base && place.names.isPrefixOf inner.names &&
    place.names.length < inner.names.length

/-- The file that is always empty: what is written to it is lost. -/
def nullDevice : Location := ⟨.root, ["dev".toList, "null".toList]⟩

/-- Directories that every system has at its root. -/
def rootDirectories : List Location :=
  ["dev", "etc", "home", "proc", "sys", "tmp", "usr", "var"].map fun name => ⟨.root, [name.toList]⟩

/-- Whether a location is a directory whatever the files are. -/
def isGiven (place : Location) : Bool := place.names.isEmpty || rootDirectories.contains place

/-- The location at which a path starts, and its names. -/
def ofPath (path : String) : Location × List (List Char) :=
  let base := if path.toList.head? == some '/' then .root else .above 0
  (⟨base, []⟩, Text.fields (· == '/') path.toList)

end Location

end Accumulator
