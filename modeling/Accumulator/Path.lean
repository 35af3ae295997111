import Accumulator.Text.Fields

/-!
# Paths

* `Path.components` — the names on the way; empty ones and single dots are no step.
* `Path.fileName?`, `Path.stem`, `Path.extension?` — the last name and its two halves.
* `Path.withExtension` — replaces the extension of a name.
* `Path.defaultOutput` — where the artifact of a source goes: the stem of the source, in the current
  directory, with the extension `json` in place of one that the stem may have itself.
-/

namespace Accumulator.Path

/-- The names on the way. -/
def components (path : List Char) : List (List Char) :=
  (Text.fields (· == '/') path).filter (· != ['.'])

/-- The last name, unless the path ends at a root, at the current directory or at a parent. -/
def fileName? (path : List Char) : Option (List Char) :=
  (components path).getLast?.filter (· != ['.', '.'])

/-- A name in front of its last dot and behind it. A dot in the first place separates nothing. -/
def splitName (name : List Char) : List Char × Option (List Char) :=
  let behind := (name.reverse.takeWhile (· != '.')).reverse
  let front := name.take (name.length - behind.length - 1)
  if front.isEmpty then (name, none) else (front, some behind)

/-- The name without its extension. -/
def stem (name : List Char) : List Char := (splitName name).1

/-- The extension of a name. -/
def extension? (name : List Char) : Option (List Char) := (splitName name).2

/-- A path of one name with an extension added behind its stem. A path without a file name stays as
it is. -/
def addExtension (extension path : List Char) : List Char :=
  match fileName? path with
  | none => path
  | some name => stem name ++ '.' :: extension

/-- A path of one name with its extension replaced: the old one is cut off behind its dot, and what
is left is a path that the new one is added to. -/
def withExtension (extension path : List Char) : List Char :=
  match (fileName? path).bind extension? with
  | none => addExtension extension path
  | some old => addExtension extension (path.take (path.length - old.length))

/-- The default artifact of a source. -/
def defaultOutput (source : String) : String :=
  match fileName? source.toList with
  | none => source
  | some name => String.ofList (withExtension "json".toList (stem name))

end Accumulator.Path
