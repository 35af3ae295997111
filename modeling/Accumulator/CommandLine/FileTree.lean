import Accumulator.CommandLine.Location

/-!
# File trees

* `FileError` — why a file cannot be used.
* `FileTree` — files by their locations. A directory exists as long as an entry lies in it, some always.
* `FileTree.makeDirectory` — the entry of a directory itself, under the name of a dot. No path leads to it,
  since a dot in a path leads nowhere else.
* `FileTree.read`, `FileTree.write` — look a path up, name by name.
-/

namespace Accumulator

/-- Why a file cannot be used. -/
inductive FileError where
  | notFound
  | isDirectory
  | notDirectory
  | nameTooLong
  | nameHoldsNul
  | invalidText
  | other (description : String)
  deriving DecidableEq, Repr

/-- The error as it is printed. -/
def FileError.message : FileError → String
  | .notFound => "No such file or directory (os error 2)"
  | .isDirectory => "Is a directory (os error 21)"
  | .notDirectory => "Not a directory (os error 20)"
  | .nameTooLong => "File name too long (os error 36)"
  | .nameHoldsNul => "file name contained an unexpected NUL byte"
  | .invalidText => "stream did not contain valid UTF-8"
  | .other description => description

/-- The text of a file. -/
def FileError.decodeText (bytes : ByteArray) : Except FileError String :=
  match String.fromUTF8? bytes with
  | some text => .ok text
  | none => .error .invalidText

/-- Files with their locations, and directories with the locations of their own entries. -/
structure FileTree where
  files : List (Location × ByteArray) := []

namespace FileTree

/-- The content of the file at a location. -/
def file? (tree : FileTree) (place : Location) : Option ByteArray :=
  if place = Location.nullDevice then some ByteArray.empty else tree.files.lookup place

/-- Whether a location is a directory. -/
def isDirectory (tree : FileTree) (place : Location) : Bool :=
  place.isGiven || tree.files.any fun file => place.encloses file.1

/-- Puts content at a location, in place of what is there. -/
def assign (place : Location) (bytes : ByteArray) :
    List (Location × ByteArray) → List (Location × ByteArray)
  | [] => [(place, bytes)]
  | file :: rest => if file.1 = place then (place, bytes) :: rest else file :: assign place bytes rest

/-- The entry that a directory has for itself. -/
def ownEntry (place : Location) : Location := place.child ['.']

/-- The tree with a directory, which may be empty. -/
def makeDirectory (tree : FileTree) (place : Location) : FileTree :=
  ⟨assign (ownEntry place) ByteArray.empty tree.files⟩

/-- The number of bytes that a name may have. -/
def nameLimit : Nat := 255

/-- The number of bytes that a path may have. -/
def pathLimit : Nat := 4095

/-- Where the names of a path lead from a location. Every step starts in a directory. -/
def walk (tree : FileTree) (place : Location) : List (List Char) → Except FileError Location
  | [] => .ok place
  | name :: rest =>
    if tree.isDirectory place then
      if name = ['.'] then tree.walk place rest
      else if name = ['.', '.'] then tree.walk place.parent rest
      else if nameLimit < (String.ofList name).utf8ByteSize then .error .nameTooLong
      else tree.walk (place.child name) rest
    else if (tree.file? place).isSome then .error .notDirectory
    else .error .notFound

/-- Why a path leads nowhere, whatever the files are. -/
def pathError? (path : String) : Option FileError :=
  if path.toList.contains '\x00' then some .nameHoldsNul
  else if path.isEmpty then some .notFound
  else if pathLimit < path.utf8ByteSize then some .nameTooLong
  else none

/-- Whether a path ends in a slash. -/
def endsInSlash (path : String) : Bool := path.toList.getLast? == some '/'

/-- Where a path leads. A slash behind a name asks for a directory. -/
def locate (tree : FileTree) (path : String) : Except FileError Location :=
  match pathError? path with
  | some error => .error error
  | none =>
    let (place, names) := Location.ofPath path
    tree.walk place (if endsInSlash path then names ++ [['.']] else names)

/-- The content of a file. -/
def read (tree : FileTree) (path : String) : Except FileError ByteArray := do
  let place ← tree.locate path
  if tree.isDirectory place then .error .isDirectory
  else
    match tree.file? place with
    | some bytes => .ok bytes
    | none => .error .notFound

/-- Where a path leads that is written to. A last name with a slash behind it is taken for a directory
before it is looked up. -/
def locateTarget (tree : FileTree) (path : String) : Except FileError Location :=
  match pathError? path with
  | some error => .error error
  | none => do
    let (place, names) := Location.ofPath path
    if endsInSlash path then
      let _ ← tree.walk place (names.dropLast ++ [['.']])
      .error .isDirectory
    else
      let place ← tree.walk place names
      if tree.isDirectory place then .error .isDirectory else .ok place

/-- The tree after bytes were written to a file: behind its content, or in place of it. -/
def write (tree : FileTree) (path : String) (append : Bool) (bytes : ByteArray) :
    Except FileError FileTree := do
  let place ← tree.locateTarget path
  if place = Location.nullDevice then .ok tree
  else
    let before := if append then (tree.file? place).getD ByteArray.empty else ByteArray.empty
    .ok ⟨assign place (before ++ bytes) tree.files⟩

end FileTree

end Accumulator
