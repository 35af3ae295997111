import Accumulator.CommandLine.FileTree

/-!
# Scripts

* `Script` — what a command does with files and streams, as a tree: each node is one action, and
  what follows may depend on its answer.
* `Script.run` — carries a script out on a file tree, keeping what it prints.
-/

namespace Accumulator

/-- Actions that end in a result. -/
inductive Script (α : Type) where
  | done (result : α)
  | read (path : String) (next : Except FileError ByteArray → Script α)
  | write (path : String) (append : Bool) (bytes : ByteArray) (next : Except FileError Unit → Script α)
  | print (bytes : ByteArray) (next : Script α)
  | complain (text : String) (next : Script α)

namespace Script

variable {α β : Type}

/-- One script after the other. -/
def bind : Script α → (α → Script β) → Script β
  | done result, f => f result
  | read path next, f => read path fun answer => (next answer).bind f
  | write path append bytes next, f => write path append bytes fun answer => (next answer).bind f
  | print bytes next, f => print bytes (next.bind f)
  | complain text next, f => complain text (next.bind f)

instance : Monad Script where
  pure := done
  bind := bind

/-- Reads a file. -/
def readFile (path : String) : Script (Except FileError ByteArray) := read path done

/-- Writes a file. -/
def writeFile (path : String) (append : Bool) (bytes : ByteArray) : Script (Except FileError Unit) :=
  write path append bytes done

/-- Writes to the standard output. -/
def output (bytes : ByteArray) : Script Unit := print bytes (done ())

/-- Writes to the standard error stream. -/
def report (text : String) : Script Unit := complain text (done ())

end Script

/-- What a script acts on: the files, and what it has printed. -/
structure World where
  files : FileTree
  printed : ByteArray := ByteArray.empty
  complaints : String := ""

/-- Carries a script out. A write that fails leaves the files as they are. -/
def Script.run {α : Type} : Script α → World → α × World
  | done result, world => (result, world)
  | read path next, world => (next (world.files.read path)).run world
  | write path append bytes next, world =>
    match world.files.write path append bytes with
    | .ok files => (next (.ok ())).run { world with files }
    | .error error => (next (.error error)).run world
  | print bytes next, world => next.run { world with printed := world.printed ++ bytes }
  | complain text next, world => next.run { world with complaints := world.complaints ++ text }

end Accumulator
