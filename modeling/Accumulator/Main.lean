import Accumulator.CommandLine.Assembler
import Accumulator.CommandLine.Simulator

/-!
# The program

The first argument names the command, and the others are its arguments. The actions of its script
are carried out on the files and streams of the process.
-/

namespace Accumulator

/-- The number of an error. Some actions give it with its sign turned. -/
def errorNumber (code : UInt32) : UInt32 := if code < 0x80000000 then code else 0 - code

/-- The cause of a failed action. -/
def FileError.ofAction : IO.Error → FileError
  | .noFileOrDirectory _ _ _ => .notFound
  | .inappropriateType _ code details =>
    if errorNumber code = 21 then .isDirectory
    else if errorNumber code = 20 then .notDirectory
    else .other details
  | .invalidArgument _ code details =>
    if errorNumber code = 36 then .nameTooLong else .other details
  | .permissionDenied _ code details =>
    .other (details ++ " (os error " ++ toString (errorNumber code) ++ ")")
  | error => .other (toString error)

/-- The value of an action on a path, or the cause of its failure. -/
def attempt {α : Type} (path : String) (action : String → IO α) : IO (Except FileError α) := do
  match FileTree.pathError? path with
  | some error => pure (.error error)
  | none =>
    try
      let value ← action path
      pure (.ok value)
    catch error => pure (.error (FileError.ofAction error))

/-- Writes bytes to a file, behind its content or in place of it. -/
def writeBytes (append : Bool) (bytes : ByteArray) (path : String) : IO Unit := do
  let handle ← IO.FS.Handle.mk path (if append then .append else .write)
  handle.write bytes
  handle.flush

/-- Carries a script out. -/
def Script.perform {α : Type} : Script α → IO α
  | done result => pure result
  | read path next => do (next (← attempt path (IO.FS.readBinFile ·))).perform
  | write path append bytes next => do (next (← attempt path (writeBytes append bytes))).perform
  | print bytes next => do
    let stdout ← IO.getStdout
    stdout.write bytes
    stdout.flush
    next.perform
  | complain text next => do
    IO.eprint text
    next.perform

/-- More instructions than any run retires. -/
def patience : Nat := 0x4000000000000000

end Accumulator

/-- Runs the command that the first argument names. -/
def main (arguments : List String) : IO UInt32 := do
  match arguments with
  | "acasm" :: rest => pure (UInt32.ofNat (← (Accumulator.Assembler.command rest).perform))
  | "acemu" :: rest =>
    let status ← (Accumulator.Simulator.command Accumulator.patience rest).perform
    pure (UInt32.ofNat (status.getD Accumulator.failureStatus))
  | _ => do
    IO.eprintln "usage: (acasm | acemu) [ARGUMENTS]"
    pure (UInt32.ofNat Accumulator.refusalStatus)
