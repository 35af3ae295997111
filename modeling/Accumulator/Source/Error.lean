import Accumulator.Text.Digits

/-!
# What can be wrong with a source

* `AssemblyError` — each cause with the text or number that the report names.
* `AssemblyError.errorClass` — whether a line cannot be read or cannot be placed and resolved.
* `LineError` — an error on its line; lines count from one.
-/

namespace Accumulator

/-- What an argument had to be. -/
inductive ArgumentRole where
  | address
  | port
  | word
  | immediate
  deriving DecidableEq, Repr

/-- The role as it is printed. -/
def ArgumentRole.text : ArgumentRole → String
  | .address => "address"
  | .port => "port"
  | .word => "word"
  | .immediate => "16-bit immediate"

/-- An error in one line of a source. -/
inductive AssemblyError where
  | unknownOperation (operation : String)
  | missingArgument (operation : String)
  | extraArgument (argument : String)
  | unreadableArgument (argument : String) (role : ArgumentRole)
  | invalidLabel (name : String)
  | undefinedLabel (name : String)
  | redefinedLabel (name : String) (firstLine : Nat)
  | addressOverflow (address : Nat)
  | overlap (cell line : Nat)
  deriving DecidableEq, Repr

/-- The two kinds of error. -/
inductive ErrorClass where
  | reading
  | resolution
  deriving DecidableEq, Repr

/-- The class as it is printed. -/
def ErrorClass.text : ErrorClass → String
  | .reading => "syntax error"
  | .resolution => "resolution error"

namespace AssemblyError

/-- The class of an error. -/
def errorClass : AssemblyError → ErrorClass
  | .unknownOperation _ | .missingArgument _ | .extraArgument _ | .unreadableArgument _ _
  | .invalidLabel _ => .reading
  | .undefinedLabel _ | .redefinedLabel _ _ | .addressOverflow _ | .overlap _ _ => .resolution

/-- A text of the source between back quotes. -/
def quoted (text : String) : String := "\x60" ++ text ++ "\x60"

/-- The error as it is printed. -/
def message : AssemblyError → String
  | .unknownOperation operation => "Unknown operation: " ++ quoted operation
  | .missingArgument operation => quoted operation ++ " requires an argument"
  | .extraArgument argument => "Unexpected argument: " ++ quoted argument
  | .unreadableArgument argument role => "Cannot parse " ++ quoted argument ++ " as " ++ role.text
  | .invalidLabel name => "Syntax Error: invalid label " ++ quoted name
  | .undefinedLabel name => "Undefined label: " ++ quoted name
  | .redefinedLabel name firstLine =>
    "Re-defined label: " ++ quoted name ++ " (first defined on line " ++ Text.decimal firstLine ++
      ")"
  | .addressOverflow address =>
    "Address 0x" ++ Text.hex 1 address ++ " is outside of the 16-bit address space"
  | .overlap cell line =>
    "Cell 0x" ++ Text.hex 4 cell ++ " is already occupied by line " ++ Text.decimal line

end AssemblyError

/-- An error on a line. -/
structure LineError where
  line : Nat
  error : AssemblyError
  deriving DecidableEq, Repr

/-- The error as it is printed, with its line. -/
def LineError.message (e : LineError) : String :=
  "line " ++ Text.decimal e.line ++ ": " ++ e.error.message

end Accumulator
