/-!
# Command-line arguments

* `Grammar` — the switches, the options with a value and the operands of a command.
* `Grammar.parse` — sorts arguments, in order. A switch or option may be given once; a value may
  follow its option or be joined to it. Two dashes make operands of all that follows. A request for
  help or for the version ends the reading, and so does the first mistake.
-/

namespace Accumulator

/-- An option of a command. A switch takes no value. -/
structure OptionSpec where
  name : String
  letter : Option Char := none
  isSwitch : Bool := false
  /-- Whether a text may be the value. -/
  accepts : String → Bool := fun value => !value.isEmpty

/-- What a command takes. -/
structure Grammar where
  options : List OptionSpec
  /-- The names of the operands that have to be there, then of those that need not. -/
  required : List String
  optional : List String := []

/-- The sorted arguments. -/
structure Arguments where
  operands : List String := []
  switches : List String := []
  values : List (String × String) := []
  deriving DecidableEq, Repr

/-- Why a command does not run. -/
inductive Refusal where
  | help
  | version
  | mistake (description : String)
  deriving DecidableEq, Repr

namespace Arguments

/-- Whether a switch is set. -/
def isSet (arguments : Arguments) (name : String) : Bool := arguments.switches.contains name

/-- The value of an option. -/
def value? (arguments : Arguments) (name : String) : Option String := arguments.values.lookup name

end Arguments

namespace Grammar

/-- An argument that is not known. -/
def unexpected (argument : String) : Refusal :=
  .mistake ("unexpected argument '" ++ argument ++ "' found")

/-- One more operand. -/
def addOperand (g : Grammar) (arguments : Arguments) (operand : String) :
    Except Refusal Arguments :=
  if (g.required ++ g.optional).length ≤ arguments.operands.length then
    .error (unexpected operand)
  else if operand.isEmpty then .error (.mistake "a value is required but none was supplied")
  else .ok { arguments with operands := arguments.operands ++ [operand] }

/-- One more switch. -/
def addSwitch (arguments : Arguments) (name : String) : Except Refusal Arguments :=
  if arguments.isSet name then
    .error (.mistake ("the argument '--" ++ name ++ "' cannot be used multiple times"))
  else .ok { arguments with switches := arguments.switches ++ [name] }

/-- One more value. -/
def addValue (arguments : Arguments) (option : OptionSpec) (value : String) :
    Except Refusal Arguments :=
  if (arguments.value? option.name).isSome then
    .error (.mistake ("the argument '--" ++ option.name ++ "' cannot be used multiple times"))
  else if option.accepts value then
    .ok { arguments with values := arguments.values ++ [(option.name, value)] }
  else .error (.mistake ("invalid value '" ++ value ++ "' for '--" ++ option.name ++ "'"))

/-- An option whose value is missing. -/
def lacksValue (option : OptionSpec) : Refusal :=
  .mistake ("a value is required for '--" ++ option.name ++ "' but none was supplied")

/-- Letters behind one dash. A letter that takes a value takes the rest of them; if there is none,
the option is returned, and its value is the next argument. -/
def addLetters (g : Grammar) (argument : String) (arguments : Arguments) :
    List Char → Except Refusal (Arguments × Option OptionSpec)
  | [] => .ok (arguments, none)
  | 'h' :: _ => .error .help
  | 'V' :: _ => .error .version
  | letter :: rest =>
    match g.options.find? fun option => option.letter == some letter with
    | none => .error (unexpected argument)
    | some option =>
      if option.isSwitch then do
        let arguments ← addSwitch arguments option.name
        g.addLetters argument arguments rest
      else
        match rest with
        | [] => .ok (arguments, some option)
        | '=' :: value => do .ok (← addValue arguments option (String.ofList value), none)
        | value => do .ok (← addValue arguments option (String.ofList value), none)

/-- A name behind two dashes, with a value if one is joined to it by an equals sign. -/
def addName (g : Grammar) (argument : String) (arguments : Arguments) (text : List Char) :
    Except Refusal (Arguments × Option OptionSpec) :=
  let name := String.ofList (text.takeWhile (· != '='))
  let joined :=
    match text.dropWhile (· != '=') with
    | [] => none
    | _ :: value => some (String.ofList value)
  match name, joined with
  | "help", none => .error .help
  | "version", none => .error .version
  | _, _ =>
    match g.options.find? (·.name == name), joined with
    | none, _ => .error (unexpected argument)
    | some option, none =>
      if option.isSwitch then do .ok (← addSwitch arguments option.name, none)
      else .ok (arguments, some option)
    | some option, some value =>
      if option.isSwitch then .error (.mistake ("unexpected value for '--" ++ name ++ "' found"))
      else do .ok (← addValue arguments option value, none)

/-- Reads further arguments. The value of the option `open?` comes first, if it is set. -/
def parseFrom (g : Grammar) (arguments : Arguments) (open? : Option OptionSpec) :
    List String → Except Refusal Arguments
  | [] =>
    match open? with
    | some option => .error (lacksValue option)
    | none => .ok arguments
  | argument :: rest =>
    match open?, argument.toList with
    | some option, '-' :: _ :: _ => .error (lacksValue option)
    | some option, _ => do g.parseFrom (← addValue arguments option argument) none rest
    | none, ['-', '-'] => rest.foldlM g.addOperand arguments
    | none, '-' :: '-' :: text => do
      let (arguments, open?) ← g.addName argument arguments text
      g.parseFrom arguments open? rest
    | none, '-' :: letter :: letters => do
      let (arguments, open?) ← g.addLetters argument arguments (letter :: letters)
      g.parseFrom arguments open? rest
    | none, _ => do g.parseFrom (← g.addOperand arguments argument) none rest

/-- The sorted arguments of a call. -/
def parse (g : Grammar) (arguments : List String) : Except Refusal Arguments := do
  let arguments ← g.parseFrom {} none arguments
  match g.required[arguments.operands.length]? with
  | some name => .error (.mistake ("the argument <" ++ name ++ "> was not provided"))
  | none => .ok arguments

end Grammar

end Accumulator
