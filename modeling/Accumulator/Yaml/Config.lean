import Accumulator.Config
import Accumulator.Yaml.Reader

/-!
# Settings in YAML

* `Config.ofYaml?` — the settings that a value holds. Every setting may be left out; an unknown or a
  repeated one is refused.
* `Config.decode`, `Config.read` — the settings, and the configuration, in a YAML text.

The reader knows the part of YAML that settings are commonly written in: collections in blocks and in
brackets, plain and quoted scalars, comments, one document. It refuses block scalars, tags, anchors,
aliases and directives. Nothing that is said of runs depends on it: there a reader is given.
-/

namespace Accumulator

namespace Yaml

/-- Whether a value is what stands where nothing is written. -/
def isBlank : Yaml → Bool
  | .scalar true "" => true
  | _ => false

/-- The text of a scalar. -/
def text? : Yaml → Option String
  | .scalar _ text => some text
  | _ => none

/-- The value of a plain scalar that is a natural number below `bound`: in decimal without leading
zeros, or in another radix behind its mark. A plus sign may stand in front. -/
def naturalBelow? (bound : Nat) : Yaml → Option Nat
  | .scalar true text =>
    let unsigned :=
      match text.toList with
      | '+' :: rest => rest
      | text => text
    let value :=
      match unsigned with
      | '0' :: 'x' :: digits => Text.ofDigits? 16 digits
      | '0' :: 'o' :: digits => Text.ofDigits? 8 digits
      | '0' :: 'b' :: digits => Text.ofDigits? 2 digits
      | ['0'] => some 0
      | '0' :: _ => none
      | digits => Text.ofDigits? 10 digits
    value.filter (· < bound)
  | _ => none

/-- The value of a plain scalar that is a truth value. -/
def boolean? : Yaml → Option Bool
  | .scalar true text =>
    if ["true", "True", "TRUE"].contains text then some true
    else if ["false", "False", "FALSE"].contains text then some false
    else none
  | _ => none

/-- Whether a value says that there is none. -/
def isNull : Yaml → Bool
  | .scalar true text => ["", "~", "null", "Null", "NULL"].contains text
  | _ => false

/-- The items of a sequence; nothing is an empty one. -/
def items? : Yaml → Option (List Yaml)
  | .sequence items => some items
  | value => if value.isBlank then some [] else none

/-- The entries of a mapping; nothing is an empty one. -/
def entries? : Yaml → Option (List (Yaml × Yaml))
  | .mapping entries => some entries
  | value => if value.isBlank then some [] else none

/-- The settings of a mapping, by name. Every name is one of those given and occurs once. -/
def settings? (names : List String) (value : Yaml) : Option (List (String × Yaml)) := do
  let entries ← value.entries?
  let settings ← entries.mapM fun entry => entry.1.text?.map (·, entry.2)
  let used := settings.map (·.1)
  if used.all names.contains && used.eraseDups.length == used.length then some settings else none

end Yaml

namespace Config

/-- What a reader makes of a setting, or the default if it is left out. -/
def setting {α : Type} (settings : List (String × Yaml)) (name : String) (default : α)
    (reader : Yaml → Option α) : Option α :=
  match settings.lookup name with
  | none => some default
  | some value => reader value

/-- An address. -/
def address? (value : Yaml) : Option Address :=
  (value.naturalBelow? addressSpace).map UInt16.ofNat

/-- The cells that a dump shows. -/
def cells? (value : Yaml) : Option (List Address) := do
  let settings ← value.settings? ["memory"]
  setting settings "memory" [] fun value => value.items?.bind fun items => items.mapM address?

/-- The dumps, by address. A repeated address counts with its last dump. -/
def dump? (value : Yaml) : Option (List (Address × List Address)) := do
  let entries ← value.entries?
  let requests ← entries.mapM fun (pc, request) => do some (← address? pc, ← cells? request)
  some (DumpPlan.requestsOf requests)

/-- The settings that a value holds. -/
def ofYaml? (value : Yaml) : Option Config := do
  let settings ← value.settings? ["memory_size", "tmax", "log", "truncate_log", "dump"]
  let unset : Config := {}
  some {
    memorySize := ← setting settings "memory_size" unset.memorySize (Yaml.naturalBelow? UInt64.size)
    limit := ← setting settings "tmax" unset.limit fun value =>
      if value.isNull then some none else (value.naturalBelow? UInt64.size).map some
    log := ← setting settings "log" unset.log Yaml.text?
    truncateLog := ← setting settings "truncate_log" unset.truncateLog Yaml.boolean?
    dump := ← setting settings "dump" unset.dump dump? }

/-- The settings in a YAML text. -/
def decode : Decoder := fun text =>
  match Yaml.read? text.toList with
  | none => .error "the text is not YAML that this reader knows"
  | some value =>
    match ofYaml? value with
    | none => .error "the value does not hold settings"
    | some config => .ok config

/-- The configuration in a YAML text. -/
def read (text : String) : Except ConfigError Config := readWith decode text

end Config

end Accumulator
