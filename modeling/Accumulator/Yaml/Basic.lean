/-!
# YAML values

* `Yaml` — scalars, sequences and mappings. A scalar keeps its text and whether it was written
  without quotes, because only a plain scalar is ever a number, a truth value or null.
-/

namespace Accumulator

/-- A YAML value. -/
inductive Yaml where
  | scalar (plain : Bool) (text : String)
  | sequence (items : List Yaml)
  | mapping (entries : List (Yaml × Yaml))

/-- The value that stands where nothing is written. -/
def Yaml.blank : Yaml := .scalar true ""

end Accumulator
