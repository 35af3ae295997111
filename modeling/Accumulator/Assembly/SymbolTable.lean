import Accumulator.Word

/-!
# Symbol tables

* `SymbolTable` — names with the line that defined each and the address it is bound to.
* `SymbolTable.define` — binds a name; the first definition of a name stays.
-/

namespace Accumulator

/-- Where a label was defined and the address it is bound to. -/
structure Symbol where
  line : Nat
  address : Address
  deriving DecidableEq, Repr

/-- The labels of a program, the latest first. -/
structure SymbolTable where
  entries : List (String × Symbol) := []
  deriving DecidableEq, Repr

namespace SymbolTable

/-- The symbol of a name. -/
def find? (table : SymbolTable) (name : String) : Option Symbol := table.entries.lookup name

/-- The address of a name. -/
def address? (table : SymbolTable) (name : String) : Option Address :=
  (table.find? name).map (·.address)

/-- The table with one more name, or the symbol that the name has already. -/
def define (table : SymbolTable) (name : String) (symbol : Symbol) : Except Symbol SymbolTable :=
  match table.find? name with
  | some first => .error first
  | none => .ok ⟨(name, symbol) :: table.entries⟩

/-- The names and their symbols in the order of definition. -/
def toList (table : SymbolTable) : List (String × Symbol) := table.entries.reverse

theorem find?_define {table next : SymbolTable} {name : String} {symbol : Symbol}
    (h : table.define name symbol = .ok next) (other : String) :
    next.find? other = if other = name then some symbol else table.find? other := by
  unfold define at h
  split at h
  · cases h
  · cases h
    simp only [find?, List.lookup_cons]
    by_cases hn : other = name
    · simp [hn]
    · simp [hn, beq_false_of_ne hn]

end SymbolTable

end Accumulator
