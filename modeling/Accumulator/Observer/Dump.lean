import Accumulator.Machine.Run

/-!
# Dumps

A dump shows the registers, and the requested cells, as they are after an instruction.

* `DumpPlan` — the instructions to dump after, by address, with the cells to show for each.
* `DumpPlan.observer` — keeps the text of the dumps.
-/

namespace Accumulator

/-- What to dump. -/
structure DumpPlan where
  /-- The cells to show after the instruction at each of these addresses. -/
  requests : List (Address × List Address) := []
  /-- Whether to show the registers after every other instruction. -/
  all : Bool := false
  deriving DecidableEq, Repr

namespace DumpPlan

/-- Requests cells, in place of an earlier request for the same address. -/
def assign (pc : Address) (cells : List Address) :
    List (Address × List Address) → List (Address × List Address)
  | [] => [(pc, cells)]
  | entry :: rest => if entry.1 = pc then (pc, cells) :: rest else entry :: assign pc cells rest

/-- The requests that a list makes one after the other. -/
def requestsOf (entries : List (Address × List Address)) : List (Address × List Address) :=
  entries.foldl (fun requests entry => assign entry.1 entry.2 requests) []

/-- The cells to show after the instruction at an address. -/
def cells? (plan : DumpPlan) (pc : Address) : Option (List Address) := plan.requests.lookup pc

/-- The line above and below a block. -/
def rule : String := " +------------------------------------------------+\n"

/-- The lines in front of a run. -/
def header (plan : DumpPlan) : String :=
  (if plan.all then " * Dump all\n" else "") ++
    if plan.requests.isEmpty then ""
    else " * Dump[" ++ Text.decimal plan.requests.length ++ "]\n"

/-- The block of registers after an instruction. -/
def registers (tick : Nat) (r : Retired) (m : Machine) : String :=
  rule ++
    " | [" ++ Text.paddedDecimal 4 tick ++ "] " ++ Text.hex 4 r.pc.toNat ++ ": " ++
      Text.padRight 30 r.instruction.text ++ " |\n" ++
    " | " ++ Register.accumulator.format m.accumulator.toNat ++ " | " ++
      Register.programCounter.format m.pc ++ " | " ++ m.flags.text ++ " |\n" ++
    rule

/-- The row of a cell. -/
def row (m : Machine) (address : Address) : String :=
  let word :=
    match m.word? address with
    | some word => Text.hex 8 word.toNat
    | none => "--------"
  " | " ++ Text.hex 4 address.toNat ++ " : " ++ Text.padRight 37 word ++ "|\n"

/-- The rows of the requested cells. -/
def memory (m : Machine) (cells : List Address) : String := String.join (cells.map (row m)) ++ rule

/-- The dump after an instruction. -/
def entry (plan : DumpPlan) (tick : Nat) (r : Retired) (m : Machine) : String :=
  match plan.cells? r.pc with
  | some cells => registers tick r m ++ memory m cells
  | none => if plan.all then registers tick r m else ""

/-- Keeps the dumps. -/
def observer (plan : DumpPlan) : Observer String where
  start _ text := text ++ plan.header
  retired tick r m text := text ++ plan.entry tick r m

end DumpPlan

end Accumulator
