import Accumulator.Observer.Transcript
import Accumulator.Proofs.Machine.Faulting
import Accumulator.Proofs.Observer.Log

/-!
# The dumps of a run

* `DumpPlan.headerLines`, `registerLines`, `cellLine`, `entryLines` — the lines of a dump, written out.
* `header_eq`, `registers_eq`, `row_eq`, `entry_eq` — what is printed are these lines.
* `DumpPlan.lines` — the lines of a whole run: the header, then what each retired instruction is given,
  with the machine right behind it.
* `dump_of_run` — a run prints the lines of its retired instructions, and nothing else.
-/

namespace Accumulator

open Text

namespace DumpPlan

/-! ## The lines of a dump -/

/-- The line above and below a block. -/
def ruleLine : String := " +------------------------------------------------+"

/-- One line if every instruction is dumped, and one with the number of requests if there are any. -/
def headerLines (plan : DumpPlan) : List String :=
  (if plan.all then [" * Dump all"] else []) ++
    if plan.requests = [] then [] else [" * Dump[" ++ decimal plan.requests.length ++ "]"]

/-- The registers behind the instruction `r`: between two rules its tick, its address and its text, then the
accumulator, the program counter and the flags. -/
def registerLines (tick : Nat) (r : Retired) (m : Machine) : List String :=
  [ruleLine,
    " | [" ++ paddedDecimal 4 tick ++ "] " ++ hex 4 r.pc.toNat ++ ": " ++
      padRight 30 r.instruction.text ++ " |",
    " | AC=0x" ++ hex 8 m.accumulator.toNat ++ " | PC=0x" ++ hex 4 m.pc ++ " | Z=" ++
      Flags.digit m.flags.zero ++ " C=" ++ Flags.digit m.flags.carry ++ " |",
    ruleLine]

/-- A cell and its word, or dashes for a cell outside of the memory. -/
def cellLine (m : Machine) (address : Address) : String :=
  " | " ++ hex 4 address.toNat ++ " : " ++
    (match m.memory[address.toNat]? with
      | some word => hex 8 word.toNat
      | none => "--------") ++
    String.ofList (List.replicate 29 ' ') ++ "|"

/-- What is dumped behind the instruction `r`: the registers and the cells if there is a request for its
address, else the registers if every instruction is dumped, else nothing. -/
def entryLines (plan : DumpPlan) (tick : Nat) (r : Retired) (m : Machine) : List String :=
  match plan.requests.lookup r.pc with
  | some cells => registerLines tick r m ++ cells.map (cellLine m) ++ [ruleLine]
  | none => if plan.all then registerLines tick r m else []

/-- The lines of a run of `m` that retires instructions. The machine behind the `i`-th of them is the one
after `i + 1` steps. -/
def lines (plan : DumpPlan) (m : Machine) (rs : List Retired) : List String :=
  plan.headerLines ++ (rs.mapIdx fun i r => plan.entryLines i r (m.stepped (i + 1))).flatten

/-! ## What is printed -/

theorem header_eq (plan : DumpPlan) : plan.header = unlines plan.headerLines := by
  apply String.toList_injective
  unfold header headerLines
  cases plan.all <;> cases plan.requests <;> simp [toList_unlines]

theorem rule_eq : rule = ruleLine ++ "\n" := rfl

theorem registers_eq (tick : Nat) (r : Retired) (m : Machine) :
    registers tick r m = unlines (registerLines tick r m) := by
  have hend : " |\n" = " |" ++ "\n" := rfl
  have haccumulator : " | AC=0x" = " | " ++ ("AC" ++ "=0x") := rfl
  have hcounter : " | PC=0x" = " | " ++ ("PC" ++ "=0x") := rfl
  have hflags : " | Z=" = " | " ++ "Z=" := rfl
  -- the equation behind `unfold` takes seconds to derive for so many literals
  delta registers
  simp only [registerLines, rule_eq, Register.format, Register.name, Register.width, Flags.text,
    unlines_cons, unlines_nil, hend, haccumulator, hcounter, hflags, String.append_assoc,
    String.append_empty]

/-- A word is written with eight digits. -/
theorem length_hex_word (word : Word) : (hex 8 word.toNat).toList.length = 8 := by
  have hdigits : (Nat.toDigits 16 word.toNat).length ≤ 8 :=
    (Nat.length_toDigits_le_iff (by decide) (by decide)).mpr (UInt32.toNat_lt word)
  rw [hex, padLeft, String.toList_ofList, List.length_leftpad, String.toList_ofList, List.length_map]
  exact Nat.max_eq_left hdigits

theorem padRight_eq {text : String} {width : Nat} :
    padRight width text = text ++ String.ofList (List.replicate (width - text.toList.length) ' ') := by
  apply String.toList_injective
  simp [padRight, List.rightpad]

theorem row_eq (m : Machine) (address : Address) : row m address = cellLine m address ++ "\n" := by
  apply String.toList_injective
  unfold row cellLine Machine.word?
  cases m.memory[address.toNat]? with
  | none => simp [padRight_eq]
  | some word => simp [padRight_eq, length_hex_word]

theorem memory_eq (m : Machine) (cells : List Address) :
    memory m cells = unlines (cells.map (cellLine m) ++ [ruleLine]) := by
  have hrows : cells.map (row m) = (cells.map (cellLine m)).map (· ++ "\n") := by
    rw [List.map_map]
    exact List.map_congr_left fun address _ => row_eq m address
  rw [memory, hrows, rule_eq, unlines_append, unlines_cons, unlines_nil, String.append_empty]
  rfl

theorem entry_eq (plan : DumpPlan) (tick : Nat) (r : Retired) (m : Machine) :
    plan.entry tick r m = unlines (plan.entryLines tick r m) := by
  unfold entry entryLines cells?
  cases plan.requests.lookup r.pc with
  | some cells =>
    simp only
    rw [registers_eq, memory_eq, ← unlines_append, List.append_assoc]
  | none => cases plan.all <;> simp [registers_eq]

/-! ## Every line is printable -/

theorem printable_ruleLine : Printable ruleLine := by decide

theorem printable_registerLines (tick : Nat) (r : Retired) (m : Machine) :
    ∀ line ∈ registerLines tick r m, Printable line := by
  have hdigit : ∀ flag, Printable (Flags.digit flag) := by decide
  simp only [registerLines, List.forall_mem_cons, printable_ruleLine, printable_append,
    printable_paddedDecimal, printable_hex, printable_padRight, Instruction.printable_text, hdigit,
    true_and, and_true]
  exact ⟨by decide, by decide, List.forall_mem_nil _⟩

theorem printable_cellLine (m : Machine) (address : Address) : Printable (cellLine m address) := by
  unfold cellLine
  split <;> simp only [printable_append, printable_hex, and_true] <;> decide

theorem printable_entryLines (plan : DumpPlan) (tick : Nat) (r : Retired) (m : Machine) :
    ∀ line ∈ plan.entryLines tick r m, Printable line := by
  unfold entryLines
  split
  · next cells _ =>
    intro line hline
    simp only [List.mem_append, List.mem_map, List.mem_singleton] at hline
    rcases hline with (hline | ⟨address, -, rfl⟩) | rfl
    · exact printable_registerLines tick r m line hline
    · exact printable_cellLine m address
    · exact printable_ruleLine
  · split
    · exact printable_registerLines tick r m
    · exact List.forall_mem_nil _

theorem printable_headerLines (plan : DumpPlan) : ∀ line ∈ plan.headerLines, Printable line := by
  intro line hline
  rcases List.mem_append.mp hline with hline | hline
  · split at hline
    · rw [List.mem_singleton.mp hline]
      decide
    · cases hline
  · split at hline
    · cases hline
    · rw [List.mem_singleton.mp hline]
      exact .append (.append (by decide) (printable_decimal _)) (by decide)

theorem printable_lines (plan : DumpPlan) (m : Machine) (rs : List Retired) :
    ∀ line ∈ plan.lines m rs, Printable line := by
  intro line hline
  rcases List.mem_append.mp hline with hline | hline
  · exact plan.printable_headerLines line hline
  · obtain ⟨entry, hentry, hline⟩ := List.mem_flatten.mp hline
    obtain ⟨i, hi, rfl⟩ := List.mem_mapIdx.mp hentry
    exact plan.printable_entryLines i rs[i] _ line hline

/-! ## A whole run -/

theorem watch_observer (plan : DumpPlan) (tick : Nat) (m : Machine) (rs : List Retired) (text : String) :
    plan.observer.watch tick m rs text = text ++
      unlines (rs.mapIdx fun i r => plan.entryLines (tick + i) r (m.stepped (i + 1))).flatten := by
  induction rs generalizing tick m text with
  | nil => simp [Observer.watch]
  | cons r rs ih =>
    have hfirst : m.stepped (0 + 1) = m.step.2 := rfl
    rw [Observer.watch, ih, List.mapIdx_cons, List.flatten_cons, unlines_append, ← entry_eq, hfirst]
    simp only [observer, String.append_assoc, Nat.add_zero, Nat.add_assoc, Nat.add_comm 1,
      ← Machine.stepped_succ]

theorem conclude_watch (plan : DumpPlan) (m m' : Machine) (rs : List Retired) (text : String)
    (outcome : Outcome) :
    plan.observer.conclude m' (plan.observer.watch 0 m rs (plan.observer.start m text)) outcome =
      text ++ unlines (plan.lines m rs) := by
  rw [watch_observer]
  simp only [Nat.zero_add]
  -- neither a fault nor the end of the run writes anything
  cases outcome <;> simp only [Observer.conclude, observer, lines, unlines_append, header_eq,
    String.append_assoc]

/-- **A dump shows the machine right behind the selected instruction.** A run retires as many
instructions as its outcome counts. The `i`-th is the one that the machine after `i` steps has at its
program counter, and the machine after `i + 1` steps is the one it leaves. Behind what was there the run
writes the lines of its plan, the header and then what each of these instructions is given, and nothing
for a fault. No line has a line end in it, so that these are the lines of the text. Other observers, such
as the log and the stream of a transcript, change none of this. -/
theorem dump_of_run {plan : DumpPlan} {m : Machine} {limit : Option Nat} {fuel : Nat} {text : String}
    {finished : Finished String} (h : m.run plan.observer limit fuel text = some finished) :
    ∃ rs : List Retired, rs.length = finished.outcome.ticks ∧
      (∀ i r, rs[i]? = some r →
        (m.stepped i).step = (.retired r, m.stepped (i + 1)) ∧
        r.pc.toNat = (m.stepped i).pc ∧
        ∃ word, (m.stepped i).word? r.pc = some word ∧ Instruction.decode word = .ok r.instruction) ∧
      (m.stepped rs.length).advance limit rs.length =
        (finished.outcome.progress, finished.machine) ∧
      finished.observed = text ++ unlines (plan.lines m rs) ∧
      Text.lines (unlines (plan.lines m rs)).toList = (plan.lines m rs).map String.toList ∧
      ∀ (σ τ : Type) (a : Observer σ) (b : Observer τ) (s : σ) (t : τ), ∃ beside,
        m.run (a.both (b.both plan.observer)) limit fuel (s, t, text) = some beside ∧
        beside.outcome = finished.outcome ∧ beside.machine = finished.machine ∧
        beside.observed.2.2 = finished.observed := by
  obtain ⟨rs, last, hrs, hticks, hadvance, hobserved⟩ := Machine.run_eq_some h
  rw [hrs.eq_stepped] at hadvance
  refine ⟨rs, hticks, fun i r hr => ?_, hadvance, ?_, lines_unlines (plan.printable_lines m rs),
    fun σ τ a b s t => ?_⟩
  · have hstep := hrs.step_of_getElem? hr
    obtain ⟨-, word, -, -, hpc, hword, hdecode, -⟩ := Machine.step_retired hstep
    exact ⟨hstep, hpc, word, hword, hdecode⟩
  · rw [hobserved, conclude_watch]
  · have hpart : (a.both (b.both plan.observer)).Contains (fun s => s.2.2) plan.observer :=
      ⟨by intros; rfl, by intros; rfl, by intros; rfl, by intros; rfl⟩
    have hbeside := Machine.run_contains hpart limit fuel m (s, t, text)
    rw [h, Option.map_eq_some_iff] at hbeside
    obtain ⟨beside, hbeside, rfl⟩ := hbeside
    exact ⟨beside, hbeside, rfl, rfl, rfl⟩

/-- A machine about to store a word that is no instruction behind the store. -/
def overwriting : Machine where
  memory := #[0x04020001, 0x10000000]
  accumulator := 0x99000000

/-- The machine stopped by the word that it stored. -/
def overwritten : Machine where
  memory := #[0x04020001, 0x99000000]
  accumulator := 0x99000000
  pc := 1
  status := .faulted (.illegalInstruction 1 0x99000000 (.unknownOpcode 0x99))

/-- Dumps after every instruction, and two cells after the first one: the cell that it writes to and one
outside of the memory. -/
def overwritingPlan : DumpPlan where
  requests := [(0, [1, 9])]
  all := true

/-- The dump behind the store shows the cell as it was written. There is no dump for the fault. -/
def overwritingDump : String := unlines
  [" * Dump all",
    " * Dump[1]",
    " +------------------------------------------------+",
    " | [0000] 0000: STORE !0x0001                  |",
    " | AC=0x99000000 | PC=0x0001 | Z=1 C=0 |",
    " +------------------------------------------------+",
    " | 0001 : 99000000                             |",
    " | 0009 : --------                             |",
    " +------------------------------------------------+"]

theorem dump_of_overwriting :
    overwriting.run overwritingPlan.observer none 2 "" = some ⟨.faulted 1
        (.illegalInstruction 1 0x99000000 (.unknownOpcode 0x99)), overwritten, overwritingDump⟩ ∧
      ∃ rs : List Retired, rs.length = 1 ∧
        (∀ i r, rs[i]? = some r →
          (overwriting.stepped i).step = (.retired r, overwriting.stepped (i + 1))) ∧
        (overwriting.stepped rs.length).advance none rs.length =
          (.faulted (.illegalInstruction 1 0x99000000 (.unknownOpcode 0x99)), overwritten) ∧
        overwritingDump = "" ++ unlines (overwritingPlan.lines overwriting rs) := by
  have hend : overwriting.run overwritingPlan.observer none 2 "" = some ⟨.faulted 1
      (.illegalInstruction 1 0x99000000 (.unknownOpcode 0x99)), overwritten, _⟩ := rfl
  have hdump : (overwriting.run overwritingPlan.observer none 2 "").map Finished.observed =
      some overwritingDump := by decide +kernel
  have hrun : overwriting.run overwritingPlan.observer none 2 "" = some ⟨.faulted 1
      (.illegalInstruction 1 0x99000000 (.unknownOpcode 0x99)), overwritten, overwritingDump⟩ := by
    rw [hend] at hdump ⊢
    rw [← Option.some.inj hdump]
  obtain ⟨rs, hticks, hsteps, hlast, hobserved, -⟩ := dump_of_run hrun
  exact ⟨hrun, rs, hticks, fun i r hr => (hsteps i r hr).1, hlast, hobserved⟩

end DumpPlan

end Accumulator
