import Accumulator.Proofs.Machine.Delivery

/-!
# Machines that hold another one

A machine may be given another memory and another bus. As long as they hold what the memory and the bus
of the machine hold, it does not notice.

* `Embedding` — a memory for every memory and a bus for every bus, with what the instructions need of
  them: the cells that are there stay there, stores and emissions go through.
* `Embedding.Exact`, `Embedding.ReadsAlike` — what an embedding need not have: that no cell is added, and
  that a read comes to the same. They decide which faults and which reads carry over.
* `Embedding.carries_execute` — every instruction does on the image of a machine what it does on the
  machine.
* `Embedding.load_image` — the image of a machine takes the programs that the machine takes.
* `Embedding.step_image`, `Embedding.retires_image`, `Embedding.run_image` — so does every step, every
  list of instructions that retire, and every run that ends.
-/

namespace Accumulator

/-- Whether the fault says that a cell is not in memory. -/
def Fault.isRange : Fault → Bool
  | .pcOutOfRange _ | .addressOutOfRange _ _ => true
  | _ => false

/-- Another memory and another bus for every machine. -/
structure Embedding where
  memory : Array Word → Array Word
  bus : Bus → Bus
  /-- A cell that is there holds the same word. -/
  word : ∀ {cells : Array Word} {a : Nat} {word : Word},
    cells[a]? = some word → (memory cells)[a]? = some word
  store : ∀ {cells : Array Word} {a : Nat}, a < cells.size → ∀ value : Word,
    memory (cells.setIfInBounds a value) = (memory cells).setIfInBounds a value
  emission : ∀ (b : Bus) (pc : Address) (port : Port) (value : Word),
    (bus b).emission pc port value = b.emission pc port value
  emit : ∀ (b : Bus) (bytes : List UInt8), bus (b.emit bytes) = (bus b).emit bytes

namespace Execution

variable {α : Type} {m m₁ : Machine}

theorem observe_eq_ok {reader : Machine → Except Fault α} {value : α}
    (h : observe reader m = .ok value m₁) : reader m = .ok value ∧ m₁ = m := by
  unfold observe at h
  cases hreader : reader m with
  | ok found =>
    rw [hreader] at h
    cases h
    exact ⟨rfl, rfl⟩
  | error fault =>
    rw [hreader] at h
    cases h

end Execution

namespace Embedding

open Execution

variable {α β : Type} {e : Embedding} {m : Machine} {pc : Address} {i : Instruction}

/-- The machine with the other memory and the other bus. -/
def image (e : Embedding) (m : Machine) : Machine :=
  { m with memory := e.memory m.memory, bus := e.bus m.bus }

/-- The memory does not grow, so that a cell outside of it stays outside. -/
def Exact (e : Embedding) : Prop := ∀ cells : Array Word, (e.memory cells).size ≤ cells.size

/-- A read from the port comes to the same on both buses. -/
def ReadsAlike (e : Embedding) (bus : Bus) (pc : Address) (port : Port) : Prop :=
  (e.bus bus).read pc port = (bus.read pc port).map fun result => (result.1, e.bus result.2)

/-- The fault carries over. -/
def Covers (e : Embedding) (fault : Fault) : Prop := fault.isRange = true → e.Exact

/-- What a step came to carries over. -/
def CarriesOver (e : Embedding) : Progress → Prop
  | .faulted fault => e.Covers fault
  | .retired _ | .halted => True

theorem carriesOver_of_exact (h : e.Exact) (progress : Progress) : e.CarriesOver progress := by
  cases progress with
  | faulted fault => exact fun _ => h
  | retired r => trivial
  | halted => trivial

/-- The results agree, but for a fault that does not carry over. -/
def Agrees (e : Embedding) (x y : Except Fault α) : Prop :=
  match x with
  | .ok value => y = .ok value
  | .error fault => e.Covers fault → y = .error fault

theorem agrees_refl (e : Embedding) (x : Except Fault α) : e.Agrees x x := by
  cases x with
  | ok value => rfl
  | error fault => exact fun _ => rfl

theorem Agrees.of_ok {x y : Except Fault α} {value : α} (h : e.Agrees x y) (hx : x = .ok value) :
    y = .ok value := by
  rwa [hx] at h

theorem Agrees.of_error {x y : Except Fault α} {fault : Fault} (h : e.Agrees x y)
    (hx : x = .error fault) (hcovers : e.Covers fault) : y = .error fault := by
  rw [hx] at h
  exact h hcovers

/-- What a computation comes to on the machine, it comes to on the image of the machine, and it leaves
the image of what it leaves. -/
def Carries (e : Embedding) (x : Execution α) (m : Machine) : Prop :=
  match x m with
  | .ok value m₁ => x (e.image m) = .ok value (e.image m₁)
  | .error fault m₁ => e.Covers fault → x (e.image m) = .error fault (e.image m₁)

theorem carries_bind {x : Execution α} {f : α → Execution β} (hx : e.Carries x m)
    (hf : ∀ value m₁, x m = .ok value m₁ → e.Carries (f value) m₁) : e.Carries (x >>= f) m := by
  unfold Carries at hx ⊢
  rw [bind_apply, bind_apply]
  cases h : x m with
  | ok value m₁ =>
    rw [h] at hx
    have hrest := hf value m₁ h
    unfold Carries at hrest
    simp only [hx]
    exact hrest
  | error fault m₁ =>
    rw [h] at hx
    intro hcovers
    simp only [hx hcovers]

theorem carries_get {f : Machine → Execution α} (himage : f (e.image m) = f m)
    (hf : e.Carries (f m) m) : e.Carries (get >>= f) m := by
  unfold Carries at hf ⊢
  rw [bind_get, bind_get, himage]
  exact hf

theorem carries_observe {reader : Machine → Except Fault α}
    (h : e.Agrees (reader m) (reader (e.image m))) : e.Carries (observe reader) m := by
  unfold Carries observe
  cases hreader : reader m with
  | ok value => simp only [h.of_ok hreader]
  | error fault =>
    intro hcovers
    simp only [h.of_error hreader hcovers]

/-! ## What an instruction finds -/

theorem size_le (e : Embedding) (cells : Array Word) : cells.size ≤ (e.memory cells).size := by
  by_contra hlt
  have hlast : (e.memory cells).size < cells.size := Nat.lt_of_not_le hlt
  have hword := e.word (Array.getElem?_eq_getElem hlast)
  rw [Array.getElem?_eq_none (Nat.le_refl _)] at hword
  cases hword

theorem word?_image {address : Address} {word : Word} (h : m.word? address = some word) :
    (e.image m).word? address = some word := e.word h

theorem word?_image_eq_none {address : Address} (hexact : e.Exact) (h : m.word? address = none) :
    (e.image m).word? address = none := by
  have houtside : m.memory.size ≤ address.toNat := Array.getElem?_eq_none_iff.mp h
  exact Array.getElem?_eq_none (Nat.le_trans (hexact m.memory) houtside)

theorem agrees_readCell (e : Embedding) (m : Machine) (pc address : Address) :
    e.Agrees (m.readCell pc address) ((e.image m).readCell pc address) := by
  unfold Agrees Machine.readCell
  cases hword : m.word? address with
  | some word => simp only [word?_image hword]
  | none =>
    intro hcovers
    simp only [word?_image_eq_none (hcovers rfl) hword]

theorem agrees_effectiveAddress (e : Embedding) (m : Machine) (pc : Address) (i : Instruction) :
    e.Agrees (m.effectiveAddress pc i) ((e.image m).effectiveAddress pc i) := by
  unfold Machine.effectiveAddress
  cases i.mode with
  | implied | immediate | absolute | relative => rfl
  | indirect =>
    have hread := e.agrees_readCell m pc (pc + 1 + i.operand)
    simp only
    cases hpointer : m.readCell pc (pc + 1 + i.operand) with
    | error fault =>
      intro hcovers
      rw [hread.of_error hpointer hcovers]
    | ok pointer =>
      rw [hread.of_ok hpointer]
      exact e.agrees_refl _

theorem agrees_operandValue (e : Embedding) (m : Machine) (pc : Address) (i : Instruction) :
    e.Agrees (m.operandValue pc i) ((e.image m).operandValue pc i) := by
  rw [Machine.operandValue_eq, Machine.operandValue_eq]
  split
  · rfl
  · have hfound := e.agrees_effectiveAddress m pc i
    cases haddress : m.effectiveAddress pc i with
    | error fault =>
      intro hcovers
      simp only [hfound.of_error haddress hcovers]
    | ok address =>
      simp only [hfound.of_ok haddress]
      exact e.agrees_readCell m pc address

theorem agrees_fetch (e : Embedding) (m : Machine) : e.Agrees m.fetch (e.image m).fetch := by
  unfold Agrees Machine.fetch
  simp only [show (e.image m).pc = m.pc from rfl]
  cases Address.ofNat? m.pc with
  | none => exact fun _ => rfl
  | some pc =>
    cases hword : m.word? pc with
    | some word => simp only [hword, word?_image hword]
    | none =>
      simp only [hword]
      intro hcovers
      simp only [word?_image_eq_none (hcovers rfl) hword]

/-! ## What an instruction does -/

theorem carries_writeCell (e : Embedding) (m : Machine) (pc address : Address) (value : Word) :
    e.Carries (writeCell pc address value) m := by
  unfold Carries writeCell
  by_cases hinside : address.toNat < m.memorySize
  · have hlarge : address.toNat < (e.image m).memorySize :=
      Nat.lt_of_lt_of_le hinside (e.size_le m.memory)
    simp only [hinside, hlarge, if_true]
    simp only [image, e.store hinside]
  · simp only [hinside, if_false]
    intro hcovers
    have houtside : ¬ address.toNat < (e.image m).memorySize :=
      fun hlt => hinside (Nat.lt_of_lt_of_le hlt (hcovers rfl m.memory))
    simp only [houtside, if_false]

theorem carries_readPort {port : Port} (h : e.ReadsAlike m.bus pc port) :
    e.Carries (readPort pc port) m := by
  have hread : (e.image m).bus.read pc port =
      (m.bus.read pc port).map fun result => (result.1, e.bus result.2) := h
  unfold Carries
  rw [readPort_eq, readPort_eq, hread]
  cases m.bus.read pc port with
  | ok result => rfl
  | error fault => exact fun _ => rfl

theorem carries_writePort (e : Embedding) (m : Machine) (pc : Address) (port : Port) (value : Word) :
    e.Carries (writePort pc port value) m := by
  have hemission : (e.image m).bus.emission pc port value = m.bus.emission pc port value :=
    e.emission m.bus pc port value
  unfold Carries writePort
  rw [hemission]
  cases m.bus.emission pc port value with
  | ok bytes => simp only [image, e.emit]
  | error fault => exact fun _ => rfl

theorem carries_jumpIf (e : Embedding) (m : Machine) (taken : Bool) (pc : Address)
    (i : Instruction) : e.Carries (jumpIf taken pc i) m := by
  unfold Carries
  rw [jumpIf_eq, jumpIf_eq]
  cases taken with
  | false => rfl
  | true =>
    have hfound := e.agrees_effectiveAddress m pc i
    simp only [if_true]
    cases htarget : m.effectiveAddress pc i with
    | ok target => simp only [hfound.of_ok htarget]
    | error fault =>
      intro hcovers
      simp only [hfound.of_error htarget hcovers]

/-- **Every instruction does on the image what it does on the machine**, provided that a read comes to the
same on both. -/
theorem carries_execute {word : Word}
    (hread : ∀ port : Port, i.opcode = .input → port.toNat = i.operand.toNat →
      e.ReadsAlike m.bus pc port) : e.Carries (execute pc word i) m := by
  have hvalue : e.Carries (observe (·.operandValue pc i)) m :=
    carries_observe (e.agrees_operandValue m pc i)
  have haddress : e.Carries (observe (·.effectiveAddress pc i)) m :=
    carries_observe (e.agrees_effectiveAddress m pc i)
  have hport : e.Carries (observe fun _ => i.port pc word) m :=
    carries_observe (e.agrees_refl _)
  cases opcode : i.opcode with
  | input =>
    simp only [execute, executeBy, port_standard, opcode]
    refine carries_bind hport fun port m₁ hok => ?_
    obtain ⟨hfound, rfl⟩ := observe_eq_ok hok
    exact carries_bind (carries_readPort (hread port opcode (port_eq_ok hfound))) fun _ _ _ => rfl
  | output =>
    simp only [execute, executeBy, port_standard, opcode]
    refine carries_bind hport fun port m₁ _ => carries_get rfl ?_
    exact carries_bind (e.carries_writePort m₁ pc port m₁.accumulator) fun _ _ _ => rfl
  | load | compare =>
    simp only [execute, executeBy, valueBy_standard, opcode]
    exact carries_bind hvalue fun value m₁ _ => rfl
  | store =>
    simp only [execute, executeBy, address_standard, opcode]
    refine carries_bind haddress fun address m₁ _ => carries_get rfl ?_
    exact carries_bind (e.carries_writeCell m₁ pc address m₁.accumulator) fun _ _ _ => rfl
  | add | and =>
    simp only [execute, executeBy, valueBy_standard, opcode]
    exact carries_bind hvalue fun value m₁ _ => rfl
  | increment | shiftLeft | shiftRight | nop | halt =>
    simp only [execute, executeBy, opcode]
    rfl
  | jumpZeroClear | jumpZeroSet | jumpCarrySet | jumpCarryClear | jump =>
    simp only [execute, executeBy, opcode]
    exact e.carries_jumpIf m _ pc i

theorem carries_retire (hread : ∀ pc word i port, m.fetch = .ok (pc, word) →
      Instruction.decode word = .ok i → i.opcode = .input → port.toNat = i.operand.toNat →
      e.ReadsAlike m.bus pc port) : e.Carries retire m := by
  refine carries_bind (carries_observe (e.agrees_fetch m)) fun found m₁ hfetch => ?_
  obtain ⟨hfetch, rfl⟩ := observe_eq_ok hfetch
  obtain ⟨pc, word⟩ := found
  refine carries_bind (carries_observe (e.agrees_refl _)) fun i m₂ hobserved => ?_
  have hdecode : Instruction.decodeAt pc word = .ok i ∧ m₂ = m₁ := observe_eq_ok hobserved
  obtain ⟨hdecode, rfl⟩ := hdecode
  refine carries_bind (carries_execute fun port => ?_) fun completion m₃ _ => ?_
  · exact hread pc word i port hfetch (Instruction.decodeAt_eq_ok.mp hdecode)
  · exact carries_bind (x := moveOn completion) rfl fun _ _ _ => rfl

theorem step_image {progress : Progress} {m₁ : Machine}
    (hread : ∀ pc port, m.ReadsNext pc port → e.ReadsAlike m.bus pc port)
    (h : m.step = (progress, m₁)) (hcarries : e.CarriesOver progress) :
    (e.image m).step = (progress, e.image m₁) := by
  by_cases hactive : m.Active
  · have hretires : e.Carries retire { m with status := .running } :=
      carries_retire fun pc word i port hfetch hdecode hopcode hport =>
        hread pc port ⟨hactive, word, i, hfetch, hdecode, hopcode, hport.symm⟩
    unfold Carries at hretires
    have hactive' : (e.image m).Active := hactive
    rw [Machine.step_of_active hactive] at h
    rw [Machine.step_of_active hactive']
    cases hretire : retire { m with status := .running } with
    | ok r m₂ =>
      rw [hretire] at h hretires
      rw [show retire { e.image m with status := .running } = .ok r (e.image m₂) from hretires]
      simp only at h ⊢
      split at h
      · next hhalt =>
        cases h
        rw [if_pos hhalt]
        rfl
      · next hhalt =>
        cases h
        rw [if_neg hhalt]
    | error fault m₂ =>
      rw [hretire] at h hretires
      cases h
      rw [show retire { e.image m with status := .running } = .error fault (e.image m₂) from
        hretires hcarries]
      rfl
  · cases hstatus : m.status with
    | ready => exact absurd (.inl hstatus) hactive
    | running => exact absurd (.inr hstatus) hactive
    | halted =>
      rw [Machine.step_of_halted hstatus] at h
      cases h
      exact Machine.step_of_halted hstatus
    | faulted fault =>
      rw [Machine.step_of_faulted hstatus] at h
      cases h
      exact Machine.step_of_faulted hstatus

theorem advance_image {limit : Option Nat} {tick : Nat} {progress : Progress} {m₁ : Machine}
    (hread : ∀ pc port, m.ReadsNext pc port → e.ReadsAlike m.bus pc port)
    (h : m.advance limit tick = (progress, m₁)) (hcarries : e.CarriesOver progress) :
    (e.image m).advance limit tick = (progress, e.image m₁) := by
  cases limit with
  | none => exact step_image hread h hcarries
  | some n =>
    by_cases htick : n ≤ tick
    · rw [Machine.advance_of_le htick] at h ⊢
      cases h
      rfl
    · have hbelow : tick < n := Nat.lt_of_not_le htick
      rw [Machine.advance_of_lt hbelow] at h ⊢
      exact step_image hread h hcarries

theorem writeCells_image {memory : Array Word} {cells : List (Nat × Word)}
    (h : ∀ cell ∈ cells, cell.1 < memory.size) :
    Machine.writeCells (e.memory memory) cells = e.memory (Machine.writeCells memory cells) := by
  induction cells generalizing memory with
  | nil => rfl
  | cons cell cells ih =>
    have hrest : ∀ other ∈ cells, other.1 < (memory.setIfInBounds cell.1 cell.2).size := by
      intro other hother
      rw [Array.size_setIfInBounds]
      exact h other (List.mem_cons_of_mem cell hother)
    rw [Machine.writeCells_cons, Machine.writeCells_cons, ← ih hrest,
      e.store (h cell List.mem_cons_self)]

/-- A program that loads into a machine loads into its image. -/
theorem load_image {p : Program} {m₁ : Machine} (h : m.load p = .ok m₁) :
    (e.image m).load p = .ok (e.image m₁) := by
  obtain ⟨hvalid, rfl⟩ := Machine.load_eq_ok h
  obtain ⟨hfits, hnodup⟩ := Program.validate_eq_ok_iff.mp hvalid
  have hlarger : p.validate (e.image m).memorySize = .ok () :=
    Program.validate_eq_ok_iff.mpr
      ⟨fun s hs => Nat.le_trans (hfits s hs) (e.size_le m.memory), hnodup⟩
  rw [Machine.load_eq, hlarger]
  have hwritten : Machine.writeCells (e.memory m.memory) p.cells =
      e.memory (Machine.writeCells m.memory p.cells) :=
    writeCells_image fun _ => Program.lt_of_validate hvalid
  exact congrArg (fun memory => Except.ok { e.image m with memory }) hwritten

/-! ## Runs, if every read comes to the same -/

theorem retires_image {m' : Machine} {rs : List Retired}
    (hread : ∀ bus pc port, e.ReadsAlike bus pc port) (h : m.Retires rs m') :
    (e.image m).Retires rs (e.image m') := by
  induction h with
  | nil => exact .nil
  | cons step _ ih =>
    have hstep := step_image (fun pc port _ => hread _ pc port) step trivial
    exact .cons hstep ih

end Embedding

/-- The observer sees neither the memory nor what the embedding changes of the bus. -/
structure Observer.Overlooks {σ : Type} (observer : Observer σ) (e : Embedding) : Prop where
  start : ∀ m s, observer.start (e.image m) s = observer.start m s
  retired : ∀ tick r m s, observer.retired tick r (e.image m) s = observer.retired tick r m s
  faulted : ∀ tick fault m s, observer.faulted tick fault (e.image m) s = observer.faulted tick fault m s
  finish : ∀ m s, observer.finish (e.image m) s = observer.finish m s

namespace Embedding

variable {σ : Type} {e : Embedding} {observer : Observer σ} {limit : Option Nat} {fuel tick : Nat}
  {m : Machine} {s : σ} {finished : Finished σ}

theorem runFrom_image (hread : ∀ bus pc port, e.ReadsAlike bus pc port)
    (hoverlooks : observer.Overlooks e)
    (hcarries : e.CarriesOver finished.outcome.progress)
    (h : Machine.runFrom observer limit fuel tick m s = some finished) :
    Machine.runFrom observer limit fuel tick (e.image m) s =
      some { finished with machine := e.image finished.machine } := by
  induction fuel generalizing tick m s with
  | zero => cases h
  | succ fuel ih =>
    rw [Machine.runFrom] at h ⊢
    have hreads : ∀ pc port, m.ReadsNext pc port → e.ReadsAlike m.bus pc port :=
      fun pc port _ => hread m.bus pc port
    cases hadvance : m.advance limit tick with
    | mk progress m₁ =>
      rw [hadvance] at h
      cases progress with
      | retired r =>
        rw [advance_image hreads hadvance trivial]
        simp only [hoverlooks.retired]
        exact ih h
      | halted =>
        cases h
        rw [advance_image hreads hadvance trivial]
      | faulted fault =>
        cases h
        have hfault : e.CarriesOver (.faulted fault) := hcarries
        rw [advance_image hreads hadvance hfault]
        simp only [hoverlooks.faulted]

/-- **A run that ends is the same run on the image.** It ends with the same outcome and the same
observations, on the image of the machine that it ends with, unless it ends with a fault that does not
carry over. -/
theorem run_image (hread : ∀ bus pc port, e.ReadsAlike bus pc port)
    (hoverlooks : observer.Overlooks e)
    (hcarries : e.CarriesOver finished.outcome.progress)
    (h : m.run observer limit fuel s = some finished) :
    (e.image m).run observer limit fuel s =
      some { finished with machine := e.image finished.machine } := by
  obtain ⟨ending, hrun, rfl⟩ := Option.map_eq_some_iff.mp h
  have hending : e.CarriesOver ending.outcome.progress := hcarries
  have himage := runFrom_image hread hoverlooks hending hrun
  unfold Machine.run
  rw [hoverlooks.start, himage, Option.map_some, hoverlooks.finish]

end Embedding

end Accumulator
