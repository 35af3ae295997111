import Accumulator.Machine.Fault
import Accumulator.Proofs.Text.Delimited

/-!
# Faults are read back from their messages

* `Fault.mark` — the start of a message, by which the kinds of faults differ.
* `Fault.Explained` — an illegal instruction is reported with the error of its decoding.
* `Fault.message_inj` — the message and the program counter determine an explained fault.
-/

namespace Accumulator.Fault

open Text

/-- The first two characters of a message. -/
def mark : Fault → List Char
  | pcOutOfRange _ => ['p', 'r']
  | illegalInstruction _ _ _ => ['i', 'l']
  | addressOutOfRange _ _ => ['a', 'd']
  | noDevice _ _ => ['n', 'o']
  | writeOnly _ _ => ['p', 'o']
  | inputExhausted _ => ['i', 'n']
  | tickLimit _ _ => ['t', 'i']

theorem take_message (fault : Fault) : fault.message.toList.take 2 = fault.mark := by
  cases fault with
  | pcOutOfRange pc =>
    show "program counter is outside of memory".toList.take 2 = _
    rfl
  | inputExhausted pc =>
    show "input exhausted".toList.take 2 = _
    rfl
  | illegalInstruction pc word reason =>
    show ("illegal instruction 0x" ++ hex 8 word.toNat ++ ": " ++ reason.message).toList.take 2 = _
    simp [mark]
  | addressOutOfRange pc address =>
    show ("address 0x" ++ hex 4 address.toNat ++ " is out of range").toList.take 2 = _
    simp [mark]
  | noDevice pc port =>
    show ("no device on port " ++ decimal port.toNat).toList.take 2 = _
    simp [mark]
  | writeOnly pc port =>
    show ("port " ++ decimal port.toNat ++ " is write-only").toList.take 2 = _
    simp [mark]
  | tickLimit pc limit =>
    show ("tick limit of " ++ decimal limit ++ " instructions reached").toList.take 2 = _
    simp [mark]

/-- The reason of an illegal instruction is the error of decoding its word. -/
def Explained : Fault → Prop
  | illegalInstruction _ word reason => Instruction.decode word = .error reason
  | _ => True

instance (fault : Fault) : Decidable fault.Explained := by
  unfold Explained
  split <;> infer_instance

/-- **The message and the program counter determine a fault.** The reason of an illegal instruction
needs no part in this, since its word determines it. -/
theorem message_inj {f g : Fault} (hf : f.Explained) (hg : g.Explained) (hpc : f.pc = g.pc)
    (h : f.message = g.message) : f = g := by
  have hmark : f.mark = g.mark := by rw [← take_message, ← take_message, h]
  cases f with
  | pcOutOfRange pc =>
    cases g with
    | pcOutOfRange pc' => exact congrArg pcOutOfRange hpc
    | _ => exact absurd hmark (by simp [mark])
  | illegalInstruction pc word reason =>
    cases g with
    | illegalInstruction pc' word' reason' =>
      have hmessage : "illegal instruction 0x" ++ hex 8 word.toNat ++ (": " ++ reason.message) =
          "illegal instruction 0x" ++ hex 8 word'.toNat ++ (": " ++ reason'.message) := by
        rw [← String.append_assoc, ← String.append_assoc]
        exact h
      have hstops : ∀ text : String, Stops isNumeral (": " ++ text).toList := by
        intro text
        rw [String.toList_append]
        exact stops_cons.mpr (by decide)
      have hword := (numeral_hex 8 _).between (numeral_hex 8 _) (hstops _) (hstops _) hmessage
      obtain rfl : word = word' := UInt32.toNat_inj.mp hword
      obtain rfl : pc = pc' := UInt16.toNat_inj.mp hpc
      obtain rfl : reason = reason' := Except.error.inj (hf.symm.trans hg)
      rfl
    | _ => exact absurd hmark (by simp [mark])
  | addressOutOfRange pc address =>
    cases g with
    | addressOutOfRange pc' address' =>
      have haddress := (numeral_hex 4 _).between (numeral_hex 4 _)
        (stops_cons.mpr (by decide)) (stops_cons.mpr (by decide)) h
      rw [UInt16.toNat_inj.mp hpc, UInt32.toNat_inj.mp haddress]
    | _ => exact absurd hmark (by simp [mark])
  | noDevice pc port =>
    cases g with
    | noDevice pc' port' =>
      have hmessage : "no device on port " ++ decimal port.toNat ++ "" =
          "no device on port " ++ decimal port'.toNat ++ "" := by
        rw [String.append_empty, String.append_empty]
        exact h
      have hport := (numeral_decimal _).between (numeral_decimal _) stops_nil stops_nil hmessage
      rw [UInt16.toNat_inj.mp hpc, UInt8.toNat_inj.mp hport]
    | _ => exact absurd hmark (by simp [mark])
  | writeOnly pc port =>
    cases g with
    | writeOnly pc' port' =>
      have hport := (numeral_decimal _).between (numeral_decimal _)
        (stops_cons.mpr (by decide)) (stops_cons.mpr (by decide)) h
      rw [UInt16.toNat_inj.mp hpc, UInt8.toNat_inj.mp hport]
    | _ => exact absurd hmark (by simp [mark])
  | inputExhausted pc =>
    cases g with
    | inputExhausted pc' => exact congrArg inputExhausted (UInt16.toNat_inj.mp hpc)
    | _ => exact absurd hmark (by simp [mark])
  | tickLimit pc limit =>
    cases g with
    | tickLimit pc' limit' =>
      have hlimit := (numeral_decimal _).between (numeral_decimal _)
        (stops_cons.mpr (by decide)) (stops_cons.mpr (by decide)) h
      rw [hlimit, show pc = pc' from hpc]
    | _ => exact absurd hmark (by simp [mark])

end Accumulator.Fault
