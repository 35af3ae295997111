/-!
# Words, addresses and ports

* `Word`, `Address`, `Port` — the 32-bit data word, the 16-bit address and the 8-bit port number.
  Arithmetic on each of them wraps at its width.
* `Address.ofNat?`, `Port.ofNat?` — checked narrowing; nothing else makes an address or a port out
  of a number that may be too large.
* `addressSpace`, `defaultMemorySize` — the largest memory and the usual one, in words.
-/

namespace Accumulator

/-- A data word. -/
abbrev Word := UInt32

/-- A memory address. -/
abbrev Address := UInt16

/-- The number of an input/output port. -/
abbrev Port := UInt8

/-- The number of words that sixteen address bits can reach. -/
def addressSpace : Nat := 65536

/-- The memory size of a machine that is not configured otherwise. -/
def defaultMemorySize : Nat := 2048

/-- The address `n`, if sixteen bits hold it. -/
def Address.ofNat? (n : Nat) : Option Address :=
  if n < addressSpace then some (UInt16.ofNat n) else none

/-- The port `n`, if eight bits hold it. -/
def Port.ofNat? (n : Nat) : Option Port :=
  if n < 256 then some (UInt8.ofNat n) else none

theorem Address.toNat_of_ofNat? {n : Nat} {a : Address} (h : Address.ofNat? n = some a) :
    a.toNat = n := by
  unfold Address.ofNat? at h
  split at h
  · next hn =>
    cases h
    exact UInt16.toNat_ofNat_of_lt' hn
  · cases h

theorem Port.toNat_of_ofNat? {n : Nat} {p : Port} (h : Port.ofNat? n = some p) : p.toNat = n := by
  unfold Port.ofNat? at h
  split at h
  · next hn =>
    cases h
    exact UInt8.toNat_ofNat_of_lt' hn
  · cases h

@[simp] theorem Address.ofNat?_toNat (a : Address) : Address.ofNat? a.toNat = some a := by
  have h : a.toNat < addressSpace := UInt16.toNat_lt a
  rw [Address.ofNat?, if_pos h, UInt16.ofNat_toNat]

@[simp] theorem Port.ofNat?_toNat (p : Port) : Port.ofNat? p.toNat = some p := by
  have h : p.toNat < 256 := UInt8.toNat_lt p
  rw [Port.ofNat?, if_pos h, UInt8.ofNat_toNat]

end Accumulator
