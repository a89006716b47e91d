import Chip8.Fault
import Chip8.Log
import Chip8.Word

/-!
# Memory

Memory is 4096 bytes.  An access names its first address and its length; it succeeds as a whole
when the whole range lies inside memory, and otherwise it is a fault that changes nothing.
Addresses, lengths and values of a host are integers of any size: values count modulo 256.

* `Memory.byteAt`: the view of memory as a map from addresses to bytes.
* `Memory.byteAt_overwrite`: **a stretch of memory that is overwritten holds the new bytes, and
  every other byte is as it was.**
-/

namespace Chip8

/-- The 4096 bytes that a program sees. -/
structure Memory where
  bytes : Vector UInt8 4096
  deriving DecidableEq

namespace Memory

abbrev size : Nat := 4096

def programStart : Nat := 0x200

/-- The largest program that fits above the start address. -/
def programCapacity : Nat := size - programStart

/-- The byte at an address, and zero beyond the end. -/
def byteAt (m : Memory) (a : Nat) : UInt8 := m.bytes.getD a 0

/-- Puts bytes one after the other from an address on; what would lie beyond the end is dropped. -/
def overwrite : Memory → Nat → List UInt8 → Memory
  | m, _, [] => m
  | m, a, b :: bs => overwrite ⟨m.bytes.setIfInBounds a b⟩ (a + 1) bs

/-- The bytes from `start` up to, and without, `stop`. -/
def slice (m : Memory) (start stop : Nat) : List UInt8 :=
  (m.bytes.toArray.extract start stop).toList

/-! ### The view as a map -/

theorem byteAt_of_lt (m : Memory) {a : Nat} (h : a < 4096) : m.byteAt a = m.bytes[a] := by
  simp [byteAt, Vector.getD, h]

theorem byteAt_of_ge (m : Memory) {a : Nat} (h : 4096 ≤ a) : m.byteAt a = 0 := by
  have : ¬ a < 4096 := by omega
  simp [byteAt, Vector.getD, this]

theorem ext_byteAt {m m' : Memory} (h : ∀ a, a < 4096 → m.byteAt a = m'.byteAt a) : m = m' := by
  cases m with
  | mk bs =>
    cases m' with
    | mk bs' =>
      congr 1
      apply Vector.ext
      intro i hi
      have := h i hi
      rwa [byteAt_of_lt _ hi, byteAt_of_lt _ hi] at this

theorem byteAt_overwrite (m : Memory) (a : Nat) (bs : List UInt8) (i : Nat) (hi : i < 4096) :
    (m.overwrite a bs).byteAt i =
      if a ≤ i ∧ i < a + bs.length then bs.getD (i - a) 0 else m.byteAt i := by
  induction bs generalizing m a with
  | nil =>
    have : ¬ (a ≤ i ∧ i < a) := by omega
    simp [overwrite, this]
  | cons b bs ih =>
    rw [overwrite, ih]
    have hset : (Memory.mk (m.bytes.setIfInBounds a b)).byteAt i =
        if a = i then b else m.byteAt i := by
      rw [byteAt_of_lt _ hi, byteAt_of_lt _ hi]
      exact Vector.getElem_setIfInBounds hi
    rw [hset]
    by_cases h : a + 1 ≤ i ∧ i < a + 1 + bs.length
    · have h' : a ≤ i ∧ i < a + (b :: bs).length := by
        simp only [List.length_cons]
        omega
      have hs : i - a = i - (a + 1) + 1 := by omega
      rw [if_pos h, if_pos h', hs, List.getD_cons_succ]
    · rw [if_neg h]
      by_cases ha : a = i
      · subst ha
        simp
      · have h' : ¬ (a ≤ i ∧ i < a + (b :: bs).length) := by
          simp only [List.length_cons]
          omega
        rw [if_neg ha, if_neg h']

/-! ### Access by a host -/

/-- All `length` bytes from `address` on lie inside memory. -/
def InRange (address length : Int) : Prop := 0 ≤ address ∧ address + length ≤ 4096

instance (address length : Int) : Decidable (InRange address length) :=
  inferInstanceAs (Decidable (_ ∧ _))

def read (m : Memory) (address : Int) : Except Cause UInt8 :=
  if InRange address 1 then .ok (m.byteAt address.toNat) else .error (.memoryOutOfRange address 1)

/-- The word whose high byte stands at an address. -/
def readWord (m : Memory) (address : Int) : Except Cause UInt16 :=
  if InRange address 2 then
    .ok (Word.ofBytes (m.byteAt address.toNat) (m.byteAt (address.toNat + 1)))
  else .error (.memoryOutOfRange address 2)

/-- Where a block ends: a negative end counts from the top of memory. -/
def blockEnd (stop : Int) : Nat := if stop < 0 then (stop + 4096).toNat else stop.toNat

/-- The bytes of a block.  The length may be negative; such a block has an end that stands before
its address, or, below zero, that counts from the top of memory. -/
def readBlock (m : Memory) (address length : Int) : Except Cause (List UInt8) :=
  if InRange address length then .ok (m.slice address.toNat (blockEnd (address + length)))
  else .error (.memoryOutOfRange address length)

def writeBytes (m : Memory) (address : Int) (data : List UInt8) : Except Cause Memory :=
  if InRange address data.length then .ok (m.overwrite address.toNat data)
  else .error (.memoryOutOfRange address data.length)

/-- Puts integers at an address, each by its low eight bits. -/
def writeBlock (m : Memory) (address : Int) (values : List Int) : Except Cause Memory :=
  m.writeBytes address (values.map UInt8.ofInt)

/-- Puts one integer at an address by its low eight bits. -/
def write (m : Memory) (address value : Int) : Except Cause Memory :=
  m.writeBlock address [value]

/-- Copies a program to an address.  The address has to lie in memory, and the program has to fit
between it and the end. -/
def loadProgram (m : Memory) (data : List UInt8) (address : Int) : Except Error Memory :=
  if 0 ≤ address ∧ address < 4096 then
    if (data.length : Int) ≤ 4096 - address then .ok (m.overwrite address.toNat data)
    else .error (.loadTooLarge data.length (4096 - address))
  else .error (.execution { cause := .memoryOutOfRange address (max data.length 1) })

/-- The line that is logged for a program that was copied. -/
def copiedLine (count : Nat) (address : Nat) : LogLine :=
  ⟨.debug, .memory, "Copied " ++ toString count ++ " bytes to " ++ Hex.target address⟩

end Memory

end Chip8
