import Chip8.Instruction.Basic
import Chip8.Text.Hex

/-!
# The registers

Sixteen registers hold a byte each.  The last one doubles as the flag of arithmetic and drawing.  A
program names a register by four bits and never misses; a host names it by an integer, where a
negative one counts from the end.
-/

namespace Chip8

structure Registers where
  values : Vector UInt8 16
  deriving DecidableEq

namespace Registers

/-- The register that an indexed jump adds to its base. -/
def first : Register := ⟨0, by decide⟩

def flag : Register := ⟨15, by decide⟩

def zero : Registers := ⟨Vector.replicate 16 0⟩

def get (v : Registers) (x : Register) : UInt8 := v.values[x]

/-- The registers with another byte in one of them. -/
def set (v : Registers) (x : Register) (byte : UInt8) : Registers := ⟨v.values.set x byte⟩

def setFlag (v : Registers) (raised : Bool) : Registers := v.set flag (if raised then 1 else 0)

/-- The registers from the first up to `x`, in order. -/
def upTo (v : Registers) (x : Register) : List UInt8 := v.values.toList.take (x + 1)

def setFrom (v : Registers) (x : Nat) : List UInt8 → Registers
  | [] => v
  | b :: bs => setFrom ⟨v.values.setIfInBounds x b⟩ (x + 1) bs

def toList (v : Registers) : List UInt8 := v.values.toList

def text (v : Registers) : String := "Registers(" ++ Hex.bytes v.toList ++ ")"

/-! ### Access by a host -/

inductive OutOfRange
  | register
  /-- The number is not even an index of sixty-four bits. -/
  | indexWidth
  deriving DecidableEq, Repr

def OutOfRange.message : OutOfRange → String
  | register => "bytearray index out of range"
  | indexWidth => Word.indexWidthMessage

/-- The register of a number: from the front, or from the end if it is negative. -/
def ofIndex (index : Int) : Except OutOfRange Register :=
  match Word.nibble? (if index < 0 then index + 16 else index) with
  | some x => .ok x
  | none => if Word.IsIndex index then .error .register else .error .indexWidth

def getAt (v : Registers) (index : Int) : Except OutOfRange UInt8 := (ofIndex index).map v.get

/-- Puts an integer, by its low eight bits, into the register of a number. -/
def setAt (v : Registers) (index value : Int) : Except OutOfRange Registers :=
  (ofIndex index).map (v.set · (UInt8.ofInt value))

theorem get_set (v : Registers) (x y : Register) (byte : UInt8) :
    (v.set x byte).get y = if y = x then byte else v.get y := by
  have hval : (x : Nat) = (y : Nat) ↔ y = x :=
    ⟨fun e => (Fin.ext e).symm, fun e => congrArg Fin.val e.symm⟩
  simp [get, set, Vector.getElem_set, hval]

end Registers

end Chip8
