import Chip8.Instruction.Basic

/-!
# Arithmetic on bytes

Combining two registers gives a byte and, for sums, differences and shifts, a flag: the carry of a
sum, the absence of a borrow in a difference, the bit that a shift pushes out.  Copying and the
bitwise combinations leave the flag alone.
-/

namespace Chip8

namespace Arithmetic

/-- The byte that comes out of two bytes, and the new flag if there is one. -/
def apply : Arithmetic → UInt8 → UInt8 → UInt8 × Option Bool
  | copy, _, b => (b, none)
  | or, a, b => (a ||| b, none)
  | and, a, b => (a &&& b, none)
  | xor, a, b => (a ^^^ b, none)
  | add, a, b => (a + b, some (255 < a.toNat + b.toNat))
  | subtract, a, b => (a - b, some (b < a))
  | shiftRight, a, _ => (a >>> 1, some (a.toNat % 2 = 1))
  | subtractFrom, a, b => (b - a, some (a < b))
  | shiftLeft, a, _ => (a <<< 1, some (128 ≤ a))

/-- Byte and carry together are the sum. -/
theorem add_eq (a b : UInt8) :
    (apply add a b).1.toNat + 256 * (if 255 < a.toNat + b.toNat then 1 else 0) =
      a.toNat + b.toNat := by
  have := a.toNat_lt
  have := b.toNat_lt
  simp only [apply, UInt8.toNat_add]
  split <;> omega

end Arithmetic

end Chip8
