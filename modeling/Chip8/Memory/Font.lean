import Chip8.Memory.Basic

/-!
# The font

Sixteen glyphs for the hexadecimal digits stand at a fixed place in reserved memory, five bytes
each, one byte per row with the four pixels of the row in its high half.  Fresh memory holds the
font and zeros.
-/

namespace Chip8

namespace Font

def address : Nat := 0x50

def sprites : List UInt8 :=
  [0xF0, 0x90, 0x90, 0x90, 0xF0,
   0x20, 0x60, 0x20, 0x20, 0x70,
   0xF0, 0x10, 0xF0, 0x80, 0xF0,
   0xF0, 0x10, 0xF0, 0x10, 0xF0,
   0x90, 0x90, 0xF0, 0x10, 0x10,
   0xF0, 0x80, 0xF0, 0x10, 0xF0,
   0xF0, 0x80, 0xF0, 0x90, 0xF0,
   0xF0, 0x10, 0x20, 0x40, 0x40,
   0xF0, 0x90, 0xF0, 0x90, 0xF0,
   0xF0, 0x90, 0xF0, 0x10, 0xF0,
   0xF0, 0x90, 0xF0, 0x90, 0x90,
   0xE0, 0x90, 0xE0, 0x90, 0xE0,
   0xF0, 0x80, 0x80, 0x80, 0xF0,
   0xE0, 0x90, 0x90, 0x90, 0xE0,
   0xF0, 0x80, 0xF0, 0x80, 0xF0,
   0xF0, 0x80, 0xF0, 0x80, 0x80]

def glyph (digit : Fin 16) : Address := ⟨address + digit * 5, by unfold address; omega⟩

def contains (a : Nat) : Bool := address ≤ a && a < address + 80

end Font

namespace Memory

def zero : Memory := ⟨Vector.replicate 4096 0⟩

def loadFont (m : Memory) : Memory := m.overwrite Font.address Font.sprites

/-- Memory as it is before a program is loaded. -/
def fresh : Memory := zero.loadFont

/-- Zeroes every byte, whatever it held, and puts the font back. -/
def clear (m : Memory) : Memory := { m with bytes := Vector.replicate 4096 0 }.loadFont

end Memory

end Chip8
