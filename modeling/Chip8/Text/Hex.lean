/-!
# Hexadecimal numerals

Numbers are shown in base sixteen with capital letters.  A numeral is filled with zeros up to a
least width; a minus sign stands first and counts as one of the characters, and a numeral that is
wider already is never cut.

* `Hex.padded`: the numeral of any integer, at least so many characters wide.
* `Hex.byte`: the two characters of a byte.
* `Hex.length_byte`: **a byte always takes two characters.**
-/

namespace Chip8.Hex

/-- The digits of a natural number, the most significant one first. -/
def digits (n : Nat) : List Char := (Nat.toDigits 16 n).map Char.toUpper

/-- The numeral of an integer, filled with zeros to at least `width` characters. -/
def padded (width : Nat) (n : Int) : String :=
  if n < 0 then String.ofList ('-' :: (digits n.natAbs).leftpad (width - 1) '0')
  else String.ofList ((digits n.natAbs).leftpad width '0')

def digit (d : Fin 16) : Char :=
  ['0', '1', '2', '3', '4', '5', '6', '7', '8', '9', 'A', 'B', 'C', 'D', 'E', 'F'].getD d '0'

def byteDigits (b : UInt8) : List Char :=
  [digit ⟨b.toNat / 16 % 16, by omega⟩, digit ⟨b.toNat % 16, by omega⟩]

def byte (b : UInt8) : String := String.ofList (byteDigits b)

/-- A program counter or a machine word: four characters or more. -/
def address (a : Int) : String := "$" ++ padded 4 a

/-- The twelve bits of a jump target: three characters. -/
def target (a : Nat) : String := "$" ++ padded 3 a

/-- Bytes in a row, with a blank between neighbours. -/
def bytes (data : List UInt8) : String := " ".intercalate (data.map byte)

theorem length_byte (b : UInt8) : (byte b).length = 2 := by
  simp [byte, byteDigits]

end Chip8.Hex
