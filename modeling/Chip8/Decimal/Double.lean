/-!
# The value of a double

A double is a sign, a mantissa and a power of two, or it is infinite, or it is no number.  All
exact questions about doubles are answered on these parts, by arithmetic of natural numbers.
-/

namespace Chip8.Double

/-- What a double stands for; a finite one is its mantissa times two to its exponent. -/
inductive Value
  | finite (negative : Bool) (mantissa : Nat) (exponent : Int)
  | infinite (negative : Bool)
  | notANumber
  deriving DecidableEq, Repr

def valueOfBits (bits : Nat) : Value :=
  let negative := bits / 0x8000000000000000 % 2 == 1
  let exponent : Nat := bits / 0x10000000000000 % 2048
  let fraction := bits % 0x10000000000000
  if exponent = 2047 then
    if fraction = 0 then .infinite negative else .notANumber
  else if exponent = 0 then .finite negative fraction (-1074)
  else .finite negative (0x10000000000000 + fraction) ((exponent : Int) - 1075)

def value (x : Float) : Value := valueOfBits x.toBits.toNat

/-- A value below zero.  Neither zero is, whatever its sign, and nor is what is no number. -/
def Value.isNegative : Value → Bool
  | finite negative mantissa _ => negative && mantissa != 0
  | infinite negative => negative
  | notANumber => false

/-- A mantissa times a power of two, cut down to a whole number. -/
def wholePart (mantissa : Nat) (exponent : Int) : Nat :=
  if exponent < 0 then mantissa / Nat.pow 2 exponent.natAbs
  else mantissa * Nat.pow 2 exponent.natAbs

/-- The double nearest to an integer, unless the integer lies beyond all doubles. -/
def ofInt? (n : Int) : Option Float :=
  match value (Float.ofInt n) with
  | .finite .. => some (Float.ofInt n)
  | _ => none

end Chip8.Double
