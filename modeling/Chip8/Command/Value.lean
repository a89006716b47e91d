import Chip8.Keypad
import Chip8.Text.Numeral

/-!
# Values of options

An address is written in hexadecimal behind `0x` or `$`, or else in decimal, and lies in memory.  A
key of the keypad is one hexadecimal digit.  Both are read as lenient numerals.
-/

namespace Chip8.Command

/-- A text that gives no address. -/
inductive AddressError
  | malformed (text : String)
  | outOfRange (text : String)
  deriving DecidableEq, Repr

def AddressError.message : AddressError → String
  | malformed text => "invalid address '" ++ text ++ "'"
  | outOfRange text => "address must be 0-4095 (0x000-0xFFF), got " ++ text

/-- The integer that an address text stands for: the mark in front decides on the base. -/
def addressNumeral? (text : String) : Option Int :=
  match text.toList with
  | '0' :: 'x' :: _ | '0' :: 'X' :: _ => Numeral.hexadecimal? text
  | '$' :: rest => Numeral.hexadecimal? (String.ofList rest)
  | _ => Numeral.decimal? text

def parseAddress (text : String) : Except AddressError Nat :=
  match addressNumeral? text with
  | none => .error (.malformed text)
  | some n => if 0 ≤ n ∧ n < 4096 then .ok n.toNat else .error (.outOfRange text)

/-- A text that gives no key. -/
inductive KeyError
  | malformed (text : String)
  | outOfRange (text : String)
  deriving DecidableEq, Repr

def KeyError.message : KeyError → String
  | malformed text => "'" ++ text ++ "' is not a hex key (0-F)"
  | outOfRange text => "key " ++ text ++ " out of range (0-F)"

def parseKey (text : String) : Except KeyError Key :=
  match Numeral.hexadecimal? text with
  | none => .error (.malformed text)
  | some n =>
    match Word.nibble? n with
    | some key => .ok key
    | none => .error (.outOfRange text)

end Chip8.Command
