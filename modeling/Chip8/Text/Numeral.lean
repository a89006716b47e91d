/-!
# Reading integers

A user may write an integer in the digits of any script, with blanks around it, a sign in front
and single underscores between digits.  A hexadecimal numeral may also begin with `0x`, which one
underscore may follow.  A decimal numeral has at most 4300 digits.

* `Numeral.digit?`: the value of a decimal digit of any script.
* `Numeral.decimal?` and `Numeral.hexadecimal?`: the integer of a text, if it is a numeral.
-/

namespace Chip8.Numeral

/-! ### Characters -/

/-- The zeros of the scripts that write numbers in base ten; the nine other digits of a script
follow its zero. -/
def zeros : List Nat :=
  [0x30, 0x660, 0x6F0, 0x7C0, 0x966, 0x9E6, 0xA66, 0xAE6, 0xB66, 0xBE6, 0xC66, 0xCE6, 0xD66,
    0xDE6, 0xE50, 0xED0, 0xF20, 0x1040, 0x1090, 0x17E0, 0x1810, 0x1946, 0x19D0, 0x1A80, 0x1A90,
    0x1B50, 0x1BB0, 0x1C40, 0x1C50, 0xA620, 0xA8D0, 0xA900, 0xA9D0, 0xA9F0, 0xAA50, 0xABF0,
    0xFF10, 0x104A0, 0x10D30, 0x11066, 0x110F0, 0x11136, 0x111D0, 0x112F0, 0x11450, 0x114D0,
    0x11650, 0x116C0, 0x11730, 0x118E0, 0x11950, 0x11C50, 0x11D50, 0x11DA0, 0x16A60, 0x16AC0,
    0x16B50, 0x1D7CE, 0x1D7D8, 0x1D7E2, 0x1D7EC, 0x1D7F6, 0x1E140, 0x1E2F0, 0x1E950, 0x1FBF0]

/-- The value of a decimal digit of any script. -/
def digit? (c : Char) : Option Nat :=
  (zeros.find? fun z => z ≤ c.toNat && c.toNat < z + 10).map fun z => c.toNat - z

/-- The value of a hexadecimal digit: a decimal digit of any script, or a letter up to `F`. -/
def hexDigit? (c : Char) : Option Nat :=
  if 'a' ≤ c ∧ c ≤ 'f' then some (c.toNat - 'a'.toNat + 10)
  else if 'A' ≤ c ∧ c ≤ 'F' then some (c.toNat - 'A'.toNat + 10)
  else digit? c

def isBlank (c : Char) : Bool :=
  let n := c.toNat
  (0x09 ≤ n && n ≤ 0x0D) || n == 0x20 || n == 0x85 || n == 0xA0 || n == 0x1680 ||
    (0x2000 ≤ n && n ≤ 0x200A) || n == 0x2028 || n == 0x2029 || n == 0x202F || n == 0x205F ||
    n == 0x3000

/-! ### Numerals -/

def strip (cs : List Char) : List Char :=
  ((cs.dropWhile isBlank).reverse.dropWhile isBlank).reverse

/-- The number that digits stand for, read after a number that stands before them.  There is at
least one digit, and single underscores may stand between digits. -/
def number? (base : Nat) (digitOf : Char → Option Nat) (before : Nat) : List Char → Option Nat
  | [] => none
  | c :: rest =>
    match digitOf c with
    | none => none
    | some d =>
      match rest with
      | [] => some (before * base + d)
      | '_' :: rest => number? base digitOf (before * base + d) rest
      | c :: rest => number? base digitOf (before * base + d) (c :: rest)

def signed? (read : List Char → Option Nat) : List Char → Option Int
  | '-' :: rest => (read rest).map fun n => -(n : Int)
  | '+' :: rest => (read rest).map fun n => (n : Int)
  | cs => (read cs).map fun n => (n : Int)

/-- The most digits that a decimal numeral may have. -/
def digitLimit : Nat := 4300

def decimalNumber? (cs : List Char) : Option Nat :=
  if digitLimit < cs.countP (· != '_') then none else number? 10 digit? 0 cs

def dropMark : List Char → List Char
  | z :: x :: rest =>
    if digit? z = some 0 ∧ (x = 'x' ∨ x = 'X') then
      match rest with
      | '_' :: rest => rest
      | rest => rest
    else z :: x :: rest
  | cs => cs

/-- A number in base sixteen, with or without its mark. -/
def hexadecimalNumber? (cs : List Char) : Option Nat := number? 16 hexDigit? 0 (dropMark cs)

def decimal? (text : String) : Option Int := signed? decimalNumber? (strip text.toList)

def hexadecimal? (text : String) : Option Int := signed? hexadecimalNumber? (strip text.toList)

end Chip8.Numeral
