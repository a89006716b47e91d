import Chip8.Decimal.Double

/-!
# The shortest decimal of a double

Every decimal near enough to a double reads back as that double.  The text of a double is made of
the fewest digits that do, and among those of the digits nearest to its value.  For each number of
digits only two decimals come into question: the ones just below and just above the value.

* `Decimal.shortest`: the digits and their power of ten.
* `Decimal.ofDouble`: the text, with a point for numbers from `0.0001` up to sixteen digits and
  with an exponent for all others.
-/

namespace Chip8.Decimal

/-- A decimal: its digits, read as a number, times a power of ten. -/
structure Scaled where
  digits : Nat
  power : Int
  deriving DecidableEq, Repr

/-- A positive fraction together with the bounds between which every number reads back as it:
`value` over `unit` is the fraction, `low` and `high` over `unit` are the bounds, and these belong
to the range if `closed`. -/
structure Range where
  value : Nat
  low : Nat
  high : Nat
  unit : Nat
  closed : Bool

/-- The range of a finite double.  Its neighbours are one unit of the mantissa away, but half as
far below a power of two. -/
def Range.ofDouble (mantissa : Nat) (exponent : Int) : Range :=
  let up := Nat.pow 2 exponent.toNat
  let below := if mantissa = 0x10000000000000 ∧ -1074 < exponent then 1 else 2
  { value := 4 * mantissa * up
    low := (4 * mantissa - below) * up
    high := (4 * mantissa + 2) * up
    unit := 4 * Nat.pow 2 (-exponent).toNat
    closed := mantissa % 2 = 0 }

/-- The range, with all numbers divided by a power of ten. -/
def Range.divide (r : Range) (power : Int) : Range :=
  let grow := Nat.pow 10 (-power).toNat
  { r with
    value := r.value * grow
    low := r.low * grow
    high := r.high * grow
    unit := r.unit * Nat.pow 10 power.toNat }

def Range.contains (r : Range) (n : Nat) : Bool :=
  if r.closed then r.low ≤ n * r.unit && n * r.unit ≤ r.high
  else r.low < n * r.unit && n * r.unit < r.high

/-- The whole number in the range that is nearest to the value, if one of its two neighbours lies
in the range; of two equally near ones the even one. -/
def Range.whole? (r : Range) : Option Nat :=
  let below := r.value / r.unit
  let rest := 2 * (r.value % r.unit)
  match r.contains below, r.contains (below + 1) with
  | true, true =>
    if rest < r.unit ∨ (rest = r.unit ∧ below % 2 = 0) then some below else some (below + 1)
  | true, false => some below
  | false, true => some (below + 1)
  | false, false => none

/-- The least number of further digits, at most `fuel`, after which a fraction is at least one. -/
def leadingZeros (value unit : Nat) : Nat → Nat
  | 0 => 0
  | fuel + 1 => if unit ≤ value then 0 else 1 + leadingZeros (value * 10) unit fuel

/-- The power of ten of the first digit of a positive fraction. -/
def firstPower (value unit : Nat) : Int :=
  if unit ≤ value then (Nat.toDigits 10 (value / unit)).length - 1
  else -(leadingZeros value unit 400 : Nat)

/-- A decimal without a zero at the end of digits that were rounded up. -/
def Scaled.trim (s : Scaled) : Scaled :=
  if s.digits % 10 = 0 then ⟨s.digits / 10, s.power + 1⟩ else s

/-- The shortest decimal that reads back as a positive double, and of those the nearest.  Seventeen
digits are always enough. -/
def shortest (mantissa : Nat) (exponent : Int) : Scaled :=
  let range := Range.ofDouble mantissa exponent
  let first := firstPower range.value range.unit
  let found := (List.range 17).findSome? fun (further : Nat) =>
    (range.divide (first - further)).whole?.map fun digits => (⟨digits, first - further⟩ : Scaled)
  (found.getD ⟨0, 0⟩).trim

def zeros (count : Int) : List Char := List.replicate count.toNat '0'

/-- The exponent of a decimal: a sign and at least two digits. -/
def exponentText (e : Int) : List Char :=
  (if e < 0 then '-' else '+') :: (Nat.toDigits 10 e.natAbs).leftpad 2 '0'

/-- The text of a positive decimal.  From the fourth place behind the point up to sixteen places
before it, the point stands where it belongs; otherwise it follows the first digit. -/
def Scaled.text (s : Scaled) : List Char :=
  let digits := Nat.toDigits 10 s.digits
  let point := digits.length + s.power
  if -4 < point ∧ point ≤ 16 then
    if point ≤ 0 then '0' :: '.' :: (zeros (-point) ++ digits)
    else if 0 ≤ s.power then digits ++ zeros s.power ++ ['.', '0']
    else digits.take point.toNat ++ '.' :: digits.drop point.toNat
  else
    let fraction := digits.drop 1
    digits.take 1 ++ (if fraction.isEmpty then [] else '.' :: fraction) ++
      'e' :: exponentText (point - 1)

def ofDouble (x : Float) : String :=
  match Double.value x with
  | .notANumber => "nan"
  | .infinite negative => if negative then "-inf" else "inf"
  | .finite negative mantissa exponent =>
    let magnitude := if mantissa = 0 then ['0', '.', '0'] else (shortest mantissa exponent).text
    String.ofList (if negative then '-' :: magnitude else magnitude)

end Chip8.Decimal
