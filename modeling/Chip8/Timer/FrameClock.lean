import Chip8.Decimal.Shortest

/-!
# The frame clock

A host tells how much time has passed, in seconds, and the clock answers how many ticks are due.
The part of a tick that is left over is carried to the next call.  Nothing here looks at real time.

Time is a whole number or a double.  A whole number is multiplied by the rate exactly and rounded
once; a double is multiplied as a double.  A refusal leaves the clock as it was.
-/

namespace Chip8

inductive Elapsed
  | whole (seconds : Int)
  | real (seconds : Float)

def Elapsed.text : Elapsed → String
  | whole seconds => toString seconds
  | real seconds => Decimal.ofDouble seconds

def Elapsed.isNegative : Elapsed → Bool
  | whole seconds => seconds < 0
  | real seconds => (Double.value seconds).isNegative

/-- A rate of ticks and the part of a tick that is left over. -/
structure FrameClock where
  hz : Nat
  remainder : Float
  hz_pos : 0 < hz

namespace FrameClock

/-- A call that the clock refuses. -/
inductive Error
  | rateNotPositive (hz : Int)
  | negativeTime (elapsed : Elapsed)
  | notANumber
  | infiniteTime
  | tooLarge

def Error.message : Error → String
  | rateNotPositive hz => "hz must be positive, got " ++ toString hz
  | negativeTime elapsed => "elapsed time cannot be negative, got " ++ elapsed.text
  | notANumber => "cannot convert float NaN to integer"
  | infiniteTime => "cannot convert float infinity to integer"
  | tooLarge => "int too large to convert to float"

def standardHz : Nat := 60

/-- A clock of a given rate with nothing left over. -/
def ofHz (hz : Int) : Except Error FrameClock :=
  if h : 0 < hz then .ok ⟨hz.toNat, 0, by omega⟩ else .error (.rateNotPositive hz)

def toDouble (n : Int) : Except Error Float :=
  match Double.ofInt? n with
  | some x => .ok x
  | none => .error .tooLarge

def period (clock : FrameClock) : Except Error Float := (toDouble clock.hz).map fun hz => 1.0 / hz

def wholePart (x : Float) : Except Error Int :=
  match Double.value x with
  | .finite negative mantissa exponent =>
    let n : Int := Double.wholePart mantissa exponent
    .ok (if negative then -n else n)
  | .infinite _ => .error .infiniteTime
  | .notANumber => .error .notANumber

/-- An amount of time in ticks; what is infinite or no number has none. -/
def scale (clock : FrameClock) : Elapsed → Except Error Float
  | .whole seconds => toDouble (seconds * clock.hz)
  | .real seconds => do
    let hz ← toDouble clock.hz
    let _ ← wholePart seconds
    return seconds * hz

/-- What is left of a total after so many ticks, and never less than nothing. -/
def leftOver (total ticks : Float) : Float := if 0 < total - ticks then total - ticks else 0

/-- The ticks that are due after some time, and the clock with what is left over.  A total that is
within a thousand-millionth of the next tick counts as that tick, so that rounding loses none. -/
def advance (clock : FrameClock) (elapsed : Elapsed) : Except Error (Int × FrameClock) :=
  if elapsed.isNegative then .error (.negativeTime elapsed)
  else do
    let scaled ← clock.scale elapsed
    let total := clock.remainder + scaled
    let ticks ← wholePart (total + 1e-9)
    let spent ← toDouble ticks
    return (ticks, { clock with remainder := leftOver total spent })

def reset (clock : FrameClock) : FrameClock := { clock with remainder := 0 }

end FrameClock

end Chip8
