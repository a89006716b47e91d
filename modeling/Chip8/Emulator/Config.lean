import Chip8.Log
import Chip8.Text.Numeral
import Chip8.Text.Quoted

/-!
# Settings

An emulator is set up with the number of instructions per frame, the rate of its timers and a seed
for random bytes.  The first two are at least one.  Settings may come from environment variables,
whose values are lenient numerals; a value that is no numeral is passed over, and numerals that
make no valid settings are passed over together.
-/

namespace Chip8

structure Config where
  cyclesPerFrame : Nat := 10
  timerHz : Nat := 60
  /-- Without a seed, random bytes differ from run to run. -/
  seed : Option Int := none
  cyclesPerFrame_pos : 0 < cyclesPerFrame := by decide
  timerHz_pos : 0 < timerHz := by decide
  deriving DecidableEq

namespace Config

/-- A setting below one. -/
inductive Error
  | cyclesPerFrame (given : Int)
  | timerHz (given : Int)
  deriving DecidableEq, Repr

def Error.message : Error → String
  | cyclesPerFrame given => "cycles_per_frame must be at least 1, got " ++ toString given
  | timerHz given => "timer_hz must be at least 1, got " ++ toString given

/-- The settings of a frame, a rate and a seed; the frame is checked first. -/
def of (cyclesPerFrame timerHz : Int) (seed : Option Int) : Except Error Config :=
  if hc : 0 < cyclesPerFrame then
    if ht : 0 < timerHz then
      .ok ⟨cyclesPerFrame.toNat, timerHz.toNat, seed, by omega, by omega⟩
    else .error (.timerHz timerHz)
  else .error (.cyclesPerFrame cyclesPerFrame)

def text (c : Config) : String :=
  "EmulatorConfig(cycles_per_frame=" ++ toString c.cyclesPerFrame ++ ", timer_hz=" ++
    toString c.timerHz ++ ", seed=" ++
    (match c.seed with
      | some seed => toString seed
      | none => "None") ++ ")"

/-! ### Environment variables -/

abbrev Environment := List (String × String)

/-- The variable for the number of instructions per frame. -/
def cyclesVariable : String := "CHIP8_CYCLES_PER_FRAME"

def rateVariable : String := "CHIP8_TIMER_HZ"

def seedVariable : String := "CHIP8_SEED"

/-- The integer that a variable is set to, if any.  An empty value counts as none, and a value that
is no numeral is logged. -/
def setting (env : Environment) (name : String) : Option Int × List LogLine :=
  match env.lookup name with
  | none => (none, [])
  | some raw =>
    if raw.isEmpty then (none, [])
    else
      match Numeral.decimal? raw with
      | some n => (some n, [])
      | none =>
        (none, [⟨.debug, .emulator, "Ignoring non-integer " ++ name ++ "=" ++ Quoted.quote raw⟩])

/-- The settings that an environment asks for, and the lines to log. -/
def ofEnvironment (env : Environment) : Config × List LogLine :=
  let (cycles, log₁) := setting env cyclesVariable
  let (hz, log₂) := setting env rateVariable
  let (seed, log₃) := setting env seedVariable
  let log := log₁ ++ log₂ ++ log₃
  match of (cycles.getD 10) (hz.getD 60) seed with
  | .ok config => (config, log)
  | .error e =>
    ({}, log ++ [⟨.debug, .emulator, "Ignoring invalid environment configuration: " ++ e.message⟩])

end Config

end Chip8
