/-!
# Log lines

Operations say what they did in lines that a host may print or drop.  Nothing else depends on
them: a line is part of an operation's answer, never of the machine.
-/

namespace Chip8

/-- How much a line matters, from the chatter of a verbose run to a failure. -/
inductive LogLevel
  | debug
  | info
  | warning
  | error
  deriving DecidableEq, Repr

/-- The word that stands for a level at the head of a line. -/
def LogLevel.label : LogLevel → String
  | debug => "DEBUG"
  | info => "INFO"
  | warning => "WARNING"
  | error => "ERROR"

/-- Which part of the machine or which command a line comes from. -/
inductive LogSource
  | memory
  | processor
  | emulator
  | runner
  deriving DecidableEq, Repr

/-- The channel a host can filter lines by. -/
def LogSource.channel : LogSource → String
  | memory => "chip8_vm.emulator.memory"
  | processor => "chip8_vm.emulator.cpu"
  | emulator => "chip8_vm.emulator.emulator"
  | runner => "chip8_vm.cli.c8run"

structure LogLine where
  level : LogLevel
  source : LogSource
  message : String
  deriving DecidableEq, Repr

/-- A quiet host sees lines that matter, a verbose one all of them. -/
def LogLine.isShown (verbose : Bool) (line : LogLine) : Bool :=
  verbose || line.level == .warning || line.level == .error

/-- A line as a command prints it; a verbose command names the channel too. -/
def LogLine.render (verbose : Bool) (line : LogLine) : String :=
  if verbose then line.level.label ++ ": " ++ line.source.channel ++ ": " ++ line.message
  else line.level.label ++ ": " ++ line.message

end Chip8
