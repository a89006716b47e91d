import Chip8.Command.Disassemble
import Chip8.Command.Run
import Chip8.Display.Png
import Chip8.Emulator.Config

/-!
# The program

The first argument names a command, `c8run` or `c8disasm`; the others are the command's own.  All
that happens here is to look up the paths a command may ask for, to carry it out, and to print and
write what it leaves behind.
-/

namespace Chip8.Command

def commands : List (Program × (Request → Report)) :=
  [(Run.program, Run.carryOut), (Disassemble.program, Disassemble.carryOut)]

/-- What to print if the first argument names no command. -/
def commandHint : String :=
  "Usage: chip8 COMMAND [ARGS]\n\nCommands: " ++
    ", ".intercalate (commands.map fun c => c.1.name) ++ "\n"

/-- Where a path leads that could not be read.  A directory can be opened, but has no bytes. -/
def statusOf : IO.Error → Status
  | .inappropriateType none .. => .directory
  | .inappropriateType .. => .notDirectory
  | .invalidArgument .. => .nameTooLong
  | _ => .missing

def lookUp (path : String) : IO Status := do
  try
    return .file (← IO.FS.readBinFile path).toList
  catch failure =>
    return statusOf failure

/-- The value of a variable, if it is set. -/
def readVariable (name : String) : IO (List (String × String)) := do
  match ← IO.getEnv name with
  | some value => return [(name, value)]
  | none => return []

def gather (program : Program) (arguments : List String) : IO Request := do
  let known ← (program.paths arguments).mapM fun path => do return (path, ← lookUp path)
  let settings ← [Config.cyclesVariable, Config.rateVariable, Config.seedVariable].mapM
    readVariable
  let entropy ← IO.rand 0 0x7FFFFFFF
  return {
    arguments := arguments
    workspace := .ofStatuses known
    environment := settings.flatten
    entropy := entropy }

def save (path : String) : Content → IO Unit
  | .text s => IO.FS.writeFile path s
  | .image picture => IO.FS.writeBinFile path (Png.encode picture)

def deliver (report : Report) : IO UInt32 := do
  for (path, content) in report.transcript.written do save path content
  IO.print report.transcript.out
  IO.eprint report.transcript.err
  return UInt32.ofNat report.exitCode

end Chip8.Command

open Chip8.Command in
/-- Carries out the command that the first argument names. -/
def main (arguments : List String) : IO UInt32 := do
  match arguments with
  | [] =>
    IO.eprint commandHint
    return 2
  | name :: rest =>
    match commands.find? fun c => c.1.name == name with
    | some (program, carryOut) => deliver (carryOut (← gather program rest))
    | none =>
      IO.eprint commandHint
      return 2
