import Chip8.Command.HeldKeys
import Chip8.Command.Toolkit
import Chip8.Command.Value
import Chip8.Display.Canvas

/-!
# The runner's command line

`c8run` runs a program for a number of frames without a window and prints what the display shows in
the end.  Keys may be held meanwhile, and the display may be saved as a picture.
-/

namespace Chip8.Command.Run

def framesOption : OptionSpec := ⟨"frames", some 'f', .atLeast 0⟩

def cyclesOption : OptionSpec := ⟨"cycles-per-frame", none, .atLeast 1⟩

def seedOption : OptionSpec := ⟨"seed", none, .integer⟩

def keyOption : OptionSpec := ⟨"key", some 'k', .text⟩

def screenshotOption : OptionSpec := ⟨"screenshot", some 's', .outputFile⟩

def scaleOption : OptionSpec := ⟨"scale", none, .atLeast 1⟩

def registersOption : OptionSpec := ⟨"registers", some 'r', .flag⟩

def verboseOption : OptionSpec := ⟨"verbose", some 'v', .flag⟩

def program : Program where
  name := "c8run"
  argument := "ROM"
  summary := "Run a CHIP-8 ROM headless and print the display."
  options := [framesOption, cyclesOption, seedOption, keyOption, screenshotOption, scaleOption,
    registersOption, verboseOption]
  names_nodup := by decide
  isName := by decide

structure Options where
  path : String
  contents : Except FileError (List UInt8)
  frames : Int
  cycles : Option Int
  seed : Option Int
  keys : List String
  screenshot : Option String
  scale : Int
  showRegisters : Bool
  verbose : Bool

/-- The options of a run; what is not set has a default. -/
def Options.ofSettings (s : Settings) (w : Workspace) : Options where
  path := Path.tidy s.input
  contents := w.contents s.input
  frames := (s.number? framesOption).getD 60
  cycles := s.number? cyclesOption
  seed := s.number? seedOption
  keys := s.texts keyOption
  screenshot := s.path? screenshotOption
  scale := (s.number? scaleOption).getD 8
  showRegisters := s.has registersOption
  verbose := s.has verboseOption

/-- The settings of an environment, except for what the arguments set. -/
def overriding (cycles seed : Option Int) (env : Config) : Config where
  cyclesPerFrame := if 0 < cycles.getD 0 then (cycles.getD 0).toNat else env.cyclesPerFrame
  timerHz := env.timerHz
  seed := seed.or env.seed
  cyclesPerFrame_pos := by
    have := env.cyclesPerFrame_pos
    split <;> omega
  timerHz_pos := env.timerHz_pos

def registerText (m : Machine) : String :=
  let p := m.processor
  " ".intercalate ((List.finRange 16).map fun (x : Register) =>
    "V" ++ Hex.padded 1 x.val ++ "=" ++ Hex.padded 2 (p.v.get x).toNat) ++ "\n" ++
  "I=" ++ Hex.address p.i.toNat ++ " PC=" ++ Hex.address p.pc.toNat ++ " SP=" ++
    toString p.stack.depth ++ " DT=" ++ toString m.timers.delay ++ " ST=" ++
    toString m.timers.sound

/-- A program that could not be loaded fails the command: for want of a file, or for its size. -/
def romFailure : Emulator.RomError → Failure
  | .missing path => .request (Emulator.RomError.missing path).message
  | .load e => .machine e

section Session

variable {α : Type} (kit : Toolkit) (canvas : Canvas α)

def session (o : Options) (request : Request) : Session Unit := do
  let keys ← o.keys.mapM fun text =>
    Session.orFail (parseKey text) fun e => .request e.message
  let (env, log) := Config.ofEnvironment request.environment
  let config := overriding o.cycles o.seed env
  Session.showLog o.verbose (log ++ [⟨.debug, .runner, "Using " ++ config.text⟩])
  let loaded := (Emulator.fresh config request.entropy).loadRom o.path o.contents.toOption true
    request.entropy
  Session.showLog o.verbose loaded.log
  Session.orFail loaded.answer romFailure
  let finished := loaded.emulator.runHolding keys o.frames.toNat
  Session.showLog o.verbose finished.log
  let steps ← Session.orFail finished.answer .machine
  let machine := finished.emulator.machine
  kit.print (machine.display.plainText ++ "\n")
  if o.showRegisters then kit.print (registerText machine ++ "\n")
  if machine.isAwaitingKey then kit.note "Waiting for a key press"
  if let some path := o.screenshot then
    let picture ← Session.orFail (canvas.paint machine.display o.scale .white .black) fun e =>
      .unexpected e.message
    Session.write request.workspace path (.image (canvas.shown picture))
    kit.noteIf o.verbose ("Screenshot written to: " ++ path)
  kit.noteIf o.verbose ("Frames: " ++ toString o.frames ++ ", instructions: " ++ toString steps)

/-- The runner, whatever reads its arguments and whatever it paints on. -/
def command (request : Request) : Report :=
  match kit.read program request.arguments request.workspace with
  | .error report => report
  | .ok settings =>
    let o := Options.ofSettings settings request.workspace
    .ofSession kit o.verbose (session kit canvas o request)

end Session

def carryOut : Request → Report := command .standard Image.canvas

end Chip8.Command.Run
