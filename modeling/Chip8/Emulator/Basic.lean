import Chip8.Emulator.Config
import Chip8.Machine.Step
import Chip8.Timer.FrameClock

/-!
# The emulator

An emulator is a machine in the hands of a host: with settings, a clock that turns elapsed time
into frames, counts of steps and frames, and the fault that stopped it, if one did.

A call may answer or fail, and either way it leaves an emulator and some lines of log behind; a
`Reply` holds all three.
-/

namespace Chip8

/-- A machine in the hands of a host. -/
structure Emulator where
  config : Config
  machine : Machine
  /-- The part of a tick that the clock has left over. -/
  carry : Float
  /-- The fault that stopped the machine. -/
  halt : Option Fault
  steps : Nat
  frames : Nat

/-- What a call leaves behind. -/
structure Reply (ε α : Type) where
  answer : Except ε α
  emulator : Emulator
  log : List LogLine

namespace Reply

variable {ε ε' α β γ : Type}

/-- Goes on after a call that answered; a call that failed ends it all. -/
def andThen (r : Reply ε α) (next : α → Emulator → Reply ε β) : Reply ε β :=
  match r.answer with
  | .error e => ⟨.error e, r.emulator, r.log⟩
  | .ok a =>
    let r' := next a r.emulator
    ⟨r'.answer, r'.emulator, r.log ++ r'.log⟩

def map (f : α → β) (r : Reply ε α) : Reply ε β := ⟨r.answer.map f, r.emulator, r.log⟩

def mapError (f : ε → ε') (r : Reply ε α) : Reply ε' α :=
  ⟨r.answer.mapError f, r.emulator, r.log⟩

theorem andThen_assoc (r : Reply ε α) (f : α → Emulator → Reply ε β)
    (g : β → Emulator → Reply ε γ) :
    (r.andThen f).andThen g = r.andThen fun a e => (f a e).andThen g := by
  obtain ⟨answer, e, log⟩ := r
  cases answer with
  | error err => rfl
  | ok a =>
    simp only [andThen]
    cases h : (f a e).answer <;> simp [List.append_assoc]

end Reply

namespace Emulator

/-- An answer that leaves the emulator as it is and logs nothing. -/
def answering {ε α : Type} (e : Emulator) (a : α) : Reply ε α := ⟨.ok a, e, []⟩

theorem answering_andThen {ε α β : Type} (e : Emulator) (a : α) (f : α → Emulator → Reply ε β) :
    (e.answering a : Reply ε α).andThen f = f a e := by
  simp [answering, Reply.andThen]

theorem map_eq_andThen {ε α β : Type} (r : Reply ε α) (f : α → β) :
    r.map f = r.andThen fun a e => e.answering (f a) := by
  obtain ⟨answer, e, log⟩ := r
  cases answer <;> simp [Reply.map, Reply.andThen, answering, Except.map]

/-! ### Starting over -/

/-- An emulator as it is when it is built.  Without a seed in the settings, random bytes come from
the given one. -/
def fresh (config : Config) (entropy : Int) : Emulator where
  config := config
  machine := Machine.fresh (Twister.seeded (config.seed.getD entropy))
  carry := 0
  halt := none
  steps := 0
  frames := 0

def clock (e : Emulator) : FrameClock := ⟨e.config.timerHz, e.carry, e.config.timerHz_pos⟩

/-- Starts over, part by part: every part of the machine is cleared by its own means, the clock
drops what is left over, and the halt and the counts are taken back.  Without a seed in the
settings, random bytes come from the given one, as they do in a new emulator. -/
def reset (e : Emulator) (entropy : Int := 0) : Emulator :=
  let m := e.machine
  { e with
    machine := { m with
      processor := m.resetProcessor.processor
      memory := m.memory.clear
      display := m.display.clear
      keypad := m.keypad.reset
      timers := m.timers.reset
      random := Twister.seeded (e.config.seed.getD entropy) }
    carry := e.clock.reset.remainder
    halt := none
    steps := 0
    frames := 0 }

def resetLine : LogLine := ⟨.debug, .emulator, "Emulator reset"⟩

/-! ### Programs -/

/-- The line to log for a program that was loaded. -/
def loadedLine (count : Nat) : LogLine :=
  ⟨.info, .emulator, "Loaded " ++ toString count ++ " byte program at " ++
    Hex.target Memory.programStart⟩

/-- Copies a program to where programs start, after starting over if told so.  A program that does
not fit changes nothing at all. -/
def load (e : Emulator) (data : List UInt8) (startOver : Bool) (entropy : Int := 0) :
    Reply Error Unit :=
  if Memory.programCapacity < data.length then
    ⟨.error (.loadTooLarge data.length Memory.programCapacity), e, []⟩
  else
    let started := if startOver then e.reset entropy else e
    let log := if startOver then [resetLine] else []
    match started.machine.memory.loadProgram data Memory.programStart with
    | .error err => ⟨.error err, started, log⟩
    | .ok memory =>
      ⟨.ok (), { started with machine := { started.machine with memory } },
        log ++ [Memory.copiedLine data.length Memory.programStart, loadedLine data.length]⟩

/-- Why a program could not be loaded from a file. -/
inductive RomError
  | missing (path : String)
  | load (e : Error)

def RomError.message : RomError → String
  | missing path => "ROM file not found: " ++ path
  | load e => e.message

/-- Loads the contents of a file, if the file is there. -/
def loadRom (e : Emulator) (path : String) (contents : Option (List UInt8)) (startOver : Bool)
    (entropy : Int := 0) : Reply RomError Unit :=
  match contents with
  | none => ⟨.error (.missing path), e, []⟩
  | some data =>
    let r := (e.load data startOver entropy).mapError RomError.load
    { r with log := ⟨.debug, .emulator, "Reading ROM " ++ path⟩ :: r.log }

/-! ### The host's side of the machine -/

def withMachine (e : Emulator) (machine : Machine) : Emulator := { e with machine }

def tick (e : Emulator) : Emulator := e.withMachine e.machine.tick

/-- A key by its index or by its name on the host's keyboard. -/
inductive KeyChoice
  | index (index : Int)
  | name (name : String)

/-- The index of a key that a host chose. -/
def KeyChoice.resolve : KeyChoice → Except Keypad.Error Int
  | index i => .ok i
  | name n => (Keypad.keyOfName n).map fun key => (key.val : Int)

def setKey (e : Emulator) (index : Int) (hold : Bool) : Except Keypad.Error Emulator :=
  (e.machine.setKey index hold).map e.withMachine

def pressKey (e : Emulator) (key : KeyChoice) : Except Keypad.Error Emulator := do
  e.setKey (← key.resolve) true

def releaseKey (e : Emulator) (key : KeyChoice) : Except Keypad.Error Emulator := do
  e.setKey (← key.resolve) false

/-- Puts integers into memory, each by its low eight bits. -/
def writeBytes (e : Emulator) (address : Int) (values : List Int) : Except Cause Emulator :=
  (e.machine.writeBlock address values).map e.withMachine

/-- The registers by name: the sixteen bytes, the index, the program counter, how many calls are
open, and the timers. -/
def registers (e : Emulator) : List (String × Int) :=
  let p := e.machine.processor
  let bytes := (List.finRange 16).map fun (x : Register) =>
    ("v" ++ String.ofList (Nat.toDigits 16 x.val), ((p.v.get x).toNat : Int))
  let rest : List (String × Int) :=
    [("i", p.i.toNat), ("pc", p.pc.toNat), ("sp", p.stack.depth), ("dt", e.machine.timers.delay),
      ("st", e.machine.timers.sound)]
  bytes ++ rest

def text (e : Emulator) : String :=
  "Emulator(pc=" ++ Hex.address e.machine.processor.pc.toNat ++ ", i=" ++
    Hex.address e.machine.processor.i.toNat ++ ", steps=" ++ toString e.steps ++ ")"

end Emulator

end Chip8
