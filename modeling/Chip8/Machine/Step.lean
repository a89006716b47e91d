import Chip8.Instruction.Arithmetic
import Chip8.Machine.Basic

/-!
# Steps

A step fetches the word that the program counter points at, moves the counter past it, and carries
out the instruction; jumps, calls, returns and taken skips move the counter again.  A step either
succeeds with an outcome and a new machine, or it is a fault: a fault has no new machine, so a
machine that faulted is exactly as it was.

An instruction that waits for a key does not block.  Every step meanwhile changes nothing, until a
key has been pressed after the wait began; the step after the press delivers the key.
-/

namespace Chip8

/-- What a step did. -/
inductive Outcome
  | executed
  /-- The word has no meaning and was skipped over. -/
  | ignored
  | awaitingKey
  | keyReceived
  deriving DecidableEq, Repr

namespace Machine

/-! ### Small steps of the processor -/

def reg (m : Machine) (x : Register) : UInt8 := m.processor.v.get x

def setReg (m : Machine) (x : Register) (byte : UInt8) : Machine :=
  { m with processor := { m.processor with v := m.processor.v.set x byte } }

def setFlag (m : Machine) (raised : Bool) : Machine :=
  { m with processor := { m.processor with v := m.processor.v.setFlag raised } }

def setCounter (m : Machine) (pc : UInt16) : Machine :=
  { m with processor := { m.processor with pc } }

def setIndex (m : Machine) (i : UInt16) : Machine :=
  { m with processor := { m.processor with i } }

/-- Moves the program counter past one word. -/
def advance (m : Machine) : Machine := m.setCounter (m.processor.pc + 2)

/-- The key that a register names by its low four bits. -/
def keyIn (m : Machine) (x : Register) : Key := ⟨(m.reg x).toNat % 16, by omega⟩

def holds (m : Machine) : Condition → Bool
  | .equalByte x byte => m.reg x == byte
  | .unequalByte x byte => m.reg x != byte
  | .equalRegister x y => m.reg x == m.reg y
  | .unequalRegister x y => m.reg x != m.reg y
  | .keyHeld x => m.keypad.isHeld (m.keyIn x)
  | .keyFree x => !m.keypad.isHeld (m.keyIn x)

def decimalDigits (b : UInt8) : List UInt8 := [b / 100, b / 10 % 10, b % 10]

/-- The first `x + 1` registers hold these bytes. -/
def loadRegisters (m : Machine) (data : List UInt8) : Machine :=
  { m with processor := { m.processor with v := m.processor.v.setFrom 0 data } }

/-- Begins to wait for a key.  The program counter goes back to the waiting instruction. -/
def beginWait (m : Machine) (x : Register) : Machine :=
  { m with processor := { m.processor with
      waiting := some x
      pressMark := m.keypad.presses
      pc := m.processor.pc - 2 } }

/-- Ends the wait for a key: the key goes into its register, and the program counter moves on. -/
def endWait (m : Machine) (x : Register) (key : Key) : Machine :=
  { m with processor := { m.processor with
      v := m.processor.v.set x (UInt8.ofNat key)
      waiting := none
      pc := m.processor.pc + 2 } }

/-! ### Instructions -/

def done (m : Machine) : Except Cause (Outcome × Machine) := .ok (.executed, m)

/-- Carries out an instruction on a machine whose program counter is past it already. -/
def execute (m : Machine) : Instruction → Except Cause (Outcome × Machine)
  | .machineCall _ | .unassigned _ => .ok (.ignored, m)
  | .clearScreen => done { m with display := m.display.clear }
  | .ret => do
    let (address, stack) ← m.processor.stack.pop
    done { m with processor := { m.processor with stack, pc := address } }
  | .jump target => done (m.setCounter (Word.ofAddress target))
  | .call target => do
    let stack ← m.processor.stack.push m.processor.pc
    done { m with processor := { m.processor with stack, pc := Word.ofAddress target } }
  | .jumpIndexed base => done (m.setCounter (Word.ofAddress base + (m.reg Registers.first).toUInt16))
  | .skip condition => done (if m.holds condition then m.advance else m)
  | .loadByte x byte => done (m.setReg x byte)
  | .addByte x byte => done (m.setReg x (m.reg x + byte))
  | .combine operation x y =>
    match operation.apply (m.reg x) (m.reg y) with
    | (byte, none) => done (m.setReg x byte)
    | (byte, some raised) => done ((m.setReg x byte).setFlag raised)
  | .loadIndex target => done (m.setIndex (Word.ofAddress target))
  | .random x mask =>
    let (byte, random) := m.random.byte
    done ({ m with random }.setReg x (byte &&& mask))
  | .draw x y rows => do
    let sprite ← m.memory.readBlock m.processor.i.toNat rows
    let (display, collision) := m.display.draw (m.reg x).toNat (m.reg y).toNat sprite
    done ({ m with display }.setFlag collision)
  | .readDelay x => done (m.setReg x (UInt8.ofInt m.timers.delay))
  | .awaitKey x => .ok (.awaitingKey, m.beginWait x)
  | .setDelay x => done { m with timers := { m.timers with delay := (m.reg x).toNat } }
  | .setSound x => done { m with timers := { m.timers with sound := (m.reg x).toNat } }
  | .addIndex x => done (m.setIndex (m.processor.i + (m.reg x).toUInt16))
  | .glyph x => done (m.setIndex (Word.ofAddress (Font.glyph (m.keyIn x))))
  | .decimal x => do
    let memory ← m.memory.writeBytes m.processor.i.toNat (decimalDigits (m.reg x))
    done { m with memory }
  | .store x => do
    let memory ← m.memory.writeBytes m.processor.i.toNat (m.processor.v.upTo x)
    done { m with memory }
  | .restore x => do
    let data ← m.memory.readBlock m.processor.i.toNat (x.val + 1)
    done (m.loadRegisters data)

/-- Hands a word to the execution unit with the instruction it was decoded to.  A word that comes
without one belongs to a group that nothing handles. -/
def dispatch (m : Machine) (word : Int) : Option Instruction → Except Cause (Outcome × Machine)
  | some instruction => m.execute instruction
  | none => .error (.unrecognizedGroup word)

/-! ### Steps -/

/-- A step of a machine that waits: nothing happens until there is a fresh press. -/
def resume (m : Machine) (x : Register) : Outcome × Machine :=
  match m.freshPress? with
  | some key => (.keyReceived, m.endWait x key)
  | none => (.awaitingKey, m)

/-- Carries out what was fetched from an address.  A fault names the address and, once it has been
fetched, the word. -/
def carryOut (m : Machine) (address : Int) :
    Except Cause UInt16 → Except Fault (Outcome × Machine)
  | .error cause => .error ⟨cause, some address, none⟩
  | .ok word =>
    match m.advance.dispatch word.toNat (some (Instruction.decode word)) with
    | .error cause => .error ⟨cause, some address, some (word.toNat : Int)⟩
    | .ok result => .ok result

/-- Executes one instruction, or goes on waiting for a key. -/
def step (m : Machine) : Except Fault (Outcome × Machine) :=
  match m.processor.waiting with
  | some x => .ok (m.resume x)
  | none => m.carryOut m.processor.pc.toNat (m.memory.readWord m.processor.pc.toNat)

/-- The lines to log for a step of this machine with the given outcome: words without a meaning
are reported. -/
def remarks (m : Machine) (outcome : Outcome) : List LogLine :=
  match outcome, m.nextWord? with
  | .ignored, some word =>
    [⟨.warning, .processor, "Ignoring unimplemented opcode " ++ Hex.padded 4 word.toNat ++ " at " ++
      Hex.address m.processor.pc.toNat⟩]
  | _, _ => []

end Machine

end Chip8
