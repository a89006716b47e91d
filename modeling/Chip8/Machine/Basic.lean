import Chip8.Display.Basic
import Chip8.Instruction.Decode
import Chip8.Keypad
import Chip8.Memory.Font
import Chip8.Processor.CallStack
import Chip8.Processor.Registers
import Chip8.Random.Twister
import Chip8.Timer.Countdown

/-!
# The machine

A machine is a processor together with memory, display, keypad, timers and a source of random
bytes.  The processor has the registers, an index into memory, the address of the next instruction
and the call stack; while an instruction waits for a key, it also remembers for which register.
-/

namespace Chip8

structure Processor where
  v : Registers
  i : UInt16
  pc : UInt16
  stack : CallStack
  /-- The register that a waiting instruction will put the key into. -/
  waiting : Option Register
  /-- How many presses there had been when the latest wait began. -/
  pressMark : Nat
  deriving DecidableEq

def Processor.fresh : Processor where
  v := Registers.zero
  i := 0
  pc := UInt16.ofNat Memory.programStart
  stack := CallStack.empty CallStack.standardCapacity
  waiting := none
  pressMark := 0

/-- All that a running program can see or change. -/
structure Machine where
  processor : Processor
  memory : Memory
  display : Display
  keypad : Keypad
  timers : Timers
  random : Twister
  deriving DecidableEq

namespace Machine

/-- A machine without a program, with a source of random bytes. -/
def fresh (random : Twister) : Machine where
  processor := Processor.fresh
  memory := Memory.fresh
  display := Display.blank
  keypad := Keypad.released
  timers := {}
  random := random

def isAwaitingKey (m : Machine) : Bool := m.processor.waiting.isSome

/-- The press that ends the wait of an instruction: the latest one, if it came after the wait
began. -/
def freshPress? (m : Machine) : Option Key :=
  if m.processor.pressMark < m.keypad.presses then m.keypad.lastPress else none

/-- An instruction waits for a key, and one has been pressed since. -/
def isKeyReady (m : Machine) : Bool := m.isAwaitingKey && m.freshPress?.isSome

/-- The word that the next step would execute, if there is one at its address. -/
def nextWord? (m : Machine) : Option UInt16 :=
  (m.memory.readWord m.processor.pc.toNat).toOption

/-! ### Changes by a host -/

def resetProcessor (m : Machine) : Machine := { m with processor := Processor.fresh }

def tick (m : Machine) : Machine := { m with timers := m.timers.tick }

def resetKeypad (m : Machine) : Machine := { m with keypad := m.keypad.reset }

def markRefreshed (m : Machine) : Machine := { m with display := m.display.markRefreshed }

def setKey (m : Machine) (index : Int) (hold : Bool) : Except Keypad.Error Machine :=
  (m.keypad.setKey index hold).map fun keypad => { m with keypad }

/-- Puts integers into memory, each by its low eight bits. -/
def writeBlock (m : Machine) (address : Int) (values : List Int) : Except Cause Machine :=
  (m.memory.writeBlock address values).map fun memory => { m with memory }

end Machine

end Chip8
