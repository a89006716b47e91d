import Chip8.Emulator.Run

/-!
# Running with keys held

A key that has been held since before a wait began is no fresh press.  So that held keys answer
every wait, they are let go and pressed again before each frame that begins with a wait that no
press has ended.
-/

namespace Chip8.Emulator

def holdKey (hold : Bool) (e : Emulator) (key : Key) : Emulator :=
  e.withMachine { e.machine with keypad := e.machine.keypad.update key hold }

def holdAll (keys : List Key) (e : Emulator) : Emulator := keys.foldl (holdKey true) e

/-- Lets every listed key go and presses it again, one key after the other. -/
def pressAnew (keys : List Key) (e : Emulator) : Emulator :=
  keys.foldl (fun e key => holdKey true (holdKey false e key) key) e

/-- So many frames, with the keys pressed anew before each frame that would be idle. -/
def framesHolding (keys : List Key) : Nat → Emulator → Reply Error Nat
  | 0, e => e.answering 0
  | count + 1, e =>
    let ready := if !keys.isEmpty && e.isIdle then e.pressAnew keys else e
    (ready.runFrames 1).andThen fun done e => (framesHolding keys count e).map (done + ·)

/-- Runs a number of frames with keys held; the answer is the number of steps made. -/
def runHolding (e : Emulator) (keys : List Key) (count : Nat) : Reply Error Nat :=
  framesHolding keys count (e.holdAll keys)

end Chip8.Emulator
