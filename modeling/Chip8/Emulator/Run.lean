import Chip8.Emulator.Basic
import Chip8.Emulator.Event

/-!
# Running

A host drives an emulator by single steps, by a number of steps, by frames, or by elapsed time.  A
frame is one tick of the timers and then so many steps as the settings say; while an instruction
waits for a key that has not come, the rest of the frame is left out.

A step that faults halts the emulator: only a reset lets it go on.
-/

namespace Chip8

namespace Emulator

/-! ### Steps -/

def stepEvent (m : Machine) (outcome : Outcome) : StepEvent where
  reason := some .step
  outcome := some outcome
  address := some m.processor.pc.toNat
  word := m.nextWord?.map fun w => (w.toNat : Int)
  steps := 1

def haltLine (fault : Fault) : LogLine := ⟨.error, .emulator, "Emulator halted: " ++ fault.message⟩

def step (e : Emulator) : Reply Error StepEvent :=
  match e.halt with
  | some fault => ⟨.error (.halted (some (.execution fault))), e, []⟩
  | none =>
    match e.machine.step with
    | .error fault => ⟨.error (.execution fault), { e with halt := some fault }, [haltLine fault]⟩
    | .ok (outcome, machine) =>
      ⟨.ok (stepEvent e.machine outcome), { e with machine, steps := e.steps + 1 },
        e.machine.remarks outcome⟩

/-- The event of a run that has made `taken` steps, the last of which reported `last`. -/
def runEvent (reason : RunReason) (taken : Nat) (last : Option StepEvent) : StepEvent where
  reason := some reason
  outcome := last.bind StepEvent.outcome
  address := last.bind StepEvent.address
  word := last.bind StepEvent.word
  steps := taken

/-- Goes on with a run for at most `budget` more steps, up to one that waits for a key. -/
def runOn : Nat → Nat → Option StepEvent → Emulator → Reply Error StepEvent
  | 0, taken, last, e => e.answering (runEvent .maxSteps taken last)
  | budget + 1, taken, _, e =>
    e.step.andThen fun event e =>
      if event.outcome = some .awaitingKey then
        e.answering (runEvent .awaitingKey (taken + 1) (some event))
      else runOn budget (taken + 1) (some event) e

/-- How many steps a run makes unless it is told otherwise. -/
def standardBudget : Int := 1000

/-- Makes steps until the budget is spent or an instruction waits for a key.  Timers stand still. -/
def run (e : Emulator) (budget : Int) : Reply Error StepEvent := runOn budget.toNat 0 none e

/-! ### Frames -/

/-- An instruction waits for a key that has not come. -/
def isIdle (e : Emulator) : Bool := e.machine.isAwaitingKey && !e.machine.isKeyReady

/-- Makes at most so many steps, none while idle, and tells how many. -/
def workOff : Nat → Emulator → Reply Error Nat
  | 0, e => e.answering 0
  | cycles + 1, e =>
    if e.isIdle then e.answering 0
    else e.step.andThen fun _ e => (workOff cycles e).map (· + 1)

/-- One frame: a tick and then the steps of a frame. -/
def frame (e : Emulator) : Reply Error Nat :=
  workOff e.config.cyclesPerFrame { e.tick with frames := e.frames + 1 }

/-- So many frames, one after the other; the answer is the number of steps made. -/
def framesInTurn : Nat → Emulator → Reply Error Nat
  | 0, e => e.answering 0
  | count + 1, e => e.frame.andThen fun done e => (framesInTurn count e).map (done + ·)

def runFrames (e : Emulator) (count : Int) : Reply Error Nat := framesInTurn count.toNat e

inductive TimedError
  | clock (e : FrameClock.Error)
  | machine (e : Error)

/-- Runs the frames that are due after some time.  Time that the clock refuses changes nothing. -/
def runFor (e : Emulator) (elapsed : Elapsed) : Reply TimedError Nat :=
  match e.clock.advance elapsed with
  | .error err => ⟨.error (.clock err), e, []⟩
  | .ok (ticks, clock) =>
    (({ e with carry := clock.remainder } : Emulator).runFrames ticks).mapError .machine

end Emulator

end Chip8
