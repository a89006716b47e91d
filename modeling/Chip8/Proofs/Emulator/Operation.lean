import Chip8.Proofs.Emulator.Calls

/-!
# The operations of a host

A host drives an emulator through operations: it loads programs, steps and runs, ticks the timers,
updates keys and writes memory, in any order.  An operation answers or fails, and the next one goes
on from whatever emulator it has left.

Every operation is made of a few changes: steps, ticks, counted frames, and the host's own updates.
A property that each of them keeps is kept by all operations, and by all sequences of them.

* `Operation`, `Emulator.perform`: the operations and what they do.
* `Emulator.after`, `Emulator.replies`: the emulator that a sequence of operations leaves, and what
  the host gets to see on the way.
* `Emulator.Steady`: a property that survives every change but starting over.
* `Steady.after`: **a steady property that survives the new starts among some operations survives
  the operations.**
-/

namespace Chip8

open Emulator

/-- What a host can ask of an emulator.  Where the emulator starts over, random bytes may start from
a number that differs from one time to the next. -/
inductive Operation
  | load (data : List UInt8) (startOver : Bool) (entropy : Int)
  | loadRom (path : String) (contents : Option (List UInt8)) (startOver : Bool) (entropy : Int)
  | reset (entropy : Int)
  | step
  | run (budget : Int)
  | runFrames (count : Int)
  | runFor (elapsed : Elapsed)
  | tick
  | setKey (index : Int) (hold : Bool)
  | pressKey (key : KeyChoice)
  | releaseKey (key : KeyChoice)
  | writeBytes (address : Int) (values : List Int)
  | markRefreshed
  /-- Lets all keys go and forgets all presses, on the keypad alone. -/
  | resetKeypad

namespace Operation

/-- Why an operation failed. -/
inductive Failure
  | emulator (e : Error)
  | rom (e : RomError)
  | timed (e : TimedError)
  | key (e : Keypad.Error)
  | memory (cause : Cause)

/-- What an operation answers. -/
inductive Answer
  | done
  | event (event : StepEvent)
  | steps (count : Nat)

/-- The emulator starts over in this operation, if it does not fail. -/
def startsOver : Operation → Bool
  | load _ startOver _ => startOver
  | loadRom _ _ startOver _ => startOver
  | reset _ => true
  | _ => false

end Operation

open Operation

namespace Emulator

variable {e : Emulator} {P : Emulator → Prop}

/-- A call that changes the emulator or is refused. -/
def changing {ε : Type} (e : Emulator) (failure : ε → Failure) :
    Except ε Emulator → Reply Failure Answer
  | .ok e' => e'.answering .done
  | .error err => ⟨.error (failure err), e, []⟩

/-- What an operation does. -/
def perform (e : Emulator) : Operation → Reply Failure Answer
  | .load data startOver entropy =>
    ((e.load data startOver entropy).mapError .emulator).map fun _ => .done
  | .loadRom path contents startOver entropy =>
    ((e.loadRom path contents startOver entropy).mapError .rom).map fun _ => .done
  | .reset entropy => ⟨.ok .done, e.reset entropy, [resetLine]⟩
  | .step => (e.step.mapError .emulator).map .event
  | .run budget => ((e.run budget).mapError .emulator).map .event
  | .runFrames count => ((e.runFrames count).mapError .emulator).map .steps
  | .runFor elapsed => ((e.runFor elapsed).mapError .timed).map .steps
  | .tick => e.tick.answering .done
  | .setKey index hold => e.changing .key (e.setKey index hold)
  | .pressKey key => e.changing .key (e.pressKey key)
  | .releaseKey key => e.changing .key (e.releaseKey key)
  | .writeBytes address values => e.changing .memory (e.writeBytes address values)
  | .markRefreshed => (e.withMachine e.machine.markRefreshed).answering .done
  | .resetKeypad => (e.withMachine e.machine.resetKeypad).answering .done

/-- The emulator after some operations.  One that fails does not keep the next from being tried. -/
def after (e : Emulator) (operations : List Operation) : Emulator :=
  operations.foldl (fun e operation => (e.perform operation).emulator) e

/-- The replies to some operations, each with the emulator that it leaves. -/
def replies (e : Emulator) : List Operation → List (Reply Failure Answer)
  | [] => []
  | operation :: operations =>
    e.perform operation :: replies (e.perform operation).emulator operations

theorem after_cons (e : Emulator) (operation : Operation) (operations : List Operation) :
    e.after (operation :: operations) = (e.perform operation).emulator.after operations := rfl

/-! ### What operations keep -/

/-- A property survives every change that operations make, short of starting over. -/
structure Steady (P : Emulator → Prop) : Prop where
  step : ∀ {e}, P e → P e.step.emulator
  tick : ∀ {e}, P e → P e.tick
  frames : ∀ {e} n, P e → P { e with frames := n }
  carry : ∀ {e elapsed ticks clock}, e.clock.advance elapsed = .ok (ticks, clock) → P e →
    P { e with carry := clock.remainder }
  memory : ∀ {e} memory, P e → P (e.withMachine { e.machine with memory })
  update : ∀ {e} key hold, P e →
    P (e.withMachine { e.machine with keypad := e.machine.keypad.update key hold })
  refreshed : ∀ {e}, P e → P (e.withMachine e.machine.markRefreshed)

theorem andThen_keeps {ε α β : Type} {r : Reply ε α} {next : α → Emulator → Reply ε β}
    (hr : P r.emulator) (hnext : ∀ a e, P e → P (next a e).emulator) :
    P (r.andThen next).emulator := by
  rw [Reply.andThen]
  split
  · exact hr
  · exact hnext _ _ hr

namespace Steady

theorem runOn (hP : Steady P) (budget taken : Nat) (last : Option StepEvent) (he : P e) :
    P (Emulator.runOn budget taken last e).emulator := by
  induction budget generalizing taken last e with
  | zero => exact he
  | succ budget ih =>
    refine andThen_keeps (hP.step he) fun event e he => ?_
    split
    · exact he
    · exact ih _ _ he

theorem workOff (hP : Steady P) (cycles : Nat) (he : P e) :
    P (Emulator.workOff cycles e).emulator := by
  induction cycles generalizing e with
  | zero => exact he
  | succ cycles ih =>
    rw [Emulator.workOff]
    split
    · exact he
    · exact andThen_keeps (hP.step he) fun _ _ he => ih he

theorem frame (hP : Steady P) (he : P e) : P e.frame.emulator :=
  hP.workOff _ (hP.frames _ (hP.tick he))

theorem framesInTurn (hP : Steady P) (count : Nat) (he : P e) :
    P (Emulator.framesInTurn count e).emulator := by
  induction count generalizing e with
  | zero => exact he
  | succ count ih => exact andThen_keeps (hP.frame he) fun _ _ he => ih he

theorem runFor (hP : Steady P) (elapsed : Elapsed) (he : P e) :
    P (e.runFor elapsed).emulator := by
  rw [Emulator.runFor]
  split
  · exact he
  · next h => exact hP.framesInTurn _ (hP.carry h he)

theorem setKey (hP : Steady P) (index : Int) (hold : Bool) (he : P e) :
    P (e.changing .key (e.setKey index hold)).emulator := by
  rw [Emulator.setKey, Machine.setKey, Keypad.setKey]
  cases Keypad.keyOfIndex index with
  | error err => exact he
  | ok key => exact hP.update key hold he

theorem chooseKey (hP : Steady P) (key : KeyChoice) (hold : Bool) (he : P e) :
    P (e.changing .key (key.resolve >>= fun index => e.setKey index hold)).emulator := by
  cases key.resolve with
  | error err => exact he
  | ok index => exact hP.setKey index hold he

theorem writeBytes (hP : Steady P) (address : Int) (values : List Int) (he : P e) :
    P (e.changing .memory (e.writeBytes address values)).emulator := by
  rw [Emulator.writeBytes, Machine.writeBlock]
  cases e.machine.memory.writeBlock address values with
  | error cause => exact he
  | ok memory => exact hP.memory memory he

/-- Starting over is the only change of a load that a steady property may not survive. -/
theorem load (hP : Steady P) (data : List UInt8) {startOver : Bool} {entropy : Int}
    (hreset : startOver = true → P (e.reset entropy)) (he : P e) :
    P (e.load data startOver entropy).emulator := by
  have hstarted : P (e.startedOver startOver entropy) := by
    rw [startedOver]
    split
    · next h => exact hreset h
    · exact he
  by_cases hfits : data.length ≤ Memory.programCapacity
  · rw [load_of_le startOver entropy hfits]
    exact hP.memory _ hstarted
  · rw [load_of_gt startOver entropy (by omega)]
    exact he

/-- **A steady property survives an operation, if it survives starting over where the operation
starts over, and a reset of the keypad where it is one.** -/
theorem perform (hP : Steady P) {operation : Operation}
    (hreset : operation.startsOver = true → ∀ e entropy, P e → P (e.reset entropy))
    (hkeypad : operation = .resetKeypad → ∀ e, P e → P (e.withMachine e.machine.resetKeypad))
    (he : P e) : P (e.perform operation).emulator := by
  cases operation with
  | load data startOver entropy => exact hP.load data (fun h => hreset h e entropy he) he
  | loadRom path contents startOver entropy =>
    cases contents with
    | none => exact he
    | some data => exact hP.load data (fun h => hreset h e entropy he) he
  | reset entropy => exact hreset rfl e entropy he
  | step => exact hP.step he
  | run budget => exact hP.runOn _ _ _ he
  | runFrames count => exact hP.framesInTurn _ he
  | runFor elapsed => exact hP.runFor elapsed he
  | tick => exact hP.tick he
  | setKey index hold => exact hP.setKey index hold he
  | pressKey key => exact hP.chooseKey key true he
  | releaseKey key => exact hP.chooseKey key false he
  | writeBytes address values => exact hP.writeBytes address values he
  | markRefreshed => exact hP.refreshed he
  | resetKeypad => exact hkeypad rfl e he

/-- **A steady property survives a sequence of operations, if it survives those that are not made of
steady changes alone.** -/
theorem after (hP : Steady P) {operations : List Operation}
    (hreset : (∃ operation ∈ operations, operation.startsOver = true) →
      ∀ e entropy, P e → P (e.reset entropy))
    (hkeypad : .resetKeypad ∈ operations →
      ∀ e, P e → P (e.withMachine e.machine.resetKeypad))
    (he : P e) : P (e.after operations) := by
  induction operations generalizing e with
  | nil => exact he
  | cons operation operations ih =>
    rw [after_cons]
    refine ih (fun ⟨later, hmem, hlater⟩ => hreset ⟨later, List.mem_cons_of_mem _ hmem, hlater⟩)
      (fun hmem => hkeypad (List.mem_cons_of_mem _ hmem)) (hP.perform ?_ ?_ he)
    · exact fun h => hreset ⟨operation, List.mem_cons_self, h⟩
    · rintro rfl
      exact hkeypad List.mem_cons_self

end Steady

end Emulator

end Chip8
