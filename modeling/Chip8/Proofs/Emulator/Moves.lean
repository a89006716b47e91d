import Chip8.Proofs.Emulator.Operation
import Chip8.Proofs.Execution.KeyWait

/-!
# The moves of an emulator

An operation may do many things at once: a run makes steps, a frame ticks the timers and makes
steps, a load starts over and writes memory.  This file takes operations apart into moves, each of
which does one thing, and so tells when each step of an operation is made, and on which emulator.
What holds of all rows of moves holds inside an operation too, and not only after it.

A host may also reach past the emulator for its processor, and clear it or step it.  Those are moves
as well, although no operation makes them.

* `Move`, `Emulator.move`, `Emulator.course`: moves, one of them, and some in a row.
* `Emulator.movesOf`, `Emulator.movesAmong`: the moves of an operation, and of some in a row.
* `course_movesOf`, `after_eq_course`: **an operation does what its moves do.**
* `startsOver_movesAmong`: without an operation that starts over, there is no move that does.
-/

namespace Chip8

/-- One thing that is done to an emulator. -/
inductive Move
  | step
  | tick
  /-- Counts one more frame. -/
  | beginFrame
  /-- Has another part of a tick left over. -/
  | carry (rest : Float)
  | update (key : Key) (hold : Bool)
  | write (address : Nat) (data : List UInt8)
  | markRefreshed
  | resetKeypad
  | reset (entropy : Int)
  /-- Clears the processor, and the processor alone. -/
  | resetProcessor
  /-- Steps the processor behind the back of the emulator, which may be halted. -/
  | stepProcessor

def Move.startsOver : Move → Bool
  | .reset _ => true
  | _ => false

namespace Emulator

variable {e : Emulator}

theorem machine_step (e : Emulator) :
    e.step.emulator.machine = if e.halt.isSome then e.machine else e.machine.happen .step := by
  cases hhalt : e.halt with
  | some f =>
    rw [step_of_halted hhalt]
    rfl
  | none =>
    cases hstep : e.machine.step with
    | error f =>
      rw [step_of_fault hhalt hstep, Machine.happen_step_of_error hstep]
      rfl
    | ok result =>
      rw [step_of_ok hhalt hstep, Machine.happen_step_of_ok hstep]
      rfl

def move (e : Emulator) : Move → Emulator
  | .step => e.step.emulator
  | .tick => e.tick
  | .beginFrame => { e with frames := e.frames + 1 }
  | .carry rest => { e with carry := rest }
  | .update key hold => e.withMachine (e.machine.happen (.update key hold))
  | .write address data =>
    e.withMachine { e.machine with memory := e.machine.memory.overwrite address data }
  | .markRefreshed => e.withMachine e.machine.markRefreshed
  | .resetKeypad => e.withMachine e.machine.resetKeypad
  | .reset entropy => e.reset entropy
  | .resetProcessor => e.withMachine e.machine.resetProcessor
  | .stepProcessor => e.withMachine (e.machine.happen .step)

/-- The emulator after some moves. -/
def course (e : Emulator) (moves : List Move) : Emulator := moves.foldl move e

theorem course_cons (e : Emulator) (move : Move) (moves : List Move) :
    e.course (move :: moves) = (e.move move).course moves := rfl

theorem course_append (e : Emulator) (before after : List Move) :
    e.course (before ++ after) = (e.course before).course after := List.foldl_append

theorem move_write_fresh (w : UInt16) :
    (fresh { seed := some 0 } 0).move (.write 0x200 (Word.bytes w)) =
      (fresh { seed := some 0 } 0).withMachine (.atWord w) := rfl

/-! ### The moves of the drivers -/

/-- The moves of a run with a budget. -/
def runMoves : Nat → Emulator → List Move
  | 0, _ => []
  | budget + 1, e =>
    .step :: match e.step.answer with
      | .error _ => []
      | .ok event =>
        if event.outcome = some .awaitingKey then [] else runMoves budget e.step.emulator

/-- The moves of what is left of a frame. -/
def workMoves : Nat → Emulator → List Move
  | 0, _ => []
  | cycles + 1, e =>
    if e.isIdle then []
    else .step :: match e.step.answer with
      | .error _ => []
      | .ok _ => workMoves cycles e.step.emulator

def frameMoves (e : Emulator) : List Move :=
  .tick :: .beginFrame :: workMoves e.config.cyclesPerFrame (e.course [.tick, .beginFrame])

def framesMoves : Nat → Emulator → List Move
  | 0, _ => []
  | count + 1, e =>
    e.frameMoves ++ match e.frame.answer with
      | .error _ => []
      | .ok _ => framesMoves count e.frame.emulator

theorem emulator_runOn (budget taken : Nat) (last : Option StepEvent) (e : Emulator) :
    (runOn budget taken last e).emulator = e.course (runMoves budget e) := by
  induction budget generalizing taken last e with
  | zero => rfl
  | succ budget ih =>
    rw [runOn, runMoves, course_cons, move]
    cases hanswer : e.step.answer with
    | error err =>
      rw [Reply.andThen_of_error hanswer]
      rfl
    | ok event =>
      rw [Reply.andThen_of_ok hanswer]
      by_cases hevent : event.outcome = some .awaitingKey
      · simp only [if_pos hevent]
        rfl
      · simp only [if_neg hevent]
        exact ih _ _ _

theorem emulator_workOff (cycles : Nat) (e : Emulator) :
    (workOff cycles e).emulator = e.course (workMoves cycles e) := by
  induction cycles generalizing e with
  | zero => rfl
  | succ cycles ih =>
    rw [workOff, workMoves]
    split
    · rfl
    · rw [course_cons, move]
      cases hanswer : e.step.answer with
      | error err =>
        rw [Reply.andThen_of_error hanswer]
        rfl
      | ok event =>
        rw [Reply.andThen_of_ok hanswer]
        exact ih _

theorem emulator_frame (e : Emulator) : e.frame.emulator = e.course e.frameMoves :=
  emulator_workOff _ _

theorem emulator_framesInTurn (count : Nat) (e : Emulator) :
    (framesInTurn count e).emulator = e.course (framesMoves count e) := by
  induction count generalizing e with
  | zero => rfl
  | succ count ih =>
    rw [framesInTurn, framesMoves, course_append, ← emulator_frame]
    cases hanswer : e.frame.answer with
    | error err =>
      rw [Reply.andThen_of_error hanswer]
      rfl
    | ok done =>
      rw [Reply.andThen_of_ok hanswer]
      exact ih _

/-- The moves that a driver makes. -/
inductive IsDriven : Move → Prop
  | step : IsDriven .step
  | tick : IsDriven .tick
  | beginFrame : IsDriven .beginFrame
  | carry (rest : Float) : IsDriven (.carry rest)

theorem isDriven_runMoves (budget : Nat) (e : Emulator) :
    ∀ move ∈ runMoves budget e, IsDriven move := by
  induction budget generalizing e with
  | zero =>
    intro move hmove
    cases hmove
  | succ budget ih =>
    rw [runMoves]
    refine List.forall_mem_cons.mpr ⟨.step, ?_⟩
    split
    · exact List.forall_mem_nil _
    · split
      · exact List.forall_mem_nil _
      · exact ih _

theorem isDriven_workMoves (cycles : Nat) (e : Emulator) :
    ∀ move ∈ workMoves cycles e, IsDriven move := by
  induction cycles generalizing e with
  | zero =>
    intro move hmove
    cases hmove
  | succ cycles ih =>
    rw [workMoves]
    split
    · exact List.forall_mem_nil _
    · refine List.forall_mem_cons.mpr ⟨.step, ?_⟩
      split
      · exact List.forall_mem_nil _
      · exact ih _

theorem isDriven_frameMoves (e : Emulator) : ∀ move ∈ e.frameMoves, IsDriven move :=
  List.forall_mem_cons.mpr
    ⟨.tick, List.forall_mem_cons.mpr ⟨.beginFrame, isDriven_workMoves _ _⟩⟩

theorem isDriven_framesMoves (count : Nat) (e : Emulator) :
    ∀ move ∈ framesMoves count e, IsDriven move := by
  induction count generalizing e with
  | zero =>
    intro move hmove
    cases hmove
  | succ count ih =>
    rw [framesMoves]
    refine List.forall_mem_append.mpr ⟨isDriven_frameMoves e, ?_⟩
    split
    · exact List.forall_mem_nil _
    · exact ih _

/-! ### The moves of an operation -/

/-- The moves of a load: none if the program does not fit. -/
def loadMoves (data : List UInt8) (startOver : Bool) (entropy : Int) : List Move :=
  if Memory.programCapacity < data.length then []
  else (if startOver then [.reset entropy] else []) ++ [.write Memory.programStart data]

/-- The moves of an update: none if there is no such key. -/
def updateMoves (index : Except Keypad.Error Int) (hold : Bool) : List Move :=
  match index >>= Keypad.keyOfIndex with
  | .error _ => []
  | .ok key => [.update key hold]

def writeMoves (address : Int) (values : List Int) : List Move :=
  if Memory.InRange address (values.map UInt8.ofInt).length then
    [.write address.toNat (values.map UInt8.ofInt)]
  else []

/-- The moves of an operation, in order. -/
def movesOf (e : Emulator) : Operation → List Move
  | .load data startOver entropy => loadMoves data startOver entropy
  | .loadRom _ none _ _ => []
  | .loadRom _ (some data) startOver entropy => loadMoves data startOver entropy
  | .reset entropy => [.reset entropy]
  | .step => [.step]
  | .run budget => runMoves budget.toNat e
  | .runFrames count => framesMoves count.toNat e
  | .runFor elapsed =>
    match e.clock.advance elapsed with
    | .error _ => []
    | .ok (ticks, clock) =>
      .carry clock.remainder :: framesMoves ticks.toNat (e.move (.carry clock.remainder))
  | .tick => [.tick]
  | .setKey index hold => updateMoves (.ok index) hold
  | .pressKey key => updateMoves key.resolve true
  | .releaseKey key => updateMoves key.resolve false
  | .writeBytes address values => writeMoves address values
  | .markRefreshed => [.markRefreshed]
  | .resetKeypad => [.resetKeypad]

/-- The moves of some operations, one after the other. -/
def movesAmong (e : Emulator) : List Operation → List Move
  | [] => []
  | operation :: operations =>
    e.movesOf operation ++ (e.perform operation).emulator.movesAmong operations

theorem emulator_load_eq (e : Emulator) (data : List UInt8) (startOver : Bool) (entropy : Int) :
    (e.load data startOver entropy).emulator = e.course (loadMoves data startOver entropy) := by
  rw [loadMoves]
  by_cases hfits : data.length ≤ Memory.programCapacity
  · rw [load_of_le startOver entropy hfits, if_neg (Nat.not_lt.mpr hfits)]
    cases startOver with
    | true => rfl
    | false => rfl
  · rw [load_of_gt startOver entropy (Nat.not_le.mp hfits), if_pos (Nat.not_le.mp hfits)]
    rfl

theorem emulator_choose (e : Emulator) (index : Except Keypad.Error Int) (hold : Bool) :
    (e.changing .key (index >>= fun i => e.setKey i hold)).emulator =
      e.course (updateMoves index hold) := by
  rw [updateMoves]
  cases index with
  | error err => rfl
  | ok i =>
    show (e.changing .key (e.setKey i hold)).emulator =
      e.course (match Keypad.keyOfIndex i with
        | .error _ => []
        | .ok key => [.update key hold])
    rw [setKey, Machine.setKey, Keypad.setKey]
    cases Keypad.keyOfIndex i with
    | error err => rfl
    | ok key => rfl

theorem emulator_write (e : Emulator) (address : Int) (values : List Int) :
    (e.changing .memory (e.writeBytes address values)).emulator =
      e.course (writeMoves address values) := by
  rw [writeMoves, writeBytes, Machine.writeBlock, Memory.writeBlock, Memory.writeBytes]
  split
  · rfl
  · rfl

/-- **An operation does what its moves do.** -/
theorem course_movesOf (e : Emulator) (operation : Operation) :
    e.course (e.movesOf operation) = (e.perform operation).emulator := by
  symm
  cases operation with
  | load data startOver entropy => exact e.emulator_load_eq data startOver entropy
  | loadRom path contents startOver entropy =>
    cases contents with
    | none => rfl
    | some data => exact e.emulator_load_eq data startOver entropy
  | run budget => exact emulator_runOn _ _ _ _
  | runFrames count => exact emulator_framesInTurn _ _
  | runFor elapsed =>
    show (e.runFor elapsed).emulator = e.course (e.movesOf (.runFor elapsed))
    rw [runFor, movesOf]
    cases e.clock.advance elapsed with
    | error err => rfl
    | ok result => exact emulator_framesInTurn _ _
  | setKey index hold => exact e.emulator_choose (.ok index) hold
  | pressKey key => exact e.emulator_choose key.resolve true
  | releaseKey key => exact e.emulator_choose key.resolve false
  | writeBytes address values => exact e.emulator_write address values
  | reset | step | tick | markRefreshed | resetKeypad => rfl

/-- **Operations in a row do what their moves do.** -/
theorem after_eq_course (e : Emulator) (operations : List Operation) :
    e.after operations = e.course (e.movesAmong operations) := by
  induction operations generalizing e with
  | nil => rfl
  | cons operation operations ih =>
    rw [after_cons, movesAmong, course_append, course_movesOf, ih]

/-! ### Which moves there are -/

theorem forall_mem_loadMoves {Q : Move → Prop} (data : List UInt8) {startOver : Bool}
    {entropy : Int} (hwrite : ∀ address data, Q (.write address data))
    (hreset : startOver = true → Q (.reset entropy)) :
    ∀ move ∈ loadMoves data startOver entropy, Q move := by
  rw [loadMoves]
  split
  · exact List.forall_mem_nil _
  · refine List.forall_mem_append.mpr ⟨?_, List.forall_mem_singleton.mpr (hwrite _ _)⟩
    split
    · next h => exact List.forall_mem_singleton.mpr (hreset h)
    · exact List.forall_mem_nil _

theorem forall_mem_updateMoves {Q : Move → Prop} (index : Except Keypad.Error Int) (hold : Bool)
    (hupdate : ∀ key hold, Q (.update key hold)) : ∀ move ∈ updateMoves index hold, Q move := by
  rw [updateMoves]
  split
  · exact List.forall_mem_nil _
  · exact List.forall_mem_singleton.mpr (hupdate _ _)

/-- What holds of the moves that a driver makes and of all updates and writes holds of the moves of
an operation, but for those that only some operations make. -/
theorem forall_mem_movesOf {Q : Move → Prop} {operation : Operation}
    (hdriven : ∀ move, IsDriven move → Q move) (hupdate : ∀ key hold, Q (.update key hold))
    (hwrite : ∀ address data, Q (.write address data))
    (hreset : operation.startsOver = true → ∀ entropy, Q (.reset entropy))
    (hkeypad : operation = .resetKeypad → Q .resetKeypad)
    (hrefreshed : operation = .markRefreshed → Q .markRefreshed) :
    ∀ move ∈ e.movesOf operation, Q move := by
  have hframes : ∀ count (e : Emulator), ∀ move ∈ framesMoves count e, Q move :=
    fun count e move hmove => hdriven move (isDriven_framesMoves count e move hmove)
  -- the drivers make driven moves; each other operation makes at most one kind of move
  cases operation with
  | load data startOver entropy =>
    exact forall_mem_loadMoves data hwrite fun h => hreset h entropy
  | loadRom path contents startOver entropy =>
    cases contents with
    | none => exact List.forall_mem_nil _
    | some data => exact forall_mem_loadMoves data hwrite fun h => hreset h entropy
  | reset entropy => exact List.forall_mem_singleton.mpr (hreset rfl entropy)
  | step => exact List.forall_mem_singleton.mpr (hdriven _ .step)
  | run budget => exact fun move hmove => hdriven move (isDriven_runMoves _ _ move hmove)
  | runFrames count => exact hframes _ _
  | runFor elapsed =>
    rw [movesOf]
    split
    · exact List.forall_mem_nil _
    · exact List.forall_mem_cons.mpr ⟨hdriven _ (.carry _), hframes _ _⟩
  | tick => exact List.forall_mem_singleton.mpr (hdriven _ .tick)
  | setKey index hold => exact forall_mem_updateMoves _ hold hupdate
  | pressKey key => exact forall_mem_updateMoves _ true hupdate
  | releaseKey key => exact forall_mem_updateMoves _ false hupdate
  | writeBytes address values =>
    rw [movesOf, writeMoves]
    split
    · exact List.forall_mem_singleton.mpr (hwrite _ _)
    · exact List.forall_mem_nil _
  | markRefreshed => exact List.forall_mem_singleton.mpr (hrefreshed rfl)
  | resetKeypad => exact List.forall_mem_singleton.mpr (hkeypad rfl)

theorem forall_mem_movesAmong {Q : Move → Prop} {operations : List Operation}
    (h : ∀ operation ∈ operations, ∀ e : Emulator, ∀ move ∈ e.movesOf operation, Q move) :
    ∀ move ∈ e.movesAmong operations, Q move := by
  induction operations generalizing e with
  | nil => exact List.forall_mem_nil _
  | cons operation operations ih =>
    rw [movesAmong]
    exact List.forall_mem_append.mpr ⟨h operation List.mem_cons_self e,
      ih fun later hlater => h later (List.mem_cons_of_mem operation hlater)⟩

/-! ### Moves that start over -/

theorem IsDriven.startsOver_eq {move : Move} (h : IsDriven move) : move.startsOver = false := by
  cases h with
  | step | tick | beginFrame | carry => rfl

theorem startsOver_movesAmong {operations : List Operation}
    (h : ∀ operation ∈ operations, operation.startsOver = false) :
    ∀ move ∈ e.movesAmong operations, move.startsOver = false := by
  refine forall_mem_movesAmong fun operation hoperation e => ?_
  have hquiet := h operation hoperation
  refine forall_mem_movesOf (fun _ hdriven => hdriven.startsOver_eq) (fun _ _ => rfl)
    (fun _ _ => rfl) (fun hstarts => ?_) (fun _ => rfl) (fun _ => rfl)
  exact Bool.noConfusion (hquiet.symm.trans hstarts)

end Emulator

end Chip8
