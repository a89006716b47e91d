import Chip8.Proofs.Emulator.Moves
import Chip8.Proofs.Execution.Outcomes

/-!
# The event of a step

An event tells a host which word a step was about.  It takes the word from memory, where the counter
points at, and not from the processor.  For a step that fetches a word the two are the same.  While
an instruction waits, nothing is fetched, and the event is right only if the wait still stands at
the word `Fx0A` that began it.  The program cannot change that; a host can, if it writes into memory
meanwhile.

* `Emulator.SparesWaits`: in a row of moves, nothing is written while an instruction waits.
* `Emulator.Considerate`: the same for the operations of a host.
* `waitsInPlace_move`, `waitsInPlace_course`: **then every wait stands at its word.**
* `sparesWaits_movesAmong`: considerate operations are made of such moves.
* `step_event_describes_word`: **the event of a step is about the word at its address.**
-/

namespace Chip8

/-- An event of a step is about a word at an address: it names both, and its outcome is the one that
such a word has. -/
structure StepEvent.Describes (event : StepEvent) (address : Nat) (w : UInt16) : Prop where
  address_eq : event.address = some (address : Int)
  word_eq : event.word = some (w.toNat : Int)
  ignored_iff : event.outcome = some .ignored ↔
    (Instruction.decode w).form = .machineCall ∨ (Instruction.decode w).form = .unassigned
  wait_iff : event.outcome = some .awaitingKey ∨ event.outcome = some .keyReceived ↔
    w.toNat / 4096 = 0xF ∧ w.toNat % 256 = 0x0A
  executed_iff : event.outcome = some .executed ↔
    ¬ ((Instruction.decode w).form = .machineCall ∨ (Instruction.decode w).form = .unassigned) ∧
      ¬ (w.toNat / 4096 = 0xF ∧ w.toNat % 256 = 0x0A)

/-- Writes into memory from outside. -/
def Move.writes : Move → Bool
  | write _ _ => true
  | _ => false

theorem Emulator.IsDriven.writes_eq_false {move : Move} (h : IsDriven move) :
    move.writes = false := by
  cases h with
  | step | tick | beginFrame | carry => rfl

/-- Writes into memory, or loads a program without starting over. -/
def Operation.writesInPlace : Operation → Bool
  | load _ startOver _ => !startOver
  | loadRom _ _ startOver _ => !startOver
  | writeBytes _ _ => true
  | _ => false

namespace Emulator

variable {e : Emulator} {move : Move} {moves : List Move} {operation : Operation}
  {operations : List Operation}

/-! ### Moves that spare waits -/

/-- Nothing is written into memory while an instruction waits. -/
def SparesWaits : Emulator → List Move → Prop
  | _, [] => True
  | e, move :: moves =>
    (move.writes = true → e.machine.processor.waiting = none) ∧ (e.move move).SparesWaits moves

theorem sparesWaits_append {before after : List Move} :
    e.SparesWaits (before ++ after) ↔
      e.SparesWaits before ∧ (e.course before).SparesWaits after := by
  induction before generalizing e with
  | nil =>
    rw [List.nil_append, SparesWaits, true_and]
    rfl
  | cons move before ih =>
    rw [List.cons_append, SparesWaits, SparesWaits, course_cons, ih, and_assoc]

theorem sparesWaits_of_not_writes (h : ∀ move ∈ moves, move.writes = false) :
    e.SparesWaits moves := by
  induction moves generalizing e with
  | nil => trivial
  | cons move moves ih =>
    refine ⟨fun hwrites => ?_, ih fun later hlater => h later (List.mem_cons_of_mem move hlater)⟩
    cases (h move List.mem_cons_self).symm.trans hwrites

theorem sparesWaits_of_isDriven (h : ∀ move ∈ moves, IsDriven move) : e.SparesWaits moves :=
  sparesWaits_of_not_writes fun move hmove => (h move hmove).writes_eq_false

/-- **A move that spares waits leaves every wait at its word.** -/
theorem waitsInPlace_move (he : e.machine.WaitsInPlace)
    (hspares : move.writes = true → e.machine.processor.waiting = none) :
    (e.move move).machine.WaitsInPlace := by
  have hstep : (e.machine.happen .step).WaitsInPlace := by
    cases h : e.machine.step with
    | error f => rwa [Machine.happen_step_of_error h]
    | ok result =>
      rw [Machine.happen_step_of_ok h]
      exact he.step h
  cases move with
  | step =>
    rw [Emulator.move, machine_step]
    split
    · exact he
    · exact hstep
  | stepProcessor => exact hstep
  | reset => exact .of_not_waiting rfl
  | resetProcessor => exact .of_not_waiting rfl
  | write address data => exact .of_not_waiting (hspares rfl)
  | _ => exact he.congr rfl rfl

/-- **Moves that spare waits leave every wait at its word.** -/
theorem waitsInPlace_course (he : e.machine.WaitsInPlace) (hspares : e.SparesWaits moves) :
    (e.course moves).machine.WaitsInPlace := by
  induction moves generalizing e with
  | nil => exact he
  | cons move moves ih => exact ih (waitsInPlace_move he hspares.1) hspares.2

/-! ### Considerate operations -/

/-- The host writes into memory, and loads programs without starting over, only while no instruction
waits. -/
def Considerate : Emulator → List Operation → Prop
  | _, [] => True
  | e, operation :: operations =>
    (operation.writesInPlace = true → e.machine.processor.waiting = none) ∧
      (e.perform operation).emulator.Considerate operations

/-- A load that starts over writes when no instruction waits any more. -/
theorem sparesWaits_loadMoves (data : List UInt8) {startOver : Bool} (entropy : Int)
    (h : startOver = false → e.machine.processor.waiting = none) :
    e.SparesWaits (loadMoves data startOver entropy) := by
  rw [loadMoves]
  split
  · trivial
  · cases startOver with
    | true => exact ⟨fun hwrites => Bool.noConfusion hwrites, fun _ => rfl, trivial⟩
    | false => exact ⟨fun _ => h rfl, trivial⟩

theorem sparesWaits_updateMoves (index : Except Keypad.Error Int) (hold : Bool) :
    e.SparesWaits (updateMoves index hold) := by
  rw [updateMoves]
  split
  · trivial
  · exact ⟨fun hwrites => Bool.noConfusion hwrites, trivial⟩

theorem sparesWaits_movesOf
    (h : operation.writesInPlace = true → e.machine.processor.waiting = none) :
    e.SparesWaits (e.movesOf operation) := by
  cases operation with
  | load data startOver entropy =>
    exact sparesWaits_loadMoves data entropy fun hstart => h (by rw [hstart]; rfl)
  | loadRom path contents startOver entropy =>
    cases contents with
    | none => trivial
    | some data => exact sparesWaits_loadMoves data entropy fun hstart => h (by rw [hstart]; rfl)
  | run budget => exact sparesWaits_of_isDriven (isDriven_runMoves _ _)
  | runFrames count => exact sparesWaits_of_isDriven (isDriven_framesMoves _ _)
  | runFor elapsed =>
    rw [movesOf]
    split
    · trivial
    · refine sparesWaits_of_isDriven ?_
      exact List.forall_mem_cons.mpr ⟨.carry _, isDriven_framesMoves _ _⟩
  | setKey index hold => exact sparesWaits_updateMoves _ _
  | pressKey key => exact sparesWaits_updateMoves _ _
  | releaseKey key => exact sparesWaits_updateMoves _ _
  | writeBytes address values =>
    rw [movesOf, writeMoves]
    split
    · exact ⟨fun _ => h rfl, trivial⟩
    · trivial
  | reset | step | tick | markRefreshed | resetKeypad =>
    exact ⟨fun hwrites => Bool.noConfusion hwrites, trivial⟩

/-- **Considerate operations are made of moves that spare waits.** -/
theorem sparesWaits_movesAmong (h : e.Considerate operations) :
    e.SparesWaits (e.movesAmong operations) := by
  induction operations generalizing e with
  | nil => trivial
  | cons operation operations ih =>
    rw [movesAmong, sparesWaits_append, course_movesOf]
    exact ⟨sparesWaits_movesOf h.1, ih h.2⟩

/-! ### Events -/

theorem describes_of_waitsInPlace (he : e.machine.WaitsInPlace) {event : StepEvent}
    (hevent : e.step.answer = .ok event) :
    ∃ w, e.machine.nextWord? = some w ∧ event.Describes e.machine.processor.pc.toNat w := by
  obtain ⟨-, o, m', hstep, rfl⟩ := step_answer_eq_ok_iff.mp hevent
  obtain ⟨w, hw, hignored, hwait, hexecuted⟩ := he.outcome_iff hstep
  have hword : (stepEvent e.machine o).word = some (w.toNat : Int) := by
    rw [stepEvent, hw, Option.map_some]
  have hkey : (Instruction.decode w).outcome = .awaitingKey ↔
      w.toNat / 4096 = 0xF ∧ w.toNat % 256 = 0x0A := by
    simp only [Instruction.outcome_eq_awaitingKey_iff, Instruction.decode_eq_awaitKey_iff,
      exists_and_left, exists_eq, and_true]
  rw [Instruction.outcome_eq_ignored_iff] at hignored hexecuted
  rw [hkey] at hwait hexecuted
  refine ⟨w, hw, rfl, hword, ?_, ?_, ?_⟩
  · simpa only [stepEvent, Option.some.injEq]
  · simpa only [stepEvent, Option.some.injEq]
  · simpa only [stepEvent, Option.some.injEq]

/-- **The event of a step is about the word at its address.**  As long as nothing is written while
an instruction waits, an instruction that waits stands at its word `Fx0A`.  Then the event of a step
names the counter before the step and the word that is there, and tells what became of that word. -/
theorem step_event_describes_word (config : Config) (entropy : Int) (moves : List Move)
    (hspares : (fresh config entropy).SparesWaits moves) {e : Emulator}
    (he : e = (fresh config entropy).course moves) :
    (∀ x, e.machine.processor.waiting = some x →
      ∃ w, e.machine.nextWord? = some w ∧
        w.toNat / 4096 = 0xF ∧ w.toNat % 256 = 0x0A ∧ x = Word.x w) ∧
    (∀ event, e.step.answer = .ok event →
      ∃ w, e.machine.nextWord? = some w ∧ event.Describes e.machine.processor.pc.toNat w) ∧
    (∀ operations, (fresh config entropy).Considerate operations →
      (fresh config entropy).after operations =
        (fresh config entropy).course ((fresh config entropy).movesAmong operations) ∧
      ∀ before, before <+: (fresh config entropy).movesAmong operations →
        (fresh config entropy).SparesWaits before) := by
  have hplace : e.machine.WaitsInPlace := by
    rw [he]
    exact waitsInPlace_course (.of_not_waiting rfl) hspares
  refine ⟨?_, fun event hevent => describes_of_waitsInPlace hplace hevent, ?_⟩
  · intro x hx
    obtain ⟨w, hw, hdecode⟩ := hplace x hx
    exact ⟨w, hw, Instruction.decode_eq_awaitKey_iff.mp hdecode⟩
  · intro operations hconsiderate
    refine ⟨after_eq_course _ operations, ?_⟩
    rintro before ⟨later, hmoves⟩
    have hall := sparesWaits_movesAmong hconsiderate
    rw [← hmoves, sparesWaits_append] at hall
    exact hall.1

/-- The step at a word `Fx0A` begins to wait there, and so does not move on at the next step. -/
theorem step_of_begun_wait {w : UInt16} (hhalt : e.halt = none)
    (hwait : e.machine.processor.waiting = none) (hw : e.machine.nextWord? = some w)
    (hgroup : w.toNat / 4096 = 0xF) (hlow : w.toNat % 256 = 0x0A) :
    e.step.emulator.machine = e.machine.waitingFor (Word.x w) ∧
      e.step.emulator.step.answer = .ok (stepEvent e.step.emulator.machine .awaitingKey) := by
  rw [step_of_ok hhalt (Machine.step_of_awaitKey hwait hw hgroup hlow)]
  have hnone : (e.machine.waitingFor (Word.x w)).freshPress? = none :=
    Machine.freshPress?_of_le (Nat.le_refl _)
  refine ⟨rfl, ?_⟩
  rw [step_of_ok (by exact hhalt) (Machine.step_of_freshPress?_none rfl hnone)]

/-- A new emulator with the word `F30A` begins to wait, and the next step tells of that word. -/
theorem step_event_describes_wait : ∃ e : Emulator, ∃ event : StepEvent,
    e = (fresh { seed := some 0 } 0).course [.write 0x200 (Word.bytes 0xF30A), .step] ∧
      e.machine.processor.waiting = some 3 ∧ e.step.answer = .ok event ∧
      event.Describes 0x200 0xF30A := by
  have hword : (Machine.atWord 0xF30A).nextWord? = some 0xF30A := Machine.nextWord?_atWord 0xF30A
  have hspares : (fresh { seed := some 0 } 0).SparesWaits
      [.write 0x200 (Word.bytes 0xF30A), .step] :=
    ⟨fun _ => rfl, fun hwrites => Bool.noConfusion hwrites, trivial⟩
  have hcourse : ((fresh { seed := some 0 } 0).withMachine (.atWord 0xF30A)).step.emulator =
      (fresh { seed := some 0 } 0).course [.write 0x200 (Word.bytes 0xF30A), .step] := by
    rw [course_cons, move_write_fresh]
    rfl
  obtain ⟨hmachine, hanswer⟩ :=
    step_of_begun_wait (e := (fresh { seed := some 0 } 0).withMachine (.atWord 0xF30A))
      rfl rfl hword (by decide) (by decide)
  rw [hcourse] at hmachine hanswer
  obtain ⟨-, hevents, -⟩ := step_event_describes_word _ _ _ hspares rfl
  obtain ⟨w, hw, hdescribes⟩ := hevents _ hanswer
  refine ⟨_, _, rfl, by rw [hmachine]; rfl, hanswer, ?_⟩
  have hpc : ((fresh { seed := some 0 } 0).course
      [.write 0x200 (Word.bytes 0xF30A), .step]).machine.processor.pc.toNat = 0x200 := by
    rw [hmachine]
    rfl
  rw [hmachine] at hw
  obtain rfl := Option.some.inj (hword.symm.trans hw)
  rw [hpc] at hdescribes
  exact hdescribes

end Emulator

end Chip8
