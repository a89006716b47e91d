import Chip8.Proofs.Emulator.Frames
import Mathlib.Algebra.Order.BigOperators.Group.List
import Mathlib.Algebra.Order.Ring.Nat

/-!
# The counts of steps and frames

An emulator counts its steps and its frames from its last start on.  Three drivers keep these counts
between them, one inside the other, and leave off in the middle when an instruction waits or a step
fails.  All the same the counts are what they are called: the first is the number of steps that have
answered, whoever has asked for them, and the second the number of frames that have begun, whether
they came to their end or not.

* `counts_move`, `counts_course`: what one move adds to the counts, and what some in a row add.
* `HaveMade`, `haveMade_of_ok`: **frames that answer have made as many steps as they say**, none of
  them idle.
* `HaveFailed`, `haveFailed_of_error`: **frames that fail have counted all but the step that
  failed.**
* `steps_and_frames_accounted`: all of this together, for every run since a start.
-/

namespace Chip8

namespace Emulator

variable {e start : Emulator} {moves later : List Move}

/-! ### What moves add -/

theorem steps_step (e : Emulator) :
    e.step.emulator.steps = e.steps + if e.makesStep .step then 1 else 0 := by
  rw [makesStep]
  cases hhalt : e.halt with
  | some f =>
    rw [step_of_halted hhalt]
    rfl
  | none =>
    cases hstep : e.machine.step with
    | error f =>
      rw [step_of_fault hhalt hstep]
      rfl
    | ok result =>
      rw [step_of_ok hhalt hstep]
      rfl

theorem frames_step (e : Emulator) : e.step.emulator.frames = e.frames := by
  obtain ⟨machine, halt, steps, h⟩ := e.exists_emulator_step
  rw [h]

theorem counts_move (e : Emulator) {move : Move} (hmove : move.startsOver = false) :
    (e.move move).steps = e.steps + (if e.makesStep move then 1 else 0) ∧
      (e.move move).frames = e.frames + if move.beginsFrame then 1 else 0 := by
  cases move with
  | step => exact ⟨steps_step e, frames_step e⟩
  | reset => cases hmove
  | _ => exact ⟨rfl, rfl⟩

/-- **Moves short of a start add their steps that answer and the frames that they begin.** -/
theorem counts_course (hmoves : ∀ move ∈ moves, move.startsOver = false) :
    (e.course moves).steps = e.steps + e.stepsMade moves ∧
      (e.course moves).frames = e.frames + moves.countP Move.beginsFrame := by
  induction moves generalizing e with
  | nil => exact ⟨rfl, rfl⟩
  | cons move moves ih =>
    rw [List.forall_mem_cons] at hmoves
    obtain ⟨hsteps, hframes⟩ := e.counts_move hmoves.1
    obtain ⟨hsteps', hframes'⟩ := ih (e := e.move move) hmoves.2
    rw [course_cons, hsteps', hframes', hsteps, hframes, stepsMade, List.countP_cons]
    omega

/-! ### What frames add -/

/-- No frame makes more steps than the settings say. -/
theorem countP_isStep_framesMoves_le (count : Nat) (e : Emulator) :
    (framesMoves count e).countP Move.isStep ≤
      (framesMade count e).length * e.config.cyclesPerFrame := by
  have hle : ∀ frame ∈ framesMade count e,
      frame.countP Move.isStep ≤ e.config.cyclesPerFrame := by
    intro frame hframe
    obtain ⟨tries, htries, rfl⟩ := framesMade_shape hframe
    rw [List.countP_cons_of_neg (by decide), List.countP_cons_of_neg (by decide),
      List.countP_replicate]
    exact htries
  have hsum := List.sum_le_card_nsmul ((framesMade count e).map (List.countP Move.isStep))
    e.config.cyclesPerFrame (List.forall_mem_map.mpr hle)
  rwa [← List.countP_flatten, flatten_framesMade, List.length_map, Nat.nsmul_eq_mul] at hsum

theorem counts_framesInTurn (count : Nat) (e : Emulator) :
    (framesInTurn count e).emulator.steps = e.steps + e.stepsMade (framesMoves count e) ∧
      (framesInTurn count e).emulator.frames = e.frames + (framesMade count e).length := by
  obtain ⟨hsteps, hframes⟩ :=
    counts_course (e := e) fun move hmove => (isDriven_framesMoves count e move hmove).startsOver_eq
  rw [emulator_framesInTurn, hsteps, hframes, countP_framesMoves rfl rfl]
  exact ⟨rfl, rfl⟩

/-- Frames that have answered with a number of steps: so many more steps are counted, and one frame
for each; the steps are no more than the settings allow, all of them have answered, and none was
made while the emulator was idle. -/
structure HaveMade (e : Emulator) (count done : Nat) : Prop where
  steps_eq : (e.runFrames count).emulator.steps = e.steps + done
  frames_eq : (e.runFrames count).emulator.frames = e.frames + count
  done_le : done ≤ count * e.config.cyclesPerFrame
  tried_eq : (e.movesOf (.runFrames count)).countP Move.isStep = done
  made_eq : e.stepsMade (e.movesOf (.runFrames count)) = done
  busy : ∀ before after, e.movesOf (.runFrames count) = before ++ .step :: after →
    (e.course before).isIdle = false

/-- Frames that have failed in the `j`-th of them, at the step after so many that have answered.
The frames before the `j`-th one answer, and the step that fails is the last move of all. -/
structure HaveFailed (e : Emulator) (count : Nat) (err : Error) (j made : Nat) : Prop where
  pos : 1 ≤ j
  le_count : j ≤ count
  before_ok : ∃ done, (e.runFrames (j - 1 : Nat)).answer = .ok done
  at_error : (e.runFrames j).answer = .error err
  moves_eq : ∃ before, e.movesOf (.runFrames count) = before ++ [.step] ∧
    (e.course before).step.answer = .error err ∧ before.countP Move.beginsFrame = j ∧
    before.countP Move.isStep = made ∧ e.stepsMade before = made
  frames_eq : (e.runFrames count).emulator.frames = e.frames + j
  steps_eq : (e.runFrames count).emulator.steps = e.steps + made

/-- **Frames that answer have made as many steps as they say.** -/
theorem haveMade_of_ok {count done : Nat} (h : (e.runFrames count).answer = .ok done) :
    e.HaveMade count done := by
  have hmoves : e.movesOf (.runFrames count) = framesMoves count e := by
    rw [movesOf, Int.toNat_natCast]
  have hrun : e.runFrames count = framesInTurn count e := by rw [runFrames, Int.toNat_natCast]
  rw [hrun] at h
  obtain ⟨hsteps, hframes⟩ := counts_framesInTurn count e
  obtain ⟨hall, htried⟩ := framesMoves_of_ok h
  have hmade : e.stepsMade (framesMoves count e) = done := hall.trans htried
  have hlength := length_framesMade_of_ok h
  have hle := countP_isStep_framesMoves_le count e
  rw [hlength, htried] at hle
  exact {
    steps_eq := by rw [hrun, hsteps, hmade]
    frames_eq := by rw [hrun, hframes, hlength]
    done_le := hle
    tried_eq := by rw [hmoves, htried]
    made_eq := by rw [hmoves, hmade]
    busy := fun before after hsplit =>
      (busy_framesMoves count e).at (hmoves.symm.trans hsplit) rfl }

/-- **Frames that fail have counted all but the step that failed.** -/
theorem haveFailed_of_error {count : Nat} {err : Error}
    (h : (e.runFrames count).answer = .error err) : ∃ j made, e.HaveFailed count err j made := by
  have hmoves : e.movesOf (.runFrames count) = framesMoves count e := by
    rw [movesOf, Int.toNat_natCast]
  have hrun : e.runFrames count = framesInTurn count e := by rw [runFrames, Int.toNat_natCast]
  rw [hrun] at h
  obtain ⟨n, hn, hdone, hfails, hlength⟩ := framesMade_of_error h
  obtain ⟨before, hsplit, hall, hlast⟩ := framesMoves_of_error h
  obtain ⟨hsteps, hframes⟩ := counts_framesInTurn count e
  have hbegun := countP_framesMoves (p := Move.beginsFrame) rfl rfl count e
  rw [hlength, hsplit, List.countP_append] at hbegun
  have hmade : e.stepsMade (framesMoves count e) = e.stepsMade before := by
    rw [hsplit, stepsMade_append, stepsMade_step_of_error hlast, Nat.add_zero]
  exact ⟨n + 1, e.stepsMade before, {
    pos := Nat.succ_pos n
    le_count := hn
    before_ok := hdone
    at_error := hfails
    moves_eq := ⟨before, hmoves.trans hsplit, hlast, hbegun, hall.symm, rfl⟩
    frames_eq := by rw [hrun, hframes, hlength]
    steps_eq := by rw [hrun, hsteps, hmade] }⟩

/-- **Steps and frames are accounted for.**  In any run since a start, an emulator has counted the
steps that have answered and the frames that have begun.  Frames that a host asks for answer with
the number of their steps, or fail in the middle, and either way the counts tell what was done. -/
theorem steps_and_frames_accounted :
    (∀ (config : Config) (entropy : Int) (history later : List Move) (start : Emulator),
      (start = fresh config entropy ∨
        ∃ again, start = ((fresh config entropy).course history).reset again) →
      (∀ move ∈ later, move.startsOver = false) →
      (start.course later).steps = start.stepsMade later ∧
        (start.course later).frames = later.countP Move.beginsFrame) ∧
    (∀ (e : Emulator) (operations : List Operation),
      e.after operations = e.course (e.movesAmong operations) ∧
        ((∀ operation ∈ operations, operation.startsOver = false) →
          ∀ move ∈ e.movesAmong operations, move.startsOver = false)) ∧
    (∀ (e : Emulator) (count done : Nat), (e.runFrames count).answer = .ok done →
      e.HaveMade count done) ∧
    (∀ (e : Emulator) (count : Nat) (err : Error), (e.runFrames count).answer = .error err →
      ∃ j made, e.HaveFailed count err j made) := by
  refine ⟨?_, fun e operations => ⟨e.after_eq_course operations, startsOver_movesAmong⟩,
    fun e count done h => haveMade_of_ok h, fun e count err h => haveFailed_of_error h⟩
  intro config entropy history later start hstart hlater
  have hzero : start.steps = 0 ∧ start.frames = 0 := by
    rcases hstart with rfl | ⟨again, rfl⟩
    · exact ⟨rfl, rfl⟩
    · exact ⟨rfl, rfl⟩
  obtain ⟨hsteps, hframes⟩ := counts_course (e := start) hlater
  rw [hzero.1, Nat.zero_add] at hsteps
  rw [hzero.2, Nat.zero_add] at hframes
  exact ⟨hsteps, hframes⟩

/-- A frame in which a program waits at once makes one step: the word `Fx0A` is carried out, and the
emulator is idle from then on. -/
theorem frame_of_awaitKey {w : UInt16} (hhalt : e.halt = none)
    (hwait : e.machine.processor.waiting = none) (hw : e.machine.nextWord? = some w)
    (hgroup : w.toNat / 4096 = 0xF) (hlow : w.toNat % 256 = 0x0A) :
    e.frame.answer = .ok 1 ∧ e.frame.emulator.machine = e.machine.tick.waitingFor (Word.x w) := by
  obtain ⟨cycles, hcycles⟩ :=
    Nat.exists_eq_succ_of_ne_zero (Nat.ne_of_gt e.config.cyclesPerFrame_pos)
  have hstep := step_of_ok (e := e.tick) hhalt
    (Machine.step_of_awaitKey (m := e.machine.tick) hwait hw hgroup hlow)
  have hbusy : e.tick.isIdle = false := by
    rw [← Bool.not_eq_true, isIdle_eq_true_iff]
    exact fun hidle => hidle.1 hwait
  have hidle : e.tick.step.emulator.isIdle = true := by
    rw [hstep, isIdle_eq_true_iff]
    exact ⟨Option.some_ne_none _, Machine.freshPress?_of_le (Nat.le_refl _)⟩
  rw [frame_eq, hcycles, workOff, if_neg (by rw [hbusy]; decide),
    Reply.andThen_of_ok (by rw [hstep]), workOff_of_isIdle hidle, hstep]
  exact ⟨rfl, rfl⟩

theorem runFrames_of_awaitKey {w : UInt16} (hhalt : e.halt = none)
    (hwait : e.machine.processor.waiting = none) (hw : e.machine.nextWord? = some w)
    (hgroup : w.toNat / 4096 = 0xF) (hlow : w.toNat % 256 = 0x0A) (count : Nat) :
    (e.runFrames (count + 1 : Nat)).answer = .ok 1 := by
  obtain ⟨hanswer, hmachine⟩ := frame_of_awaitKey hhalt hwait hw hgroup hlow
  have hidle : e.frame.emulator.isIdle = true := by
    rw [isIdle_eq_true_iff, hmachine]
    exact ⟨Option.some_ne_none _, Machine.freshPress?_of_le (Nat.le_refl _)⟩
  rw [runFrames, Int.toNat_natCast, framesInTurn]
  refine Reply.answer_andThen_eq_ok_iff.mpr ⟨1, hanswer, ?_⟩
  rw [framesInTurn_of_isIdle count hidle]
  rfl

theorem runFrames_of_fault {f : Fault} (hhalt : e.halt = none)
    (hstep : e.tick.machine.step = .error f) (count : Nat) :
    (e.runFrames (count + 1 : Nat)).answer = .error (.execution f) := by
  obtain ⟨cycles, hcycles⟩ :=
    Nat.exists_eq_succ_of_ne_zero (Nat.ne_of_gt e.config.cyclesPerFrame_pos)
  have hbusy : e.tick.isIdle = false := by
    rw [← Bool.not_eq_true, isIdle_eq_true_iff]
    exact fun hidle => hidle.1 (Machine.step_eq_error_iff.mp hstep).1
  have hwork : (workOff e.config.cyclesPerFrame e.tick).answer = .error (.execution f) := by
    rw [hcycles, workOff, if_neg (by rw [hbusy]; decide)]
    exact Reply.answer_andThen_eq_error_iff.mpr
      (.inl (step_answer_eq_execution_iff.mpr ⟨hhalt, hstep⟩))
  rw [runFrames, Int.toNat_natCast, framesInTurn, frame_eq]
  exact Reply.answer_andThen_eq_error_iff.mpr (.inl hwork)

/-- Three frames of the program `F00A` make one step, and a program that returns without a call
fails in its first frame, which is counted.  A frame that has begun before the program was there is
counted too, and neither a tick nor frames start over. -/
theorem steps_and_frames_accounted_atWord :
    ((fresh {} 0).course [.beginFrame, .write 0x200 (Word.bytes 0xF00A)]).frames = 1 ∧
      (∀ move ∈ (fresh {} 0).movesAmong [.tick, .runFrames 3], move.startsOver = false) ∧
      ((fresh {} 0).withMachine (.atWord 0xF00A)).HaveMade 3 1 ∧
      ∃ err j made, ((fresh {} 0).withMachine (.atWord 0x00EE)).HaveFailed 2 err j made := by
  obtain ⟨hruns, hasked, hok, herror⟩ := steps_and_frames_accounted
  refine ⟨?_, ?_, ?_, ?_⟩
  · exact (hruns {} 0 [] [.beginFrame, .write 0x200 (Word.bytes 0xF00A)] _ (.inl rfl)
      (by simp [Move.startsOver])).2
  · exact (hasked (fresh {} 0) [.tick, .runFrames 3]).2 (by simp [Operation.startsOver])
  · refine hok _ 3 1 ?_
    exact runFrames_of_awaitKey (e := (fresh {} 0).withMachine (.atWord 0xF00A)) rfl rfl
      (Machine.nextWord?_atWord 0xF00A) (by decide) (by decide) 2
  · have hstep : (Machine.atWord 0x00EE).tick.step =
        .error ⟨.stackUnderflow, some 0x200, some 0x00EE⟩ :=
      Machine.step_of_refuses rfl (Machine.nextWord?_atWord 0x00EE) (.ret rfl)
    exact ⟨_, herror _ 2 _
      (runFrames_of_fault (e := (fresh {} 0).withMachine (.atWord 0x00EE)) rfl hstep 1)⟩

end Emulator

end Chip8
