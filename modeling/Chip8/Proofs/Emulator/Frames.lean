import Chip8.Proofs.Emulator.ColdStart
import Chip8.Proofs.Emulator.Drivers
import Chip8.Proofs.Emulator.Moves

/-!
# Frames, move by move

A frame begins with a tick and is counted, and all else in it are steps, no more of them than the
settings say.  A step is made only while the emulator is not idle.  Frames in a row end after the
last one, or at the first step that fails: that step is then the last move of all, and every step
before it has answered.

* `Emulator.Along`: a condition that holds at each of some moves.
* `Emulator.stepsMade`: the steps among some moves that answer.
* `Emulator.framesMade`: the moves of frames in a row, frame by frame.
* `framesMade_shape`: **each of them is a tick, a count and some steps.**
* `length_framesMade_of_ok`, `framesMade_of_error`: **how many frames have begun**, if all of them
  are made and if one fails.
* `framesMoves_of_ok`, `framesMoves_of_error`: **which steps have answered.**
-/

namespace Chip8

namespace Move

def isStep : Move → Bool
  | step => true
  | _ => false

def isTick : Move → Bool
  | tick => true
  | _ => false

def beginsFrame : Move → Bool
  | beginFrame => true
  | _ => false

end Move

namespace Emulator

variable {e : Emulator} {P : Emulator → Move → Prop} {moves before after : List Move}

/-! ### Conditions along moves -/

/-- The condition holds of each of some moves, and of the emulator that it is made on. -/
def Along (P : Emulator → Move → Prop) : Emulator → List Move → Prop
  | _, [] => True
  | e, move :: moves => P e move ∧ (e.move move).Along P moves

theorem along_append :
    e.Along P (before ++ after) ↔ e.Along P before ∧ (e.course before).Along P after := by
  induction before generalizing e with
  | nil =>
    rw [List.nil_append, Along, true_and]
    rfl
  | cons move before ih => rw [List.cons_append, Along, Along, course_cons, ih, and_assoc]

theorem Along.at (h : e.Along P moves) {move : Move} (hmoves : moves = before ++ move :: after) :
    P (e.course before) move := by
  rw [hmoves, along_append] at h
  exact h.2.1

/-! ### Steps that answer -/

/-- The move is a step that answers. -/
def makesStep (e : Emulator) : Move → Bool
  | .step => e.step.answer.toBool
  | _ => false

/-- How many of some moves are steps that answer. -/
def stepsMade (e : Emulator) : List Move → Nat
  | [] => 0
  | move :: moves => (if e.makesStep move then 1 else 0) + (e.move move).stepsMade moves

theorem stepsMade_append (e : Emulator) (before after : List Move) :
    e.stepsMade (before ++ after) = e.stepsMade before + (e.course before).stepsMade after := by
  induction before generalizing e with
  | nil =>
    rw [List.nil_append, stepsMade, Nat.zero_add]
    rfl
  | cons move before ih =>
    rw [List.cons_append, stepsMade, stepsMade, course_cons, ih, Nat.add_assoc]

theorem stepsMade_step_of_ok {event : StepEvent} (h : e.step.answer = .ok event)
    (moves : List Move) :
    e.stepsMade (.step :: moves) = e.step.emulator.stepsMade moves + 1 := by
  rw [stepsMade, makesStep, h, Nat.add_comm]
  rfl

theorem stepsMade_step_of_error {err : Error} (h : e.step.answer = .error err) :
    e.stepsMade [.step] = 0 := by
  rw [stepsMade, makesStep, h]
  rfl

/-! ### What is left of a frame -/

theorem workMoves_eq_replicate (cycles : Nat) (e : Emulator) :
    ∃ tries ≤ cycles, workMoves cycles e = List.replicate tries .step := by
  induction cycles generalizing e with
  | zero => exact ⟨0, Nat.le_refl 0, rfl⟩
  | succ cycles ih =>
    rw [workMoves]
    split
    · exact ⟨0, Nat.zero_le _, rfl⟩
    · split
      · exact ⟨1, Nat.succ_le_succ (Nat.zero_le _), rfl⟩
      · obtain ⟨tries, hle, hmoves⟩ := ih e.step.emulator
        exact ⟨tries + 1, Nat.succ_le_succ hle, by rw [hmoves, List.replicate_succ]⟩

/-- No step is made by an emulator that is idle. -/
def Busy (e : Emulator) (move : Move) : Prop := move = .step → e.isIdle = false

theorem busy_workMoves (cycles : Nat) (e : Emulator) : e.Along Busy (workMoves cycles e) := by
  induction cycles generalizing e with
  | zero => trivial
  | succ cycles ih =>
    rw [workMoves]
    split
    · trivial
    · next hidle =>
      refine ⟨fun _ => by rwa [Bool.not_eq_true] at hidle, ?_⟩
      split
      · trivial
      · exact ih e.step.emulator

/-- Every step among the moves answers. -/
def AllAnswer (e : Emulator) (moves : List Move) : Prop :=
  e.stepsMade moves = moves.countP Move.isStep

/-- The last of the moves is a step that fails, and every step before it answers. -/
def FailsAtLast (e : Emulator) (moves : List Move) (err : Error) : Prop :=
  ∃ before, moves = before ++ [.step] ∧ e.AllAnswer before ∧
    (e.course before).step.answer = .error err

theorem AllAnswer.append (hbefore : e.AllAnswer before)
    (hafter : (e.course before).AllAnswer after) : e.AllAnswer (before ++ after) := by
  rw [AllAnswer] at hbefore hafter ⊢
  rw [stepsMade_append, List.countP_append, hbefore, hafter]

theorem AllAnswer.append_failsAtLast {err : Error} (hbefore : e.AllAnswer before)
    (hafter : (e.course before).FailsAtLast after err) : e.FailsAtLast (before ++ after) err := by
  obtain ⟨front, rfl, hfront, hlast⟩ := hafter
  refine ⟨before ++ front, (List.append_assoc _ _ _).symm, hbefore.append hfront, ?_⟩
  rw [course_append]
  exact hlast

theorem allAnswer_step {event : StepEvent} (h : e.step.answer = .ok event) :
    e.AllAnswer [.step] := stepsMade_step_of_ok h []

/-- If a frame answers, so have its steps, and the answer tells how many they were. -/
theorem workMoves_of_ok {cycles done : Nat} (h : (workOff cycles e).answer = .ok done) :
    e.AllAnswer (workMoves cycles e) ∧ (workMoves cycles e).countP Move.isStep = done := by
  induction cycles generalizing e done with
  | zero =>
    cases h
    exact ⟨rfl, rfl⟩
  | succ cycles ih =>
    rw [workOff] at h
    rw [workMoves]
    split at h
    · next hidle =>
      cases h
      rw [if_pos hidle]
      exact ⟨rfl, rfl⟩
    · next hidle =>
      obtain ⟨event, hanswer, hrest⟩ := Reply.answer_andThen_eq_ok_iff.mp h
      obtain ⟨later, hlater, rfl⟩ := Reply.answer_map_eq_ok_iff.mp hrest
      obtain ⟨hall, hcount⟩ := ih hlater
      rw [if_neg hidle, hanswer]
      refine ⟨(allAnswer_step hanswer).append hall, ?_⟩
      rw [List.countP_cons_of_pos rfl, hcount]

/-- If a frame fails, then at a step, which is the last one. -/
theorem workMoves_of_error {cycles : Nat} {err : Error}
    (h : (workOff cycles e).answer = .error err) : e.FailsAtLast (workMoves cycles e) err := by
  induction cycles generalizing e with
  | zero => cases h
  | succ cycles ih =>
    rw [workOff] at h
    rw [workMoves]
    split at h
    · cases h
    · next hidle =>
      rw [if_neg hidle]
      rcases Reply.answer_andThen_eq_error_iff.mp h with hanswer | ⟨event, hanswer, hrest⟩
      · rw [hanswer]
        exact ⟨[], rfl, rfl, hanswer⟩
      · rw [hanswer]
        exact (allAnswer_step hanswer).append_failsAtLast
          (ih (Reply.answer_map_eq_error_iff.mp hrest))

/-! ### Frames -/

theorem config_frame (e : Emulator) : e.frame.emulator.config = e.config :=
  (steady_config e.config).frame rfl

theorem frameMoves_of_ok {done : Nat} (h : e.frame.answer = .ok done) :
    e.AllAnswer e.frameMoves ∧ e.frameMoves.countP Move.isStep = done := by
  obtain ⟨hall, hcount⟩ := workMoves_of_ok (e := e.course [.tick, .beginFrame]) h
  have hbegin : e.AllAnswer [.tick, .beginFrame] := rfl
  refine ⟨hbegin.append hall, ?_⟩
  rw [frameMoves, List.countP_cons_of_neg (by decide), List.countP_cons_of_neg (by decide), hcount]

theorem frameMoves_of_error {err : Error} (h : e.frame.answer = .error err) :
    e.FailsAtLast e.frameMoves err := by
  have hbegin : e.AllAnswer [.tick, .beginFrame] := rfl
  exact hbegin.append_failsAtLast (workMoves_of_error h)

theorem busy_frameMoves (e : Emulator) : e.Along Busy e.frameMoves :=
  ⟨fun h => Move.noConfusion h, fun h => Move.noConfusion h,
    busy_workMoves _ (e.course [.tick, .beginFrame])⟩

/-- The moves of frames in a row, frame by frame. -/
def framesMade : Nat → Emulator → List (List Move)
  | 0, _ => []
  | count + 1, e =>
    e.frameMoves :: match e.frame.answer with
      | .error _ => []
      | .ok _ => framesMade count e.frame.emulator

theorem flatten_framesMade (count : Nat) (e : Emulator) :
    (framesMade count e).flatten = framesMoves count e := by
  induction count generalizing e with
  | zero => rfl
  | succ count ih =>
    rw [framesMade, framesMoves, List.flatten_cons]
    cases e.frame.answer with
    | error err => rfl
    | ok done => rw [ih]

/-- **A frame is a tick, a count and some steps**, no more of them than the settings say. -/
theorem framesMade_shape {count : Nat} {frame : List Move} (h : frame ∈ framesMade count e) :
    ∃ tries ≤ e.config.cyclesPerFrame,
      frame = .tick :: .beginFrame :: List.replicate tries .step := by
  induction count generalizing e with
  | zero => cases h
  | succ count ih =>
    rcases List.mem_cons.mp h with rfl | hlater
    · obtain ⟨tries, hle, hmoves⟩ :=
        workMoves_eq_replicate e.config.cyclesPerFrame (e.course [.tick, .beginFrame])
      exact ⟨tries, hle, by rw [frameMoves, hmoves]⟩
    · split at hlater
      · cases hlater
      · rw [← config_frame e]
        exact ih hlater

/-- What each frame has one of, frames have as many of as have begun. -/
theorem countP_framesMoves {p : Move → Bool} (hone : [Move.tick, .beginFrame].countP p = 1)
    (hstep : p .step = false) (count : Nat) (e : Emulator) :
    (framesMoves count e).countP p = (framesMade count e).length := by
  have heach : ∀ frame ∈ framesMade count e, frame.countP p = 1 := by
    intro frame hframe
    obtain ⟨tries, -, rfl⟩ := framesMade_shape hframe
    have hsplit : .tick :: .beginFrame :: List.replicate tries .step =
        [Move.tick, .beginFrame] ++ List.replicate tries .step := rfl
    rw [hsplit, List.countP_append, hone, List.countP_replicate, hstep]
    rfl
  rw [← flatten_framesMade, List.countP_flatten, List.map_congr_left heach, List.map_const',
    List.sum_replicate_nat, Nat.mul_one]

theorem length_framesMade_of_ok {count done : Nat} (h : (framesInTurn count e).answer = .ok done) :
    (framesMade count e).length = count := by
  induction count generalizing e done with
  | zero => rfl
  | succ count ih =>
    obtain ⟨first, hfirst, hrest⟩ := Reply.answer_andThen_eq_ok_iff.mp h
    obtain ⟨later, hlater, -⟩ := Reply.answer_map_eq_ok_iff.mp hrest
    rw [framesMade, hfirst, List.length_cons, ih hlater]

/-- Frames that fail have made all frames before the one that fails, and no frame after it. -/
theorem framesMade_of_error {count : Nat} {err : Error}
    (h : (framesInTurn count e).answer = .error err) :
    ∃ n < count, (∃ done, (framesInTurn n e).answer = .ok done) ∧
      (framesInTurn (n + 1) e).answer = .error err ∧ (framesMade count e).length = n + 1 := by
  induction count generalizing e with
  | zero => cases h
  | succ count ih =>
    rcases Reply.answer_andThen_eq_error_iff.mp h with hfirst | ⟨first, hfirst, hrest⟩
    · refine ⟨0, Nat.succ_pos _, ⟨0, rfl⟩, ?_, ?_⟩
      · rw [framesInTurn_one]
        exact hfirst
      · rw [framesMade, hfirst]
        rfl
    · obtain ⟨n, hn, ⟨done, hdone⟩, hfails, hlength⟩ := ih (Reply.answer_map_eq_error_iff.mp hrest)
      refine ⟨n + 1, Nat.succ_lt_succ hn, ⟨first + done, ?_⟩, ?_, ?_⟩
      · exact Reply.answer_andThen_eq_ok_iff.mpr
          ⟨first, hfirst, Reply.answer_map_eq_ok_iff.mpr ⟨done, hdone, rfl⟩⟩
      · exact Reply.answer_andThen_eq_error_iff.mpr
          (.inr ⟨first, hfirst, Reply.answer_map_eq_error_iff.mpr hfails⟩)
      · rw [framesMade, hfirst, List.length_cons, hlength]

theorem framesMoves_of_ok {count done : Nat} (h : (framesInTurn count e).answer = .ok done) :
    e.AllAnswer (framesMoves count e) ∧ (framesMoves count e).countP Move.isStep = done := by
  induction count generalizing e done with
  | zero =>
    cases h
    exact ⟨rfl, rfl⟩
  | succ count ih =>
    obtain ⟨first, hfirst, hrest⟩ := Reply.answer_andThen_eq_ok_iff.mp h
    obtain ⟨later, hlater, rfl⟩ := Reply.answer_map_eq_ok_iff.mp hrest
    obtain ⟨hall, hcount⟩ := frameMoves_of_ok hfirst
    obtain ⟨hall', hcount'⟩ := ih hlater
    rw [framesMoves, hfirst]
    refine ⟨hall.append ?_, ?_⟩
    · rw [← emulator_frame]
      exact hall'
    · rw [List.countP_append, hcount, hcount']

theorem framesMoves_of_error {count : Nat} {err : Error}
    (h : (framesInTurn count e).answer = .error err) : e.FailsAtLast (framesMoves count e) err := by
  induction count generalizing e with
  | zero => cases h
  | succ count ih =>
    rw [framesMoves]
    rcases Reply.answer_andThen_eq_error_iff.mp h with hfirst | ⟨first, hfirst, hrest⟩
    · rw [hfirst, List.append_nil]
      exact frameMoves_of_error hfirst
    · rw [hfirst]
      refine (frameMoves_of_ok hfirst).1.append_failsAtLast ?_
      rw [← emulator_frame]
      exact ih (Reply.answer_map_eq_error_iff.mp hrest)

theorem busy_framesMoves (count : Nat) (e : Emulator) : e.Along Busy (framesMoves count e) := by
  induction count generalizing e with
  | zero => trivial
  | succ count ih =>
    rw [framesMoves, along_append, ← emulator_frame]
    refine ⟨busy_frameMoves e, ?_⟩
    split
    · trivial
    · exact ih e.frame.emulator

end Emulator

end Chip8
