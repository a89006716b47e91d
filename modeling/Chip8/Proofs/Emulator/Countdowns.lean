import Chip8.Proofs.Emulator.Frames
import Chip8.Proofs.Emulator.Inputs

/-!
# Timers count ticks

A program sets a timer by a word `Fx15` or `Fx18` and then leaves it alone, and the host ticks: the
timer runs down by one for each tick, and stops at zero.  So what a timer shows is what was last
stored in it, less the ticks since then.  How many steps there were in between, and of what kind,
has no part in it, and the one timer has no part in the other.

Frames tick by themselves, each of them once and before its first step.

* `Timer`: the two timers, and the word that sets each.
* `Emulator.setting?`: what a move stores in a timer, if it does.
* `count_happen_step`, `count_move`: a step sets a timer or leaves it alone, and a move also ticks.
* `Emulator.latest?`, `Emulator.due`: the last value stored in a timer among some moves and the
  ticks since, and what is left of it.
* `count_course`: **a timer shows the last value stored in it, less the ticks since.**
* `Emulator.HaveTicked`: the ticks of frames.
* `timers_count_ticks`: all of this together.
-/

namespace Chip8

theorem Timers.countDown_nonneg {n : Int} (h : 0 ≤ n) : 0 ≤ countDown n := by
  rw [countDown]
  split <;> omega

/-- One of the two counters that run down. -/
inductive Timer
  | delay
  | sound
  deriving DecidableEq, Repr

namespace Timer

/-- What a timer shows. -/
def count : Timer → Timers → Int
  | delay, timers => timers.delay
  | sound, timers => timers.sound

/-- The low byte of the words that set a timer: `Fx15` and `Fx18`. -/
def code : Timer → Nat
  | delay => 0x15
  | sound => 0x18

theorem code_inj {t t' : Timer} (h : t.code = t'.code) : t = t' := by
  cases t <;> cases t' <;> first | rfl | cases h

/-- The instructions that set a timer. -/
def setter : Timer → Register → Instruction
  | delay => .setDelay
  | sound => .setSound

theorem count_tick (t : Timer) (timers : Timers) :
    t.count timers.tick = Timers.countDown (t.count timers) := by
  cases t with
  | delay | sound => rfl

end Timer

/-! ### Steps -/

namespace Machine

variable {m m' : Machine} {i : Instruction} {o : Outcome} {w : UInt16} {t : Timer}

/-- What the next step stores in a timer, if it does. -/
def setting? (m : Machine) (t : Timer) : Option Int :=
  match m.dueWord? with
  | none => none
  | some w =>
    if w.toNat / 4096 = 0xF ∧ w.toNat % 256 = t.code then some (m.reg (Word.x w)).toNat else none

/-- Only its own word changes a timer. -/
theorem Executes.count_eq (h : Executes m i o m') (hw : i.HasDigits w)
    (hother : ¬ (w.toNat / 4096 = 0xF ∧ w.toNat % 256 = t.code)) :
    t.count m'.timers = t.count m.timers := by
  by_contra hne
  cases t with
  | delay => exact hother (h.delay_changes hw hne)
  | sound => exact hother (h.sound_changes hw hne)

theorem decode_of_code (hcode : w.toNat / 4096 = 0xF ∧ w.toNat % 256 = t.code) :
    Instruction.decode w = t.setter (Word.x w) := by
  cases t with
  | delay | sound => exact Instruction.decode_eq_iff.mpr ⟨hcode.1, hcode.2, rfl⟩

theorem Executes.count_setter {x : Register} (h : Executes m (t.setter x) o m') :
    t.count m'.timers = (m.reg x).toNat := by
  cases t with
  | delay =>
    cases h
    rfl
  | sound =>
    cases h
    rfl

theorem exists_executes_setter (m : Machine) (t : Timer) (x : Register) :
    ∃ m', Executes m (t.setter x) .executed m' := by
  cases t with
  | delay => exact ⟨_, .setDelay x⟩
  | sound => exact ⟨_, .setSound x⟩

theorem not_refuses_setter {x : Register} {cause : Cause} : ¬ Refuses m (t.setter x) cause := by
  intro h
  cases t with
  | delay | sound =>
    cases h with
    | block hlength => cases hlength

/-- **A step stores a value in a timer or leaves it alone**, be it that it succeeds, waits or
faults. -/
theorem count_happen_step (m : Machine) (t : Timer) :
    t.count (m.happen .step).timers = (m.setting? t).getD (t.count m.timers) := by
  rw [setting?]
  rcases m.happen_step_cases with ⟨hdue, hsame | ⟨x, key, hend⟩⟩ | ⟨w, hdue, hword⟩
  · rw [hdue, hsame]
    rfl
  · rw [hdue, hend]
    rfl
  · rw [hdue]
    by_cases hcode : w.toNat / 4096 = 0xF ∧ w.toNat % 256 = t.code
    · simp only [if_pos hcode]
      rcases hword with ⟨o, hrule⟩ | ⟨⟨cause, hrefuses⟩, -⟩
      · rw [decode_of_code hcode] at hrule
        exact hrule.count_setter
      · rw [decode_of_code hcode] at hrefuses
        exact absurd hrefuses not_refuses_setter
    · simp only [if_neg hcode]
      rcases hword with ⟨o, hrule⟩ | ⟨-, hsame⟩
      · exact hrule.count_eq (Instruction.hasDigits_decode w) hcode
      · rw [hsame]
        rfl

theorem setting?_eq_some_iff {v : Int} : m.setting? t = some v ↔
    ∃ w, m.dueWord? = some w ∧ (w.toNat / 4096 = 0xF ∧ w.toNat % 256 = t.code) ∧
      v = (m.reg (Word.x w)).toNat := by
  rw [setting?]
  cases m.dueWord? with
  | none => simp
  | some w => simp [eq_comm]

theorem exists_step_of_code (hdue : m.dueWord? = some w)
    (hcode : w.toNat / 4096 = 0xF ∧ w.toNat % 256 = t.code) :
    ∃ m', m.step = .ok (.executed, m') := by
  obtain ⟨hwait, hw⟩ := dueWord?_eq_some_iff.mp hdue
  obtain ⟨m', hrule⟩ := exists_executes_setter m.advance t (Word.x w)
  rw [← decode_of_code hcode] at hrule
  exact ⟨m', step_of_executes hwait hw hrule⟩

theorem setting?_nonneg {v : Int} (h : m.setting? t = some v) : 0 ≤ v := by
  obtain ⟨w, -, -, rfl⟩ := setting?_eq_some_iff.mp h
  exact Int.natCast_nonneg _

theorem setting?_other {t' : Timer} {v : Int} (hne : t ≠ t') (h : m.setting? t = some v) :
    m.setting? t' = none := by
  obtain ⟨w, hdue, ⟨-, hlow⟩, -⟩ := setting?_eq_some_iff.mp h
  refine Option.eq_none_iff_forall_ne_some.mpr fun v' hv' => hne ?_
  obtain ⟨w', hdue', ⟨-, hlow'⟩, -⟩ := setting?_eq_some_iff.mp hv'
  obtain rfl := Option.some.inj (hdue.symm.trans hdue')
  exact Timer.code_inj (hlow.symm.trans hlow')

end Machine

/-! ### Moves -/

namespace Emulator

variable {e : Emulator} {t : Timer} {move : Move} {moves : List Move}

/-- What a move stores in a timer, if it does. -/
def setting? (e : Emulator) (t : Timer) : Move → Option Int
  | .step => if e.halt.isSome then none else e.machine.setting? t
  | .stepProcessor => e.machine.setting? t
  | _ => none

/-- The steps that store a value in a timer are those that carry out its word.  They answer. -/
theorem setting?_step_eq_some_iff {v : Int} : e.setting? t .step = some v ↔
    ∃ w, e.dueWord? = some w ∧ w.toNat / 4096 = 0xF ∧ w.toNat % 256 = t.code ∧
      v = (e.machine.reg (Word.x w)).toNat ∧ ∃ event, e.step.answer = .ok event := by
  rw [setting?, dueWord?]
  cases hhalt : e.halt with
  | some f => simp
  | none =>
    rw [Option.isSome_none, if_neg Bool.false_ne_true, if_neg Bool.false_ne_true]
    constructor
    · intro h
      obtain ⟨w, hdue, hcode, rfl⟩ := Machine.setting?_eq_some_iff.mp h
      obtain ⟨m', hstep⟩ := Machine.exists_step_of_code hdue hcode
      refine ⟨w, hdue, hcode.1, hcode.2, rfl, stepEvent e.machine .executed, ?_⟩
      rw [step_of_ok hhalt hstep]
    · rintro ⟨w, hdue, hgroup, hlow, rfl, -⟩
      exact Machine.setting?_eq_some_iff.mpr ⟨w, hdue, ⟨hgroup, hlow⟩, rfl⟩

theorem setting?_nonneg {v : Int} (h : e.setting? t move = some v) : 0 ≤ v := by
  cases move with
  | step =>
    rw [setting?] at h
    split at h
    · cases h
    · exact Machine.setting?_nonneg h
  | stepProcessor => exact Machine.setting?_nonneg h
  | _ => cases h

theorem setting?_other {t' : Timer} {v : Int} (hne : t ≠ t') (h : e.setting? t move = some v) :
    e.setting? t' move = none := by
  cases move with
  | step =>
    rw [setting?] at h ⊢
    split at h
    · cases h
    · next hhalt =>
      rw [if_neg hhalt]
      exact Machine.setting?_other hne h
  | stepProcessor => exact Machine.setting?_other hne h
  | _ => cases h

/-- What a timer shows. -/
def count (e : Emulator) (t : Timer) : Int := t.count e.machine.timers

/-- **A move sets a timer, ticks it, or leaves it alone.** -/
theorem count_move (e : Emulator) (t : Timer) (hmove : move.startsOver = false) :
    (e.move move).count t =
      (e.setting? t move).getD
        (if move.isTick then Timers.countDown (e.count t) else e.count t) := by
  cases move with
  | step =>
    rw [count, Emulator.move, machine_step, setting?]
    split
    · rfl
    · exact e.machine.count_happen_step t
  | tick => exact t.count_tick e.machine.timers
  | stepProcessor => exact e.machine.count_happen_step t
  | reset => cases hmove
  | _ => rfl

/-- No move takes a timer below zero, starts included. -/
theorem count_move_nonneg (h : 0 ≤ e.count t) (move : Move) : 0 ≤ (e.move move).count t := by
  cases hmove : move.startsOver with
  | true =>
    cases move with
    | reset entropy =>
      cases t with
      | delay | sound => exact Int.le_refl 0
    | _ => cases hmove
  | false =>
    rw [count_move e t hmove]
    cases hset : e.setting? t move with
    | some v => exact setting?_nonneg hset
    | none =>
      rw [Option.getD_none]
      split
      · exact Timers.countDown_nonneg h
      · exact h

theorem count_course_nonneg (h : 0 ≤ e.count t) (history : List Move) :
    0 ≤ (e.course history).count t := by
  induction history generalizing e with
  | nil => exact h
  | cons move history ih => exact ih (count_move_nonneg h move)

theorem count_fresh_nonneg (config : Config) (entropy : Int) (t : Timer) :
    0 ≤ (fresh config entropy).count t := by
  cases t with
  | delay | sound => exact Int.le_refl 0

/-- The last value that some moves store in a timer, and the ticks among them since then. -/
def latest? (t : Timer) : Emulator → List Move → Option (Int × Nat)
  | _, [] => none
  | e, move :: moves =>
    ((e.move move).latest? t moves).or
      ((e.setting? t move).map fun v => (v, moves.countP Move.isTick))

/-- What a timer is to show after some moves: the last value stored in it, or else what it shows
now, less the ticks since then, and never less than zero. -/
def due (e : Emulator) (t : Timer) (moves : List Move) : Int :=
  match e.latest? t moves with
  | some (v, ticks) => max 0 (v - ticks)
  | none => max 0 (e.count t - moves.countP Move.isTick)

/-- **A timer shows the last value stored in it, less the ticks since.** -/
theorem count_course (hstart : 0 ≤ e.count t) (hmoves : ∀ move ∈ moves, move.startsOver = false) :
    (e.course moves).count t = e.due t moves := by
  induction moves generalizing e with
  | nil =>
    show e.count t = max 0 (e.count t - (0 : Nat))
    omega
  | cons move moves ih =>
    rw [List.forall_mem_cons] at hmoves
    have hnext := count_move_nonneg hstart move
    rw [course_cons, ih hnext hmoves.2, due, due, latest?]
    cases (e.move move).latest? t moves with
    | some last => rfl
    | none =>
      rw [count_move e t hmoves.1, Option.none_or]
      cases hset : e.setting? t move with
      | some v => rfl
      | none =>
        rw [Option.getD_none, Option.map_none, List.countP_cons]
        cases move.isTick with
        | false => simp
        | true =>
          simp only [if_true, Timers.countDown]
          split <;> push_cast <;> omega

/-! ### The ticks of frames -/

/-- Frames have made as many ticks as so many of them have begun, and each of these starts with its
tick. -/
structure HaveTicked (e : Emulator) (count begun : Nat) : Prop where
  ticks_eq : (e.movesOf (.runFrames count)).countP Move.isTick = begun
  shape : ∃ frames : List (List Move), e.movesOf (.runFrames count) = frames.flatten ∧
    frames.length = begun ∧ ∀ frame ∈ frames, ∃ tries ≤ e.config.cyclesPerFrame,
      frame = .tick :: .beginFrame :: List.replicate tries .step

theorem haveTicked_framesMade (e : Emulator) (count : Nat) :
    e.HaveTicked count (framesMade count e).length := by
  have hmoves : e.movesOf (.runFrames count) = framesMoves count e := by
    rw [movesOf, Int.toNat_natCast]
  refine ⟨?_, framesMade count e, ?_, rfl, fun frame hframe => framesMade_shape hframe⟩
  · rw [hmoves, countP_framesMoves rfl rfl]
  · rw [hmoves, flatten_framesMade]

/-- **Timers count ticks and nothing else.**  Whatever moves follow short of a start, a timer shows
the last value that its word has stored in it, or what it showed at first, less the ticks since
then.  What a host asks for are such moves, and the frames among them tick once each. -/
theorem timers_count_ticks :
    (∀ (config : Config) (entropy : Int) (history moves : List Move) (e : Emulator),
      e = (fresh config entropy).course history →
      (∀ move ∈ moves, move.startsOver = false) →
      (∀ t, (e.course moves).count t = e.due t moves) ∧
        ((e.course moves).machine.timers.isSoundActive = true ↔ 0 < e.due .sound moves)) ∧
    (∀ (e : Emulator) (t t' : Timer) (move : Move) (v : Int), e.setting? t move = some v →
      (e.move move).count t = v ∧ (t ≠ t' → (e.move move).count t' = e.count t')) ∧
    (∀ (e : Emulator) (t : Timer) (v : Int), e.setting? t .step = some v ↔
      ∃ w, e.dueWord? = some w ∧ w.toNat / 4096 = 0xF ∧ w.toNat % 256 = t.code ∧
        v = (e.machine.reg (Word.x w)).toNat ∧ ∃ event, e.step.answer = .ok event) ∧
    (∀ (e : Emulator) (operations : List Operation),
      (∀ operation ∈ operations, operation.startsOver = false) →
      e.after operations = e.course (e.movesAmong operations) ∧
        ∀ move ∈ e.movesAmong operations, move.startsOver = false) ∧
    (∀ (e : Emulator) (count done : Nat), (e.runFrames count).answer = .ok done →
      e.HaveTicked count count) ∧
    (∀ (e : Emulator) (count : Nat) (err : Error), (e.runFrames count).answer = .error err →
      ∃ j, 1 ≤ j ∧ j ≤ count ∧ (∃ done, (e.runFrames (j - 1 : Nat)).answer = .ok done) ∧
        (e.runFrames j).answer = .error err ∧ e.HaveTicked count j) := by
  refine ⟨?_, ?_, fun e t v => setting?_step_eq_some_iff, ?_, ?_, ?_⟩
  · rintro config entropy history moves e rfl hmoves
    have hcount : ∀ t, (((fresh config entropy).course history).course moves).count t = _ :=
      fun t =>
        count_course (count_course_nonneg (count_fresh_nonneg config entropy t) history) hmoves
    refine ⟨hcount, ?_⟩
    rw [← hcount .sound, Timers.isSoundActive, decide_eq_true_iff]
    rfl
  · intro e t t' move v hset
    have hmove : move.startsOver = false := by
      cases move with
      | reset => cases hset
      | _ => rfl
    refine ⟨?_, fun hne => ?_⟩
    · rw [count_move e t hmove, hset, Option.getD_some]
    · have htick : move.isTick = false := by
        cases move with
        | tick => cases hset
        | _ => rfl
      rw [count_move e t' hmove, setting?_other hne hset, Option.getD_none, htick]
      rfl
  · exact fun e operations hquiet => ⟨e.after_eq_course operations, startsOver_movesAmong hquiet⟩
  · intro e count done hdone
    rw [runFrames, Int.toNat_natCast] at hdone
    have hticked := e.haveTicked_framesMade count
    rwa [length_framesMade_of_ok hdone] at hticked
  · intro e count err herr
    rw [runFrames, Int.toNat_natCast] at herr
    obtain ⟨n, hn, hdone, hfails, hlength⟩ := framesMade_of_error herr
    have hticked := e.haveTicked_framesMade count
    rw [hlength] at hticked
    exact ⟨n + 1, Nat.succ_pos n, hn, hdone, hfails, hticked⟩

/-- An emulator whose register `V0` holds five, and whose next word stores it in the delay timer. -/
def readyToCount : List Move :=
  [.write 0x200 (Word.bytes 0x6005), .step, .write 0x202 (Word.bytes 0xF015)]

/-- The delay timer is set to five and ticks twice, while an idle emulator ticks once a frame. -/
theorem timers_count_ticks_readyToCount :
    (((fresh { seed := some 0 } 0).course readyToCount).course
      [.step, .tick, .update 3 true, .tick]).count .delay = 3 ∧
    (keyless {}).HaveTicked 3 3 := by
  obtain ⟨hruns, -, -, -, hframes, -⟩ := timers_count_ticks
  refine ⟨?_, hframes (keyless {}) 3 0 rfl⟩
  obtain ⟨hcount, -⟩ := hruns { seed := some 0 } 0 readyToCount
    [.step, .tick, .update 3 true, .tick] _ rfl (by simp [Move.startsOver])
  have hload : (Machine.atWord 0x6005).step =
      .ok (.executed, (Machine.atWord 0x6005).advance.setReg 0 5) :=
    Machine.step_of_executes rfl (Machine.nextWord?_atWord 0x6005) (.loadByte 0 5)
  generalize hm : (Machine.atWord 0x6005).advance.setReg 0 5 = m at hload
  have hstep : ((fresh { seed := some 0 } 0).withMachine (.atWord 0x6005)).step = _ :=
    step_of_ok (e := (fresh { seed := some 0 } 0).withMachine (.atWord 0x6005)) rfl hload
  have hready : (fresh { seed := some 0 } 0).course readyToCount =
      { fresh { seed := some 0 } 0 with
        machine := { m with memory := m.memory.overwrite 0x202 (Word.bytes 0xF015) }
        steps := 1 } := by
    rw [readyToCount, course_cons, move_write_fresh, course_cons, Emulator.move, hstep]
    rfl
  rw [hready] at hcount ⊢
  have hset : Machine.setting? { m with memory := m.memory.overwrite 0x202 (Word.bytes 0xF015) }
      .delay = some 5 := by
    refine Machine.setting?_eq_some_iff.mpr ⟨0xF015, Machine.dueWord?_eq_some_iff.mpr ⟨?_,
      Machine.nextWord?_of_overwrite ?_ (by decide) 0xF015⟩, by decide, ?_⟩
    all_goals
      rw [← hm]
      rfl
  rw [hcount .delay, due, latest?, setting?]
  simp only [hset]
  rfl

end Emulator

end Chip8
