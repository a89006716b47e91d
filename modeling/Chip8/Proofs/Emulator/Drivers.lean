import Chip8.Proofs.Emulator.Calls
import Chip8.Proofs.Execution.KeyWait
import Mathlib.Logic.Function.Iterate

/-!
# How the drivers agree and compose

A host drives an emulator by a number of steps or by frames.  Both drivers stop early when an
instruction waits for a key, but they look at different things: a run looks at what its last step
has reported, a frame looks at the machine before it makes a step.  The two tests agree, because a
wait that has just begun has seen no press yet.

Neither driver hides anything from one call to the next, so two calls in a row are one call with the
sum of their budgets.

* `isIdle_step_iff`: **after a step, an emulator that was not idle is idle exactly if the step has
  reported a wait.**
* `map_steps_runOn`: a run and a frame make the same steps.
* `frame_agrees_with_run`: **a frame is a tick and a run.**
* `run_add`, `framesInTurn_add`: a second call goes on where the first one has stopped.
* `drivers_compose`: **a budget may be split anywhere.**
-/

namespace Chip8

/-- An emulator with another count of frames. -/
def Emulator.counting (e : Emulator) (frames : Nat) : Emulator := { e with frames }

namespace Reply

variable {ε α β : Type}

/-- The reply of a call with another count of frames. -/
def recounted (r : Reply ε α) (frames : Nat) : Reply ε α :=
  { r with emulator := r.emulator.counting frames }

theorem recounted_andThen (r : Reply ε α) (frames : Nat) {next : α → Emulator → Reply ε β}
    (hnext : ∀ a (e : Emulator), next a (e.counting frames) = (next a e).recounted frames) :
    (r.recounted frames).andThen next = (r.andThen next).recounted frames := by
  obtain ⟨answer, e, log⟩ := r
  cases answer with
  | error err => rfl
  | ok a =>
    rw [andThen_of_ok (r := recounted _ frames) rfl, andThen_of_ok rfl]
    show { next a (e.counting frames) with log := log ++ (next a (e.counting frames)).log } = _
    rw [hnext]
    rfl

end Reply

/-- A machine whose wait, if any, is about to end is in a wait of its own after a step exactly if
the step has reported one. -/
theorem Machine.waits_iff_of_step {m m' : Machine} {o : Outcome} (h : m.step = .ok (o, m'))
    (hready : m.processor.waiting ≠ none → m.freshPress? ≠ none) :
    (m'.processor.waiting ≠ none ∧ m'.freshPress? = none) ↔ o = .awaitingKey := by
  rcases step_eq_ok_iff.mp h with ⟨x, hx, hresume⟩ | ⟨hwait, w, hw, hrule⟩
  · have hfresh : m.freshPress? ≠ none := hready (by rw [hx]; exact Option.some_ne_none x)
    obtain ⟨key, hkey⟩ := Option.ne_none_iff_exists'.mp hfresh
    rw [resume, hkey] at hresume
    cases hresume
    simp [endWait]
  · constructor
    · rintro ⟨hne, -⟩
      obtain ⟨x, hx⟩ := Option.ne_none_iff_exists'.mp hne
      exact (hrule.wait hwait hx).2.1
    · rintro rfl
      obtain ⟨x, -, rfl⟩ := hrule.eq_beginWait
      exact ⟨Option.some_ne_none x, freshPress?_of_le (Nat.le_refl m.keypad.presses)⟩

/-- The event of a run that had made some steps before. -/
def StepEvent.following (event : StepEvent) (taken : Nat) : StepEvent :=
  { event with steps := taken + event.steps }

namespace Emulator

variable {e : Emulator}

/-! ### Runs in a row -/

theorem runOn_offset (budget taken earlier : Nat) (last : Option StepEvent) (e : Emulator) :
    runOn budget (earlier + taken) last e =
      (runOn budget taken last e).map (·.following earlier) := by
  induction budget generalizing taken last e with
  | zero => simp [runOn, answering, Reply.map, Except.map, StepEvent.following, runEvent]
  | succ budget ih =>
    rw [runOn, runOn, Reply.map_andThen]
    congr 1
    funext event e'
    split
    · simp [answering, Reply.map, Except.map, StepEvent.following, runEvent, Int.add_assoc]
    · rw [Nat.add_assoc, ih]

/-- A run that has stopped at a wait is over; any other goes on with what is left of its budget.
Its second part starts anew, because it makes a step of its own to report on. -/
theorem runOn_add (a b taken : Nat) (last : Option StepEvent) (e : Emulator) :
    runOn (a + (b + 1)) taken last e =
      (runOn a taken last e).andThen fun event e' =>
        if event.reason = some .awaitingKey then e'.answering event
        else runOn (b + 1) (taken + a) none e' := by
  induction a generalizing taken last e with
  | zero =>
    rw [runOn, answering_andThen, if_neg (by simp [runEvent]), Nat.zero_add]
    rfl
  | succ a ih =>
    rw [show a + 1 + (b + 1) = a + (b + 1) + 1 by omega, runOn, runOn, Reply.andThen_assoc]
    congr 1
    funext event e'
    by_cases hevent : event.outcome = some .awaitingKey
    · rw [if_pos hevent, if_pos hevent, answering_andThen]
      exact (if_pos rfl).symm
    · rw [if_neg hevent, if_neg hevent, ih, show taken + 1 + a = taken + (a + 1) by omega]

/-- **A run is two runs in a row**, unless the first one has stopped at a wait. -/
theorem run_add (e : Emulator) (a : Nat) {b : Nat} (hb : 0 < b) :
    e.run (a + b) = (e.run a).andThen fun event e' =>
      if event.reason = some .awaitingKey then e'.answering event
      else (e'.run b).map (·.following a) := by
  obtain ⟨b, rfl⟩ := Nat.exists_eq_succ_of_ne_zero (Nat.ne_of_gt hb)
  have hbudget : ((a : Int) + (b.succ : Int)).toNat = a + (b + 1) := by omega
  rw [run, hbudget, runOn_add]
  congr 1
  funext event e'
  split
  · rfl
  · rw [Nat.zero_add, run, Int.toNat_natCast, ← runOn_offset, Nat.add_zero]
    rfl

/-! ### Frames in a row -/

theorem framesInTurn_add (a b : Nat) (e : Emulator) :
    framesInTurn (a + b) e =
      (framesInTurn a e).andThen fun done e' => (framesInTurn b e').map (done + ·) := by
  induction a generalizing e with
  | zero =>
    rw [framesInTurn, answering_andThen, Nat.zero_add]
    simp only [Nat.zero_add]
    exact (Reply.map_id _).symm
  | succ a ih =>
    rw [show a + 1 + b = a + b + 1 by omega, framesInTurn, framesInTurn, Reply.andThen_assoc]
    congr 1
    funext done e'
    rw [ih, Reply.map_andThen, Reply.andThen_map]
    congr 1
    funext done' e''
    rw [Reply.map_map]
    congr 1
    funext n
    omega

theorem framesInTurn_one (e : Emulator) : framesInTurn 1 e = e.frame := by
  have hlast : (fun done (e' : Emulator) => (framesInTurn 0 e').map (done + ·)) =
      fun done e' => e'.answering done := rfl
  rw [framesInTurn, hlast, ← map_eq_andThen, Reply.map_id]

theorem runFrames_add (e : Emulator) (a b : Nat) :
    e.runFrames (a + b) =
      (e.runFrames a).andThen fun done e' => (e'.runFrames b).map (done + ·) := by
  have hcount : ((a : Int) + (b : Int)).toNat = a + b := by omega
  simp only [runFrames, Int.toNat_natCast, hcount]
  exact framesInTurn_add a b e

/-- **Drivers compose.**  Frames in a row are counted up, and a failure among the first ones is the
failure of all.  A run that has spent its budget goes on with the rest of it as a run of its own;
one that waits or fails is over. -/
theorem drivers_compose (e : Emulator) (a b : Nat) :
    (∀ n, (e.runFrames a).answer = .ok n →
      (e.runFrames (a + b)).emulator = ((e.runFrames a).emulator.runFrames b).emulator ∧
      (e.runFrames (a + b)).answer =
        ((e.runFrames a).emulator.runFrames b).answer.map (n + ·)) ∧
    (∀ err, (e.runFrames a).answer = .error err → e.runFrames (a + b) = e.runFrames a) ∧
    (0 < b →
      (∀ event, (e.run a).answer = .ok event → event.reason = some .maxSteps →
        (e.run (a + b)).emulator = ((e.run a).emulator.run b).emulator ∧
        (e.run (a + b)).answer = ((e.run a).emulator.run b).answer.map fun event' =>
          { event' with steps := a + event'.steps }) ∧
      (∀ event, (e.run a).answer = .ok event → event.reason = some .awaitingKey →
        e.run (a + b) = e.run a) ∧
      (∀ err, (e.run a).answer = .error err → e.run (a + b) = e.run a)) := by
  refine ⟨?_, ?_, fun hb => ⟨?_, ?_, ?_⟩⟩
  · intro n hn
    rw [runFrames_add, Reply.andThen_of_ok hn]
    exact ⟨rfl, rfl⟩
  · intro err herr
    rw [runFrames_add, Reply.andThen_of_error herr, ← herr]
  · intro event hevent hreason
    rw [run_add e a hb, Reply.andThen_of_ok hevent, if_neg (by rw [hreason]; decide)]
    exact ⟨rfl, rfl⟩
  · intro event hevent hreason
    rw [run_add e a hb, Reply.andThen_of_ok hevent, if_pos hreason]
    simp only [answering, List.append_nil, ← hevent]
  · intro err herr
    rw [run_add e a hb, Reply.andThen_of_error herr, ← herr]

/-- An emulator in which an instruction waits for a key that has not come. -/
def keyless (config : Config) : Emulator :=
  (fresh config 0).withMachine ((Machine.atWord 0xF00A).beginWait Registers.first)

theorem drivers_compose_keyless :
    ((keyless {}).run 1).answer =
        .ok (runEvent .awaitingKey 1 (some (stepEvent (keyless {}).machine .awaitingKey))) ∧
      (keyless {}).run (1 + 1) = (keyless {}).run 1 ∧
      ((keyless {}).runFrames 1).answer = .ok 0 ∧
      ((keyless {}).runFrames (1 + 1)).emulator =
        (((keyless {}).runFrames 1).emulator.runFrames 1).emulator := by
  obtain ⟨hframes, -, hruns⟩ := drivers_compose (keyless {}) 1 1
  obtain ⟨-, hwait, -⟩ := hruns Nat.one_pos
  have hrun : ((keyless {}).run 1).answer =
      .ok (runEvent .awaitingKey 1 (some (stepEvent (keyless {}).machine .awaitingKey))) := rfl
  have hframe : ((keyless {}).runFrames 1).answer = .ok 0 := rfl
  exact ⟨hrun, hwait _ hrun rfl, hframe, (hframes _ hframe).1⟩

/-! ### Idle emulators -/

theorem isIdle_eq_true_iff : e.isIdle = true ↔
    e.machine.processor.waiting ≠ none ∧ e.machine.freshPress? = none := by
  rw [isIdle, Machine.isKeyReady, Machine.isAwaitingKey]
  cases e.machine.processor.waiting with
  | none => simp
  | some x => simp

/-- **After a step, an emulator that was not idle is idle exactly if the step has reported a
wait.** -/
theorem isIdle_step_iff {event : StepEvent} (hidle : e.isIdle = false)
    (h : e.step.answer = .ok event) :
    e.step.emulator.isIdle = true ↔ event.outcome = some .awaitingKey := by
  have hready : e.machine.processor.waiting ≠ none → e.machine.freshPress? ≠ none := by
    intro hwait hfresh
    rw [isIdle_eq_true_iff.mpr ⟨hwait, hfresh⟩] at hidle
    cases hidle
  cases hhalt : e.halt with
  | some f =>
    rw [step_of_halted hhalt] at h
    cases h
  | none =>
    cases hstep : e.machine.step with
    | error f =>
      rw [step_of_fault hhalt hstep] at h
      cases h
    | ok result =>
      obtain ⟨o, m'⟩ := result
      rw [step_of_ok hhalt hstep] at h ⊢
      cases h
      rw [isIdle_eq_true_iff, Machine.waits_iff_of_step hstep hready]
      simp [stepEvent]

theorem workOff_of_isIdle (h : e.isIdle = true) (cycles : Nat) :
    workOff cycles e = e.answering 0 := by
  cases cycles with
  | zero => rfl
  | succ cycles => rw [workOff, if_pos h]

/-! ### A frame and a run -/

/-- **A run and a frame make the same steps**, if the emulator is not idle to begin with. -/
theorem map_steps_runOn (budget taken : Nat) (last : Option StepEvent) (h : e.isIdle = false) :
    (runOn budget taken last e).map StepEvent.steps =
      (workOff budget e).map fun done => ((taken + done : Nat) : Int) := by
  induction budget generalizing taken last e with
  | zero => rfl
  | succ budget ih =>
    rw [runOn, workOff, if_neg (by rw [h]; decide), Reply.map_andThen, Reply.map_andThen]
    cases hanswer : e.step.answer with
    | error err => rw [Reply.andThen_of_error hanswer, Reply.andThen_of_error hanswer]
    | ok event =>
      rw [Reply.andThen_of_ok hanswer, Reply.andThen_of_ok hanswer, Reply.map_map]
      -- the run looks at what the step has reported, the frame at the emulator after it
      have hidle := isIdle_step_iff h hanswer
      by_cases hevent : event.outcome = some .awaitingKey
      · rw [if_pos hevent, workOff_of_isIdle (hidle.mpr hevent)]
        rfl
      · have hbusy : e.step.emulator.isIdle = false := by
          rw [← Bool.not_eq_true, hidle]
          exact hevent
        rw [if_neg hevent, ih (taken + 1) (some event) hbusy]
        have hcount : (fun done => ((taken + 1 + done : Nat) : Int)) =
            fun done => ((taken + (done + 1) : Nat) : Int) := by
          funext done
          rw [Nat.add_assoc, Nat.add_comm 1]
        rw [hcount]

/-! ### Frames and counts -/

theorem step_recounted (e : Emulator) (frames : Nat) :
    (e.counting frames).step = e.step.recounted frames := by
  cases hhalt : e.halt with
  | some f =>
    rw [step_of_halted hhalt]
    exact step_of_halted (e := e.counting frames) hhalt
  | none =>
    cases hstep : e.machine.step with
    | error f =>
      rw [step_of_fault hhalt hstep]
      exact step_of_fault (e := e.counting frames) hhalt hstep
    | ok result =>
      rw [step_of_ok hhalt hstep]
      exact step_of_ok (e := e.counting frames) hhalt hstep

theorem workOff_recounted (cycles : Nat) (e : Emulator) (frames : Nat) :
    workOff cycles (e.counting frames) = (workOff cycles e).recounted frames := by
  induction cycles generalizing e with
  | zero => rfl
  | succ cycles ih =>
    have hidle : (e.counting frames).isIdle = e.isIdle := rfl
    rw [workOff, workOff, hidle]
    split
    · rfl
    · rw [step_recounted]
      refine Reply.recounted_andThen _ _ fun event e' => ?_
      rw [ih]
      rfl

theorem frame_eq (e : Emulator) :
    e.frame = (workOff e.config.cyclesPerFrame e.tick).recounted (e.frames + 1) :=
  workOff_recounted _ e.tick _

theorem frames_workOff (cycles : Nat) (e : Emulator) :
    (workOff cycles e).emulator.frames = e.frames := by
  have h := workOff_recounted cycles e e.frames
  exact congrArg (fun r => r.emulator.frames) h

theorem frame_of_isIdle (h : e.isIdle = true) :
    e.frame = (e.tick.counting (e.frames + 1)).answering 0 := by
  rw [frame_eq, workOff_of_isIdle (e := e.tick) h]
  rfl

theorem framesInTurn_of_isIdle (count : Nat) (h : e.isIdle = true) :
    framesInTurn count e =
      ((e.withMachine { e.machine with timers := Timers.tick^[count] e.machine.timers }).counting
        (e.frames + count)).answering 0 := by
  induction count generalizing e with
  | zero => rfl
  | succ count ih =>
    have hnext : (e.tick.counting (e.frames + 1)).isIdle = true := h
    rw [framesInTurn, frame_of_isIdle h, answering_andThen, ih hnext]
    have hframes : e.frames + 1 + count = e.frames + (count + 1) := by omega
    show (((e.withMachine { e.machine with
        timers := Timers.tick^[count] e.machine.timers.tick }).counting
      (e.frames + 1 + count)).answering (0 + 0) : Reply Error Nat) = _
    rw [hframes, ← Function.iterate_succ_apply]

/-- **A frame is a tick and a run**, unless the emulator is idle: it leaves the same emulator, with
one more frame counted, makes as many steps and logs the same lines, and it fails where the run
fails.  Frames of an idle emulator are ticks and nothing else. -/
theorem frame_agrees_with_run (e : Emulator) :
    (e.isIdle = false →
      (e.runFrames 1).emulator =
        { (e.tick.run e.config.cyclesPerFrame).emulator with
          frames := (e.tick.run e.config.cyclesPerFrame).emulator.frames + 1 } ∧
      (e.runFrames 1).answer.map (fun done : Nat => (done : Int)) =
        (e.tick.run e.config.cyclesPerFrame).answer.map StepEvent.steps ∧
      (e.runFrames 1).log = (e.tick.run e.config.cyclesPerFrame).log) ∧
    (e.isIdle = true → ∀ count : Nat,
      e.runFrames count =
        ({ e with
          machine := { e.machine with timers := Timers.tick^[count] e.machine.timers }
          frames := e.frames + count } : Emulator).answering 0) := by
  constructor
  · intro hidle
    have hone : e.runFrames 1 =
        (workOff e.config.cyclesPerFrame e.tick).recounted (e.frames + 1) := by
      rw [← frame_eq, ← framesInTurn_one]
      rfl
    have hrun : (e.tick.run e.config.cyclesPerFrame).map StepEvent.steps =
        (workOff e.config.cyclesPerFrame e.tick).map fun done : Nat => (done : Int) := by
      have htick : e.tick.isIdle = false := hidle
      rw [run, Int.toNat_natCast, map_steps_runOn _ _ _ htick]
      simp only [Nat.zero_add]
    have hemulator : (e.tick.run e.config.cyclesPerFrame).emulator =
        (workOff e.config.cyclesPerFrame e.tick).emulator :=
      congrArg Reply.emulator hrun
    have hanswer := congrArg Reply.answer hrun
    have hlog := congrArg Reply.log hrun
    rw [hone, hemulator, frames_workOff]
    exact ⟨rfl, hanswer.symm, hlog.symm⟩
  · intro hidle count
    rw [runFrames, Int.toNat_natCast]
    exact framesInTurn_of_isIdle count hidle

/-- An emulator that has just been started is not idle; one that waits lets its frames pass. -/
theorem frame_agrees_with_run_fresh :
    ((fresh {} 0).runFrames 1).log =
        ((fresh {} 0).tick.run (fresh {} 0).config.cyclesPerFrame).log ∧
      ((keyless {}).runFrames (3 : Nat)).emulator.frames = 3 := by
  obtain ⟨hbusy, -⟩ := frame_agrees_with_run (fresh {} 0)
  obtain ⟨-, hidle⟩ := frame_agrees_with_run (keyless {})
  obtain ⟨-, -, hlog⟩ := hbusy rfl
  exact ⟨hlog, congrArg (fun r => r.emulator.frames) (hidle (by decide) 3)⟩

end Emulator

end Chip8
