import Chip8.Proofs.Emulator.Drivers
import Chip8.Proofs.Emulator.Operation

/-!
# Halted emulators

A fault halts an emulator, and only a new start lets it go on.  Until then every step is refused, a
run is refused at its first step, and so is a frame, after its tick: no instruction waits in an
emulator that is halted, so a frame never gets around its first step.

What is left to the host is what it does by itself: it ticks the timers, updates keys and writes
memory.

* `Emulator.Stopped`: what holds of an emulator from its fault on.
* `tellsHalt_drivers`: whatever reports a fault has halted its emulator.
* `Emulator.Frozen`: what tells a later emulator from the halted one.
* `frozen_perform`: **one operation**, `frozen_after`: **any sequence of them.**
* `halted_stays_frozen`: **a halted emulator stays halted, refuses to go on, and changes by what the
  host does to it alone.**
-/

namespace Chip8

/-! ### What a host does by itself -/

namespace Operation

/-- Memory after what an operation writes to it on its own account. -/
def written : Operation → Memory → Memory
  | .load data _ _, memory => (memory.loadProgram data Memory.programStart).toOption.getD memory
  | .loadRom _ (some data) _ _, memory =>
    (memory.loadProgram data Memory.programStart).toOption.getD memory
  | .writeBytes address values, memory => (memory.writeBlock address values).toOption.getD memory
  | _, memory => memory

/-- The keypad after what an operation does to keys. -/
def keyed : Operation → Keypad → Keypad
  | .setKey index hold, pad => (pad.setKey index hold).toOption.getD pad
  | .pressKey key, pad => (key.resolve >>= fun index => pad.setKey index true).toOption.getD pad
  | .releaseKey key, pad => (key.resolve >>= fun index => pad.setKey index false).toOption.getD pad
  | .resetKeypad, pad => pad.reset
  | _, pad => pad

def isTick : Operation → Bool
  | .tick => true
  | _ => false

end Operation

open Operation

namespace Emulator

variable {e e' e'' : Emulator} {f : Fault} {operation : Operation}

/-! ### Faults that are reported -/

/-- A reply that tells of a fault leaves an emulator that is halted by it. -/
def TellsHalt {α : Type} (r : Reply Error α) : Prop :=
  ∀ f, r.answer = .error (.execution f) → r.emulator.halt = some f

theorem TellsHalt.andThen {α β : Type} {r : Reply Error α} {next : α → Emulator → Reply Error β}
    (hr : TellsHalt r) (hnext : ∀ a e, TellsHalt (next a e)) : TellsHalt (r.andThen next) := by
  intro f h
  cases hanswer : r.answer with
  | error err =>
    rw [Reply.andThen_of_error hanswer] at h ⊢
    cases h
    exact hr f hanswer
  | ok a =>
    rw [Reply.andThen_of_ok hanswer] at h ⊢
    exact hnext a r.emulator f h

theorem TellsHalt.answering {α : Type} (e : Emulator) (a : α) : TellsHalt (e.answering a) := by
  intro f h
  cases h

theorem TellsHalt.map {α β : Type} {r : Reply Error α} (hr : TellsHalt r) (g : α → β) :
    TellsHalt (r.map g) := by
  rw [map_eq_andThen]
  exact hr.andThen fun a e => .answering e (g a)

theorem tellsHalt_step (e : Emulator) : TellsHalt e.step := by
  intro f h
  obtain ⟨hhalt, hfault⟩ := step_answer_eq_execution_iff.mp h
  rw [step_of_fault hhalt hfault]

theorem tellsHalt_runOn (budget taken : Nat) (last : Option StepEvent) (e : Emulator) :
    TellsHalt (runOn budget taken last e) := by
  induction budget generalizing taken last e with
  | zero => exact .answering e _
  | succ budget ih =>
    refine (tellsHalt_step e).andThen fun event e' => ?_
    split
    · exact .answering e' _
    · exact ih _ _ e'

theorem tellsHalt_workOff (cycles : Nat) (e : Emulator) : TellsHalt (workOff cycles e) := by
  induction cycles generalizing e with
  | zero => exact .answering e _
  | succ cycles ih =>
    rw [workOff]
    split
    · exact .answering e _
    · exact (tellsHalt_step e).andThen fun event e' => (ih e').map _

theorem tellsHalt_framesInTurn (count : Nat) (e : Emulator) :
    TellsHalt (framesInTurn count e) := by
  induction count generalizing e with
  | zero => exact .answering e _
  | succ count ih => exact (tellsHalt_workOff _ _).andThen fun done e' => (ih e').map _

/-- **Whatever reports a fault has halted its emulator.** -/
theorem tellsHalt_drivers (e : Emulator) : TellsHalt e.step ∧
    (∀ budget, TellsHalt (e.run budget)) ∧ ∀ count, TellsHalt (e.runFrames count) :=
  ⟨tellsHalt_step e, fun budget => tellsHalt_runOn budget.toNat 0 none e,
    fun count => tellsHalt_framesInTurn count.toNat e⟩

/-! ### From the fault on -/

/-- What holds of an emulator from its fault on: no instruction waits, and the counter stays where
the fault has struck. -/
structure Stopped (f : Fault) (e : Emulator) : Prop where
  halt : e.halt = some f
  waiting : e.machine.processor.waiting = none
  address : f.address = some (e.machine.processor.pc.toNat : Int)

theorem steady_stopped : Steady fun e => ∀ f, e.halt = some f → Stopped f e where
  step := by
    intro e he f hhalt
    cases hold : e.halt with
    | some f' =>
      rw [step_of_halted hold] at hhalt ⊢
      exact he f hhalt
    | none =>
      cases hstep : e.machine.step with
      | ok result =>
        rw [step_of_ok hold hstep] at hhalt
        cases hold.symm.trans hhalt
      | error f' =>
        rw [step_of_fault hold hstep] at hhalt ⊢
        cases hhalt
        -- a step that resumes a wait cannot fault, so no wait outlives the fault
        obtain ⟨hwait, hreason⟩ := Machine.step_eq_error_iff.mp hstep
        refine ⟨rfl, hwait, ?_⟩
        rcases hreason with ⟨-, rfl⟩ | ⟨w, cause, -, -, rfl⟩
        · rfl
        · rfl
  tick := fun he f hhalt => { he f hhalt with }
  frames := fun _ he f hhalt => { he f hhalt with }
  carry := fun _ he f hhalt => { he f hhalt with }
  memory := fun _ he f hhalt => { he f hhalt with }
  update := fun _ _ he f hhalt => { he f hhalt with }
  refreshed := fun he f hhalt => { he f hhalt with }

theorem stopped_after (config : Config) (entropy : Int) (operations : List Operation)
    (hhalt : ((fresh config entropy).after operations).halt = some f) :
    Stopped f ((fresh config entropy).after operations) := by
  refine steady_stopped.after ?_ ?_ ?_ f hhalt
  · intro _ e _ _ f hhalt
    cases hhalt
  · intro _ e he f hhalt
    exact { he f hhalt with }
  · intro f hhalt
    cases hhalt

/-! ### Refusals -/

/-- The answer of a step that is refused because of a fault. -/
def refusal (f : Fault) {α : Type} : Except Error α := .error (.halted (some (.execution f)))

theorem run_of_halted (hhalt : e.halt = some f) {budget : Int} (h : 1 ≤ budget) :
    e.run budget = ⟨refusal f, e, []⟩ := by
  obtain ⟨n, hn⟩ : ∃ n, budget.toNat = n + 1 := ⟨budget.toNat - 1, by omega⟩
  rw [run, hn, runOn, step_of_halted hhalt]
  rfl

theorem runFrames_of_stopped (he : Stopped f e) {count : Int} (h : 1 ≤ count) :
    e.runFrames count = ⟨refusal f, e.tick.counting (e.frames + 1), []⟩ := by
  obtain ⟨n, hn⟩ : ∃ n, count.toNat = n + 1 := ⟨count.toNat - 1, by omega⟩
  obtain ⟨cycles, hcycles⟩ :=
    Nat.exists_eq_succ_of_ne_zero (Nat.ne_of_gt e.config.cyclesPerFrame_pos)
  have hidle : e.tick.isIdle = false := by
    rw [← Bool.not_eq_true, isIdle_eq_true_iff]
    exact fun hwait => hwait.1 he.waiting
  have hwork : workOff e.config.cyclesPerFrame e.tick = ⟨refusal f, e.tick, []⟩ := by
    rw [hcycles, workOff, if_neg (by rw [hidle]; decide), step_of_halted (e := e.tick) he.halt]
    rfl
  rw [runFrames, hn, framesInTurn, frame_eq, hwork]
  rfl

/-! ### What changes -/

/-- Between two emulators lie some operations, and nothing but what the host has done by itself
tells the second from the first: its writes, its keys, and the ticks that it has asked for or that
have begun a frame. -/
structure Frozen (f : Fault) (operations : List Operation) (e e' : Emulator) : Prop where
  halt : e'.halt = some f
  processor_eq : e'.machine.processor = e.machine.processor
  cells_eq : e'.machine.display.cells = e.machine.display.cells
  random_eq : e'.machine.random = e.machine.random
  steps_eq : e'.steps = e.steps
  memory_eq : e'.machine.memory =
    operations.foldl (fun memory operation => operation.written memory) e.machine.memory
  keypad_eq : e'.machine.keypad =
    operations.foldl (fun pad operation => operation.keyed pad) e.machine.keypad
  timers_eq : ∃ begun, e'.frames = e.frames + begun ∧
    e'.machine.timers = Timers.tick^[begun + operations.countP isTick] e.machine.timers

theorem Frozen.refl (hhalt : e.halt = some f) : Frozen f [] e e :=
  ⟨hhalt, rfl, rfl, rfl, rfl, rfl, rfl, 0, rfl, rfl⟩

theorem Frozen.append {before later : List Operation} (h : Frozen f before e e')
    (h' : Frozen f later e' e'') : Frozen f (before ++ later) e e'' := by
  obtain ⟨begun, hframes, htimers⟩ := h.timers_eq
  obtain ⟨begun', hframes', htimers'⟩ := h'.timers_eq
  refine ⟨h'.halt, h'.processor_eq.trans h.processor_eq, h'.cells_eq.trans h.cells_eq,
    h'.random_eq.trans h.random_eq, h'.steps_eq.trans h.steps_eq, ?_, ?_, begun' + begun, ?_, ?_⟩
  · rw [List.foldl_append, h'.memory_eq, h.memory_eq]
  · rw [List.foldl_append, h'.keypad_eq, h.keypad_eq]
  · omega
  · rw [htimers', htimers, ← Function.iterate_add_apply, List.countP_append]
    congr 1
    omega

theorem Frozen.stopped {operations : List Operation} (h : Frozen f operations e e')
    (he : Stopped f e) : Stopped f e' where
  halt := h.halt
  waiting := by rw [h.processor_eq]; exact he.waiting
  address := by rw [h.processor_eq]; exact he.address

theorem frozen_of_host (hhalt : e.halt = some f) (htick : operation.isTick = false)
    {memory : Memory} {keypad : Keypad} (hmemory : memory = operation.written e.machine.memory)
    (hkeypad : keypad = operation.keyed e.machine.keypad) :
    Frozen f [operation] e (e.withMachine { e.machine with memory, keypad }) := by
  refine ⟨hhalt, rfl, rfl, rfl, rfl, hmemory, hkeypad, 0, rfl, ?_⟩
  rw [List.countP_singleton, htick]
  rfl

theorem emulator_load (e : Emulator) (data : List UInt8) (entropy : Int) :
    (e.load data false entropy).emulator = e.withMachine { e.machine with
      memory := (e.machine.memory.loadProgram data Memory.programStart).toOption.getD
        e.machine.memory } := by
  by_cases hfits : data.length ≤ Memory.programCapacity
  · rw [load_of_le false entropy hfits, Memory.loadProgram_of_le _ hfits]
    rfl
  · rw [load_of_gt false entropy (by omega), Memory.loadProgram_of_gt _ (by omega)]
    rfl

theorem emulator_setKey (e : Emulator) (index : Int) (hold : Bool) :
    (e.changing .key (e.setKey index hold)).emulator = e.withMachine { e.machine with
      keypad := (e.machine.keypad.setKey index hold).toOption.getD e.machine.keypad } := by
  rw [setKey, Machine.setKey]
  cases e.machine.keypad.setKey index hold with
  | error err => rfl
  | ok keypad => rfl

theorem emulator_chooseKey (e : Emulator) (key : KeyChoice) (hold : Bool) :
    (e.changing .key (key.resolve >>= fun index => e.setKey index hold)).emulator =
      e.withMachine { e.machine with
        keypad := (key.resolve >>= fun index =>
          e.machine.keypad.setKey index hold).toOption.getD e.machine.keypad } := by
  cases key.resolve with
  | error err => rfl
  | ok index => exact emulator_setKey e index hold

theorem emulator_writeBytes (e : Emulator) (address : Int) (values : List Int) :
    (e.changing .memory (e.writeBytes address values)).emulator = e.withMachine { e.machine with
      memory := (e.machine.memory.writeBlock address values).toOption.getD e.machine.memory } := by
  rw [writeBytes, Machine.writeBlock]
  cases e.machine.memory.writeBlock address values with
  | error cause => rfl
  | ok memory => rfl

/-- Of the frames that are asked for only the first begins, and it ends with its tick. -/
theorem frozen_runFrames (he : Stopped f e) (count : Int) (operation : Operation)
    (htick : operation.isTick = false)
    (hwritten : ∀ memory, operation.written memory = memory)
    (hkeyed : ∀ pad, operation.keyed pad = pad) :
    Frozen f [operation] e (e.runFrames count).emulator := by
  by_cases hcount : 1 ≤ count
  · rw [runFrames_of_stopped he hcount]
    refine ⟨he.halt, rfl, rfl, rfl, rfl, (hwritten _).symm, (hkeyed _).symm, 1, rfl, ?_⟩
    rw [List.countP_singleton, htick]
    rfl
  · have hnone : e.runFrames count = e.answering 0 := by
      rw [runFrames, show count.toNat = 0 by omega]
      rfl
    rw [hnone]
    exact frozen_of_host he.halt htick (hwritten _).symm (hkeyed _).symm

/-- **One operation**, short of a new start, leaves a frozen emulator frozen. -/
theorem frozen_perform (he : Stopped f e) (hstart : operation.startsOver = false) :
    Frozen f [operation] e (e.perform operation).emulator := by
  -- most operations do nothing, and then it is enough that they are no tick, no write and no key
  have hquiet : ∀ {operation : Operation}, operation.isTick = false →
      operation.written e.machine.memory = e.machine.memory →
      operation.keyed e.machine.keypad = e.machine.keypad → Frozen f [operation] e e :=
    fun htick hwritten hkeyed => frozen_of_host he.halt htick hwritten.symm hkeyed.symm
  cases operation with
  | load data startOver entropy =>
    cases (hstart : startOver = false)
    show Frozen f _ e (e.load data false entropy).emulator
    rw [emulator_load]
    exact frozen_of_host he.halt rfl rfl rfl
  | loadRom path contents startOver entropy =>
    cases (hstart : startOver = false)
    cases contents with
    | none => exact hquiet rfl rfl rfl
    | some data =>
      show Frozen f _ e (e.load data false entropy).emulator
      rw [emulator_load]
      exact frozen_of_host he.halt rfl rfl rfl
  | reset => cases hstart
  | step =>
    show Frozen f _ e e.step.emulator
    rw [step_of_halted he.halt]
    exact hquiet rfl rfl rfl
  | run budget =>
    show Frozen f _ e (e.run budget).emulator
    by_cases hbudget : 1 ≤ budget
    · rw [run_of_halted he.halt hbudget]
      exact hquiet rfl rfl rfl
    · rw [run, show budget.toNat = 0 by omega]
      exact hquiet rfl rfl rfl
  | runFrames count => exact frozen_runFrames he count _ rfl (fun _ => rfl) fun _ => rfl
  | runFor elapsed =>
    show Frozen f _ e (e.runFor elapsed).emulator
    rw [runFor]
    split
    · exact hquiet rfl rfl rfl
    · next ticks clock _ =>
      -- the clock has moved on before the first frame, which is no part of what is frozen
      have hcarry : Stopped f { e with carry := clock.remainder } := { he with }
      have hframes :=
        frozen_runFrames hcarry ticks (.runFor elapsed) rfl (fun _ => rfl) fun _ => rfl
      exact { hframes with }
  | tick => exact ⟨he.halt, rfl, rfl, rfl, rfl, rfl, rfl, 0, rfl, rfl⟩
  | setKey index hold =>
    show Frozen f _ e (e.changing .key (e.setKey index hold)).emulator
    rw [emulator_setKey]
    exact frozen_of_host he.halt rfl rfl rfl
  | pressKey key =>
    show Frozen f _ e (e.changing .key (key.resolve >>= fun index => e.setKey index true)).emulator
    rw [emulator_chooseKey]
    exact frozen_of_host he.halt rfl rfl rfl
  | releaseKey key =>
    show Frozen f _ e (e.changing .key (key.resolve >>= fun index => e.setKey index false)).emulator
    rw [emulator_chooseKey]
    exact frozen_of_host he.halt rfl rfl rfl
  | writeBytes address values =>
    show Frozen f _ e (e.changing .memory (e.writeBytes address values)).emulator
    rw [emulator_writeBytes]
    exact frozen_of_host he.halt rfl rfl rfl
  | markRefreshed => exact ⟨he.halt, rfl, rfl, rfl, rfl, rfl, rfl, 0, rfl, rfl⟩
  | resetKeypad => exact frozen_of_host he.halt rfl rfl rfl

theorem frozen_after {operations : List Operation} (he : Stopped f e)
    (hstart : ∀ operation ∈ operations, operation.startsOver = false) :
    Frozen f operations e (e.after operations) := by
  induction operations generalizing e with
  | nil => exact .refl he.halt
  | cons operation operations ih =>
    have hfirst := frozen_perform he (hstart operation List.mem_cons_self)
    have hrest := ih (hfirst.stopped he)
      fun later hlater => hstart later (List.mem_cons_of_mem operation hlater)
    exact hfirst.append hrest

/-- **A halted emulator stays halted and frozen.**  Whatever the host does after a fault, short of a
new start, the fault and its place stay, and every step, run and frame is refused because of it;
memory, the keypad and the timers are what the host's own writes, keys and ticks have made of them,
and no other part of the machine changes. -/
theorem halted_stays_frozen (config : Config) (entropy : Int) (history later : List Operation)
    {f : Fault} {e e' : Emulator} (he : e = (fresh config entropy).after history)
    (hhalt : e.halt = some f) (he' : e' = e.after later)
    (hlater : ∀ operation ∈ later, operation.startsOver = false) :
    (∀ e₀ : Emulator, TellsHalt e₀.step ∧ (∀ budget, TellsHalt (e₀.run budget)) ∧
      ∀ count, TellsHalt (e₀.runFrames count)) ∧
    Frozen f later e e' ∧
    f.address = some (e'.machine.processor.pc.toNat : Int) ∧
    e'.step = ⟨.error (.halted (some (.execution f))), e', []⟩ ∧
    (∀ budget, 1 ≤ budget → e'.run budget = ⟨.error (.halted (some (.execution f))), e', []⟩) ∧
    (∀ count, 1 ≤ count →
      (e'.runFrames count).answer = .error (.halted (some (.execution f)))) := by
  subst he
  have hstopped := stopped_after config entropy history hhalt
  have hfrozen : Frozen f later ((fresh config entropy).after history) e' := by
    rw [he']
    exact frozen_after hstopped hlater
  have hstopped' : Stopped f e' := hfrozen.stopped hstopped
  refine ⟨tellsHalt_drivers, hfrozen, hstopped'.address, step_of_halted hstopped'.halt, ?_, ?_⟩
  · intro budget hbudget
    exact run_of_halted hstopped'.halt hbudget
  · intro count hcount
    rw [runFrames_of_stopped hstopped' hcount]
    rfl

theorem halt_after_step (hhalt : e.halt = none) (h : e.machine.step = .error f) :
    (e.after [.step]).halt = some f := by
  show e.step.emulator.halt = _
  rw [step_of_fault hhalt h]

theorem halt_of_return : ((fresh {} 0).after [.load (Word.bytes 0x00EE) true 0, .step]).halt =
    some ⟨.stackUnderflow, some 0x200, some 0x00EE⟩ := by
  have hload : ((fresh {} 0).perform (.load (Word.bytes 0x00EE) true 0)).emulator.halt = none ∧
      ((fresh {} 0).perform (.load (Word.bytes 0x00EE) true 0)).emulator.machine =
        Machine.atWord 0x00EE := by
    rw [perform, load_of_le true 0 (by decide)]
    exact ⟨rfl, rfl⟩
  have hstep : (Machine.atWord 0x00EE).step =
      .error ⟨.stackUnderflow, some 0x200, some 0x00EE⟩ :=
    Machine.step_of_refuses rfl (Machine.nextWord?_atWord 0x00EE) (.ret rfl)
  rw [← hload.2] at hstep
  rw [after_cons]
  exact halt_after_step hload.1 hstep

/-- A program that returns without a call halts for good, even if the host then writes another
word where it has stopped. -/
theorem halted_stays_frozen_atReturn :
    ((fresh {} 0).after [.load (Word.bytes 0x00EE) true 0, .step]).halt =
        some ⟨.stackUnderflow, some 0x200, some 0x00EE⟩ ∧
      ((((fresh {} 0).after [.load (Word.bytes 0x00EE) true 0, .step]).after
        [.setKey 3 true, .writeBytes 0x200 [0x60, 0x05], .runFrames 2]).runFrames 1).answer =
          .error (.halted (some (.execution ⟨.stackUnderflow, some 0x200, some 0x00EE⟩))) := by
  have hlater : ∀ operation ∈
      [Operation.setKey 3 true, .writeBytes 0x200 [0x60, 0x05], .runFrames 2],
      operation.startsOver = false := by
    simp [Operation.startsOver]
  obtain ⟨-, -, -, -, -, hframes⟩ := halted_stays_frozen {} 0 _ _ rfl halt_of_return rfl hlater
  exact ⟨halt_of_return, hframes 1 (by decide)⟩

end Emulator

end Chip8
