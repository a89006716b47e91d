import Chip8.Command.HeldKeys
import Chip8.Proofs.Emulator.Accounts
import Chip8.Proofs.Emulator.Invariant

/-!
# Held keys answer every wait

A runner that holds keys presses them anew before a frame that would be idle, so that a wait from
the frame before ends with the first step of the frame.  Nothing else can make a key ready at the
boundary of a frame: the keypad is not touched within one, and every step that begins a wait marks
the presses that there have been.

* `isKeyReady_of_step`: no key is ready after a step, whatever it was.
* `isKeyReady_frame`: nor is one after a frame.
* `presses_stroke`: keys that are pressed anew are all pressed, the last one last.
* `framesHolding_add`, `runHolding_succ`: frames with held keys are made one after the other.
* `AtBoundary`: what holds at the boundary of a frame, and `AtBoundary.frame`: **a frame keeps it.**
* `AtBoundary.answered`: **a wait at a boundary ends with the first step of the next frame.**
* `held_keys_answer_every_wait`: all of this together.
-/

namespace Chip8

/-! ### Keys that are held and pressed anew -/

namespace WaitEvent

/-- A key is held. -/
def hold (key : Key) : List WaitEvent := [.update key true]

/-- A key is let go and pressed again. -/
def stroke (key : Key) : List WaitEvent := [.update key false, .update key true]

/-- Keys that are held one after the other are held in the end, and no others but those before. -/
theorem heldAfter_flatMap {events : Key → List WaitEvent}
    (hevents : ∀ key held,
      (events key).foldl heldAfter held = fun k => if k = key then true else held k)
    (keys : List Key) (held : Key → Bool) (key : Key) :
    (keys.flatMap events).foldl heldAfter held key = true ↔ key ∈ keys ∨ held key = true := by
  induction keys generalizing held with
  | nil => simp
  | cons first keys ih =>
    rw [List.flatMap_cons, List.foldl_append, hevents, ih, List.mem_cons]
    by_cases hkey : key = first
    · simp [hkey]
    · simp [hkey]

theorem heldAfter_hold (key : Key) (held : Key → Bool) :
    (hold key).foldl heldAfter held = fun k => if k = key then true else held k := rfl

theorem heldAfter_stroke (key : Key) (held : Key → Bool) :
    (stroke key).foldl heldAfter held = fun k => if k = key then true else held k := by
  funext k
  show (if k = key then true else if k = key then false else held k) = _
  split
  · rfl
  · rfl

/-- **Keys that are pressed anew are all pressed**, whichever of them were held before. -/
theorem presses_stroke (held : Key → Bool) (keys : List Key) :
    presses held (keys.flatMap stroke) = keys := by
  induction keys generalizing held with
  | nil => rfl
  | cons key keys ih =>
    rw [List.flatMap_cons, stroke, List.cons_append, List.singleton_append, presses,
      if_neg (fun hpress => Bool.noConfusion hpress.1), presses, if_pos ⟨rfl, if_pos rfl⟩, ih]

end WaitEvent

namespace Machine

variable {m m' : Machine} {o : Outcome}

/-- **No key is ready after a step.**  A wait that it has begun has marked the presses so far, and
one that it has not ended has seen none. -/
theorem isKeyReady_of_step (h : m.step = .ok (o, m')) : m'.isKeyReady = false := by
  rcases step_eq_ok_iff.mp h with ⟨x, hx, hresume⟩ | ⟨hwait, w, hw, hrule⟩
  · rw [resume] at hresume
    split at hresume
    · cases hresume
      rfl
    · next hfresh =>
      cases hresume
      rw [isKeyReady, hfresh]
      exact Bool.and_false _
  · cases hwait' : m'.processor.waiting with
    | none =>
      rw [isKeyReady, isAwaitingKey, hwait']
      rfl
    | some x =>
      obtain ⟨-, -, rfl⟩ := hrule.wait hwait hwait'
      rw [isKeyReady, freshPress?_of_le (Nat.le_refl _)]
      exact Bool.and_false _

/-- A wait that is not ahead of the presses sees the last of the keys that are pressed anew. -/
theorem freshPress?_stroke (hmark : m.processor.pressMark ≤ m.keypad.presses) {keys : List Key}
    (hkeys : keys ≠ []) :
    ({ m with keypad := (keys.flatMap WaitEvent.stroke).foldl Keypad.hear m.keypad } :
      Machine).freshPress? = some (keys.getLast hkeys) := by
  obtain ⟨hcount, hlast⟩ := m.keypad.presses_and_lastPress_hear (keys.flatMap WaitEvent.stroke)
  rw [WaitEvent.presses_stroke] at hcount hlast
  have hlength : 0 < keys.length := List.length_pos_iff.mpr hkeys
  have hmore : m.processor.pressMark < m.keypad.presses + keys.length := by omega
  rw [freshPress?, hcount, hlast, if_pos hmore, List.getLast?_eq_some_getLast hkeys]
  rfl

end Machine

namespace Emulator

variable {e : Emulator} {keys : List Key} {moves : List Move} {done made : Nat}

/-- An emulator whose keypad has heard some events. -/
def hearing (e : Emulator) (events : List WaitEvent) : Emulator :=
  e.withMachine { e.machine with keypad := events.foldl Keypad.hear e.machine.keypad }

theorem holdAll_eq_hearing (keys : List Key) (e : Emulator) :
    e.holdAll keys = e.hearing (keys.flatMap WaitEvent.hold) := by
  induction keys generalizing e with
  | nil => rfl
  | cons key keys ih => exact ih _

theorem pressAnew_eq_hearing (keys : List Key) (e : Emulator) :
    e.pressAnew keys = e.hearing (keys.flatMap WaitEvent.stroke) := by
  induction keys generalizing e with
  | nil => rfl
  | cons key keys ih => exact ih _

namespace Steady

variable {P : Emulator → Prop}

theorem holdKey (hP : Steady P) (hold : Bool) (key : Key) (he : P e) :
    P (Emulator.holdKey hold e key) := hP.update key hold he

theorem holdAll (hP : Steady P) (keys : List Key) (he : P e) : P (e.holdAll keys) := by
  induction keys generalizing e with
  | nil => exact he
  | cons key keys ih => exact ih (hP.holdKey true key he)

theorem pressAnew (hP : Steady P) (keys : List Key) (he : P e) : P (e.pressAnew keys) := by
  induction keys generalizing e with
  | nil => exact he
  | cons key keys ih => exact ih (hP.holdKey true key (hP.holdKey false key he))

end Steady

/-! ### Frames -/

/-- Nothing within a frame touches the keypad. -/
theorem keypad_of_isDriven (h : ∀ move ∈ moves, IsDriven move) :
    (e.course moves).machine.keypad = e.machine.keypad := by
  induction moves generalizing e with
  | nil => rfl
  | cons move moves ih =>
    rw [course_cons, ih fun later hlater => h later (List.mem_cons_of_mem move hlater)]
    cases h move List.mem_cons_self with
    | step =>
      rw [Emulator.move, machine_step]
      split
      · rfl
      · exact e.machine.keypad_happen .step
    | tick | beginFrame | carry => rfl

theorem isKeyReady_step {event : StepEvent} (h : e.step.answer = .ok event) :
    e.step.emulator.machine.isKeyReady = false := by
  obtain ⟨hhalt, o, m', hstep, -⟩ := step_answer_eq_ok_iff.mp h
  rw [step_of_ok hhalt hstep]
  exact Machine.isKeyReady_of_step hstep

theorem isKeyReady_of_isIdle (h : e.isIdle = true) : e.machine.isKeyReady = false := by
  rw [isIdle, Bool.and_eq_true] at h
  exact (Bool.not_eq_true' _).mp h.2

theorem isKeyReady_workOff {cycles : Nat} (h : (workOff cycles e).answer = .ok done)
    (hready : e.machine.isKeyReady = false ∨ 0 < cycles) :
    (workOff cycles e).emulator.machine.isKeyReady = false := by
  induction cycles generalizing e done with
  | zero => exact hready.resolve_right (Nat.lt_irrefl 0)
  | succ cycles ih =>
    rw [workOff] at h ⊢
    split at h
    · next hidle =>
      rw [if_pos hidle]
      exact isKeyReady_of_isIdle hidle
    · next hidle =>
      obtain ⟨event, hanswer, hrest⟩ := Reply.answer_andThen_eq_ok_iff.mp h
      obtain ⟨later, hlater, -⟩ := Reply.answer_map_eq_ok_iff.mp hrest
      rw [if_neg hidle, Reply.andThen_of_ok hanswer]
      exact ih hlater (.inl (isKeyReady_step hanswer))

/-- **No key is ready after a frame**, not even if one was before. -/
theorem isKeyReady_frame (h : e.frame.answer = .ok done) :
    e.frame.emulator.machine.isKeyReady = false :=
  isKeyReady_workOff h (.inr e.config.cyclesPerFrame_pos)

theorem runFrames_one (e : Emulator) : e.runFrames 1 = e.frame := framesInTurn_one e

theorem steps_frame (h : e.frame.answer = .ok done) : e.frame.emulator.steps = e.steps + done := by
  rw [← runFrames_one] at h ⊢
  exact (haveMade_of_ok (e := e) h).steps_eq

/-! ### Frames with held keys -/

/-- An emulator with keys pressed anew, if the next frame would be idle. -/
def readied (keys : List Key) (e : Emulator) : Emulator :=
  if e.isIdle then e.pressAnew keys else e

theorem framesHolding_succ (keys : List Key) (count : Nat) (e : Emulator) :
    framesHolding keys (count + 1) e = (e.readied keys).frame.andThen fun done e' =>
      (framesHolding keys count e').map (done + ·) := by
  rw [framesHolding, runFrames_one, readied]
  cases keys with
  | nil =>
    rw [List.isEmpty_nil, Bool.not_true, Bool.false_and, if_neg Bool.false_ne_true]
    split
    · rfl
    · rfl
  | cons key keys => rw [List.isEmpty_cons, Bool.not_false, Bool.true_and]

theorem framesHolding_add (keys : List Key) (a b : Nat) (e : Emulator) :
    framesHolding keys (a + b) e = (framesHolding keys a e).andThen fun done e' =>
      (framesHolding keys b e').map (done + ·) := by
  induction a generalizing e with
  | zero =>
    rw [framesHolding, answering_andThen, Nat.zero_add]
    simp only [Nat.zero_add]
    exact (Reply.map_id _).symm
  | succ a ih =>
    rw [show a + 1 + b = a + b + 1 by omega, framesHolding_succ, framesHolding_succ,
      Reply.andThen_assoc]
    congr 1
    funext done e'
    rw [ih, Reply.map_andThen, Reply.andThen_map]
    congr 1
    funext done' e''
    rw [Reply.map_map]
    congr 1
    funext n
    omega

theorem framesHolding_one (keys : List Key) (e : Emulator) :
    framesHolding keys 1 e = (e.readied keys).frame := by
  have hlast : (fun done (e' : Emulator) => (framesHolding keys 0 e').map (done + ·)) =
      fun done e' => e'.answering done := rfl
  rw [framesHolding_succ, hlast, ← map_eq_andThen, Reply.map_id]

/-- **Frames with held keys end with one more frame**, in which the keys have been pressed anew if
it would have been idle. -/
theorem runHolding_succ (e : Emulator) (keys : List Key) (count : Nat) :
    e.runHolding keys (count + 1) = (e.runHolding keys count).andThen fun done e' =>
      (e'.readied keys).frame.map (done + ·) := by
  rw [runHolding, framesHolding_add]
  simp only [framesHolding_one]
  rfl

/-- Frames that answer have answered at all boundaries on the way. -/
theorem runHolding_of_le {count n : Nat} (hn : n ≤ count)
    (h : (e.runHolding keys count).answer = .ok done) :
    ∃ done', (e.runHolding keys n).answer = .ok done' := by
  obtain ⟨rest, rfl⟩ := Nat.exists_eq_add_of_le hn
  rw [runHolding, framesHolding_add] at h
  obtain ⟨done', hdone', -⟩ := Reply.answer_andThen_eq_ok_iff.mp h
  exact ⟨done', hdone'⟩

theorem runHolding_nil (e : Emulator) (count : Int) :
    e.runHolding [] count.toNat = e.runFrames count := by
  rw [runFrames]
  show framesHolding [] count.toNat e = _
  generalize count.toNat = n
  induction n generalizing e with
  | zero => rfl
  | succ n ih =>
    have hsame : e.readied [] = e := ite_self e
    rw [framesHolding_succ, framesInTurn, hsame]
    congr 1
    funext done e'
    rw [ih]

/-! ### Boundaries -/

/-- An emulator into which a program has just been loaded: a new one, or one that has started
over. -/
inductive FreshlyLoaded : Emulator → Prop
  | new (config : Config) (entropy again : Int) {data : List UInt8}
      (hfits : data.length ≤ Memory.programCapacity) (startOver : Bool) :
      FreshlyLoaded ((fresh config entropy).load data startOver again).emulator
  | startedOver (e : Emulator) (again : Int) {data : List UInt8}
      (hfits : data.length ≤ Memory.programCapacity) :
      FreshlyLoaded (e.load data true again).emulator

/-- What holds at the boundary of a frame: the keys are held and no others, none of them is ready,
and so many steps have been made since the start. -/
structure AtBoundary (keys : List Key) (e : Emulator) (made : Nat) : Prop where
  coherent : e.Coherent
  held_iff : ∀ key, e.machine.keypad.isHeld key = true ↔ key ∈ keys
  not_ready : e.machine.isKeyReady = false
  steps_eq : e.steps = made

theorem FreshlyLoaded.exists_started (h : FreshlyLoaded e) : ∃ start memory,
    e = Emulator.withMachine start { start.machine with memory } ∧ start.Coherent ∧
      start.machine.processor.waiting = none ∧ start.machine.keypad = Keypad.released ∧
      start.steps = 0 := by
  cases h with
  | new config entropy again hfits startOver =>
    rw [load_of_le startOver again hfits]
    refine ⟨_, _, rfl, ?_⟩
    cases startOver with
    | true => exact ⟨Coherent.reset _ again, rfl, rfl, rfl⟩
    | false => exact ⟨Coherent.fresh config entropy, rfl, rfl, rfl⟩
  | startedOver start again hfits =>
    rw [load_of_le true again hfits]
    exact ⟨_, _, rfl, Coherent.reset start again, rfl, rfl, rfl⟩

theorem FreshlyLoaded.atBoundary (h : FreshlyLoaded e) (keys : List Key) :
    AtBoundary keys (e.holdAll keys) 0 := by
  obtain ⟨start, memory, rfl, hcoherent, hwait, hkeypad, hsteps⟩ := h.exists_started
  have hloaded := Coherent.steady.holdAll keys (Coherent.steady.memory memory hcoherent)
  rw [holdAll_eq_hearing] at hloaded ⊢
  refine ⟨hloaded, fun key => ?_, ?_, hsteps⟩
  · have hreleased : Keypad.released.isHeld key = false := by
      rw [Keypad.isHeld, Keypad.released]
      exact Vector.getElem_replicate _
    rw [hearing, withMachine, Keypad.isHeld_foldl_hear,
      WaitEvent.heldAfter_flatMap WaitEvent.heldAfter_hold]
    show key ∈ keys ∨ start.machine.keypad.isHeld key = true ↔ key ∈ keys
    rw [hkeypad, hreleased]
    simp
  · show (start.machine.processor.waiting.isSome && _) = false
    rw [hwait]
    rfl

namespace AtBoundary

theorem readied (h : AtBoundary keys e made) :
    (e.readied keys).Coherent ∧ (e.readied keys).steps = made ∧
      ∀ key, (e.readied keys).machine.keypad.isHeld key = true ↔ key ∈ keys := by
  rw [Emulator.readied]
  split
  · refine ⟨Coherent.steady.pressAnew keys h.coherent, ?_, fun key => ?_⟩
    · rw [pressAnew_eq_hearing]
      exact h.steps_eq
    · rw [pressAnew_eq_hearing, hearing, withMachine, Keypad.isHeld_foldl_hear,
        WaitEvent.heldAfter_flatMap WaitEvent.heldAfter_stroke, h.held_iff, or_self]
  · exact ⟨h.coherent, h.steps_eq, h.held_iff⟩

/-- **The next frame leads to a boundary again.** -/
theorem frame (h : AtBoundary keys e made) (hframe : (e.readied keys).frame.answer = .ok done) :
    AtBoundary keys (e.readied keys).frame.emulator (made + done) := by
  obtain ⟨hcoherent, hsteps, hheld⟩ := h.readied
  refine ⟨Coherent.steady.frame hcoherent, fun key => ?_, isKeyReady_frame hframe, ?_⟩
  · rw [emulator_frame, keypad_of_isDriven (isDriven_frameMoves _), hheld]
  · rw [steps_frame hframe, hsteps]

/-- A wait at a boundary is idle, because no key is ready. -/
theorem isIdle (h : AtBoundary keys e made) {x : Register}
    (hwait : e.machine.processor.waiting = some x) : e.isIdle = true := by
  rw [Emulator.isIdle, h.not_ready, Machine.isAwaitingKey, hwait]
  rfl

end AtBoundary

theorem atBoundary_runHolding (he : FreshlyLoaded e) {count : Nat}
    (h : (e.runHolding keys count).answer = .ok made) :
    AtBoundary keys (e.runHolding keys count).emulator made := by
  induction count generalizing made with
  | zero =>
    cases h
    exact he.atBoundary keys
  | succ count ih =>
    rw [runHolding_succ] at h ⊢
    obtain ⟨before, hbefore, hrest⟩ := Reply.answer_andThen_eq_ok_iff.mp h
    obtain ⟨done, hdone, rfl⟩ := Reply.answer_map_eq_ok_iff.mp hrest
    rw [Reply.andThen_of_ok hbefore]
    exact (ih hbefore).frame hdone

/-! ### Waits -/

/-- The first step of the next frame ends a wait for a register: it receives a key and stores it. -/
structure AnswersAtOnce (e : Emulator) (x : Register) (key : Key) : Prop where
  moves_eq : ∃ rest, e.frameMoves = .tick :: .beginFrame :: .step :: rest
  received : ∃ event, (e.course [.tick, .beginFrame]).step.answer = .ok event ∧
    event.outcome = some .keyReceived
  stored : (e.course [.tick, .beginFrame, .step]).machine.reg x = UInt8.ofNat key
  ended : (e.course [.tick, .beginFrame, .step]).machine.processor.waiting = none

theorem answersAtOnce_of_freshPress? {x : Register} {key : Key} (hhalt : e.halt = none)
    (hwait : e.machine.processor.waiting = some x) (hfresh : e.machine.freshPress? = some key) :
    e.AnswersAtOnce x key := by
  have hmachine : (e.course [.tick, .beginFrame]).machine.step =
      .ok (.keyReceived, e.machine.tick.endWait x key) :=
    Machine.step_of_freshPress?_some (m := e.machine.tick) hwait hfresh
  have hstep := step_of_ok (e := e.course [.tick, .beginFrame]) hhalt hmachine
  have hbusy : ¬ (e.course [.tick, .beginFrame]).isIdle = true := by
    rw [isIdle_eq_true_iff]
    rintro ⟨-, hnone⟩
    cases hfresh.symm.trans hnone
  have hafter : (e.course [.tick, .beginFrame, .step]).machine =
      e.machine.tick.endWait x key := congrArg (fun r => r.emulator.machine) hstep
  obtain ⟨cycles, hcycles⟩ :=
    Nat.exists_eq_succ_of_ne_zero (Nat.ne_of_gt e.config.cyclesPerFrame_pos)
  refine ⟨?_, ⟨_, congrArg Reply.answer hstep, rfl⟩, ?_, ?_⟩
  · rw [frameMoves, hcycles, workMoves, if_neg hbusy]
    exact ⟨_, rfl⟩
  · rw [hafter]
    exact (Registers.get_set _ x x _).trans (if_pos rfl)
  · rw [hafter]
    rfl

/-- **A wait at a boundary is answered by the first step of the next frame**, with the last of the
keys. -/
theorem AtBoundary.answered (h : AtBoundary keys e made) (hkeys : keys ≠ []) {x : Register}
    (hwait : e.machine.processor.waiting = some x) :
    e.readied keys = e.pressAnew keys ∧ (e.readied keys).AnswersAtOnce x (keys.getLast hkeys) := by
  have hready : e.readied keys = e.pressAnew keys := if_pos (h.isIdle hwait)
  have hhalt : e.halt = none := by
    by_contra hhalt
    cases hwait.symm.trans (h.coherent.halted hhalt)
  have hmark := (h.coherent.machine.wait x hwait).1
  refine ⟨hready, ?_⟩
  rw [hready, pressAnew_eq_hearing]
  exact answersAtOnce_of_freshPress? hhalt hwait (Machine.freshPress?_stroke hmark hkeys)

/-- **Held keys answer every wait.**  As long as frames with held keys do not fail, no key is ready
at the boundary of a frame.  If an instruction waits there, the keys are pressed anew, and the first
step of the next frame receives the last of them.  Without any key, the frames are those that the
emulator runs by itself. -/
theorem held_keys_answer_every_wait :
    (∀ (e : Emulator) (keys : List Key) (hkeys : keys ≠ []) (count made : Nat),
      FreshlyLoaded e → (e.runHolding keys count).answer = .ok made →
      (∀ n ≤ count, ∃ made', (e.runHolding keys n).answer = .ok made') ∧
      (e.runHolding keys count).emulator.steps = made ∧
      (∀ key, (e.runHolding keys count).emulator.machine.keypad.isHeld key = true ↔
        key ∈ keys) ∧
      (e.runHolding keys count).emulator.machine.isKeyReady = false ∧
      (e.runHolding keys (count + 1) = (e.runHolding keys count).andThen fun done e' =>
        (e'.readied keys).frame.map (done + ·)) ∧
      ∀ x, (e.runHolding keys count).emulator.machine.processor.waiting = some x →
        (e.runHolding keys count).emulator.readied keys =
            (e.runHolding keys count).emulator.pressAnew keys ∧
          ((e.runHolding keys count).emulator.readied keys).AnswersAtOnce x
            (keys.getLast hkeys)) ∧
    ∀ (e : Emulator) (count : Int), e.runHolding [] count.toNat = e.runFrames count := by
  refine ⟨?_, runHolding_nil⟩
  intro e keys hkeys count made he hmade
  have hboundary := atBoundary_runHolding he hmade
  exact ⟨fun n hn => runHolding_of_le hn hmade, hboundary.steps_eq, hboundary.held_iff,
    hboundary.not_ready, runHolding_succ e keys count, fun x hwait =>
      hboundary.answered hkeys hwait⟩

theorem runHolding_one (hwait : e.machine.processor.waiting = none) (keys : List Key) :
    e.runHolding keys 1 = (e.holdAll keys).frame := by
  rw [runHolding, framesHolding_one, readied, if_neg]
  rw [isIdle_eq_true_iff, holdAll_eq_hearing]
  exact fun hidle => hidle.1 hwait

theorem emulator_load_bytes {config : Config} (hseed : config.seed = some 0) (entropy : Int)
    (w : UInt16) : ((fresh config entropy).load (Word.bytes w) false).emulator =
      (fresh config entropy).withMachine (.atWord w) := by
  have hfits : (Word.bytes w).length ≤ Memory.programCapacity := by
    show 2 ≤ 3584
    decide
  rw [load_of_le false 0 hfits, startedOver, if_neg Bool.false_ne_true, fresh, hseed]
  rfl

/-- Of the keys `5` and `7` the second one is received in the second frame of the program `F30A`. -/
theorem held_keys_answer_every_wait_listening :
    ∃ e, e = ((fresh { seed := some 0 } 0).load (Word.bytes 0xF30A) false).emulator ∧
      (e.runHolding [5, 7] 1).answer = .ok 1 ∧
      (e.runHolding [5, 7] 1).emulator.machine.isKeyReady = false ∧
      ((e.runHolding [5, 7] 1).emulator.pressAnew [5, 7]).AnswersAtOnce 3 7 := by
  refine ⟨_, rfl, ?_⟩
  have hloaded : ((fresh { seed := some 0 } 0).load (Word.bytes 0xF30A) false).emulator = _ :=
    emulator_load_bytes rfl 0 0xF30A
  have hfresh : FreshlyLoaded
      ((fresh { seed := some 0 } 0).load (Word.bytes 0xF30A) false).emulator :=
    .new { seed := some 0 } 0 0 (by decide) false
  generalize ((fresh { seed := some 0 } 0).load (Word.bytes 0xF30A) false).emulator = listening
    at hloaded hfresh ⊢
  have hfirst : listening.runHolding [5, 7] 1 = (listening.holdAll [5, 7]).frame :=
    runHolding_one (by rw [hloaded]; rfl) [5, 7]
  obtain ⟨hone, hmachine⟩ := frame_of_awaitKey (e := listening.holdAll [5, 7]) (w := 0xF30A)
    (by rw [hloaded]; rfl) (by rw [hloaded]; rfl)
    (by rw [hloaded]; exact Machine.nextWord?_atWord 0xF30A) (by decide) (by decide)
  rw [← hfirst] at hone hmachine
  obtain ⟨hheld, -⟩ := held_keys_answer_every_wait
  obtain ⟨-, -, -, hready, -, hanswers⟩ :=
    hheld listening [5, 7] (List.cons_ne_nil _ _) 1 1 hfresh hone
  obtain ⟨hanew, hanswers⟩ := hanswers 3 (by rw [hmachine]; rfl)
  rw [hanew] at hanswers
  exact ⟨hone, hready, hanswers⟩

end Emulator

end Chip8
