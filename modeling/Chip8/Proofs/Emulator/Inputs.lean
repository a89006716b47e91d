import Chip8.Proofs.Emulator.Calls
import Chip8.Proofs.Execution.Footprint
import Chip8.Proofs.Execution.KeyWait

/-!
# Inputs that a program does not read

Three parts of a machine come to a program from outside: the random bytes, the keys, and the timers
that run down by themselves.  Each of them is read by a few words only.  While a program carries out
none of those words, the input may be anything at the start and may change in any way between two
steps, and all else that there is to see of the run stays the same.

The proof runs two emulators side by side.  What a word does depends on the processor, on memory
and on the display alone, unless it reads an input; and the words themselves come from memory.  So
as long as the two agree but for the input, they carry out the same word next, even if the program
writes over itself, and if the word does not read the input, they agree again afterwards.

* `Input.IsReadBy`: the words that read an input.
* `Machine.AgreesBut`: two machines agree in all but an input.
* `Executes.agreesBut`, `AgreesBut.step_ok`, `AgreesBut.step_error`: **they still do after an
  instruction that does not read it, and after a step.**
* `Emulator.sights`: what there is to see after every step of a run.
* `Emulator.inputs_do_not_interfere`: **an input that is not read does not change what there is to
  see.**
-/

namespace Chip8

/-- What comes to a program from outside. -/
inductive Input
  | random
  | keys
  | timers
  deriving DecidableEq, Repr

namespace Input

/-- The words that read an input: `Cxkk` draws random bytes, `Ex9E`, `ExA1` and `Fx0A` look at the
keys, and `Fx07` looks at a timer. -/
def IsReadBy (w : UInt16) : Input → Prop
  | random => w.toNat / 4096 = 0xC
  | keys =>
    w.toNat / 4096 = 0xE ∧ (w.toNat % 256 = 0x9E ∨ w.toNat % 256 = 0xA1) ∨
      w.toNat / 4096 = 0xF ∧ w.toNat % 256 = 0x0A
  | timers => w.toNat / 4096 = 0xF ∧ w.toNat % 256 = 0x07

/-- Tells the events that leave an input alone, steps among them, from those that change nothing but
the input. -/
def spares : Input → WaitEvent → Bool
  | keys, .update _ _ => false
  | timers, .tick => false
  | _, _ => true

variable {p q : Input} {w : UInt16}

theorem ne_of_isReadBy (hp : ¬ p.IsReadBy w) (hq : q.IsReadBy w) : p ≠ q := by
  rintro rfl
  exact hp hq

theorem ne_step_of_spares {event : WaitEvent} (h : p.spares event = false) : event ≠ .step := by
  rintro rfl
  cases p with
  | random | keys | timers => cases h

end Input

namespace Machine

variable {p : Input} {m m' n : Machine} {i : Instruction} {o : Outcome} {cause : Cause} {f : Fault}
  {w : UInt16} {event : WaitEvent}

/-! ### Machines that agree but for an input -/

/-- Two machines agree in everything but an input. -/
structure AgreesBut (p : Input) (m n : Machine) : Prop where
  processor : n.processor = m.processor
  memory : n.memory = m.memory
  display : n.display = m.display
  random : p ≠ .random → n.random = m.random
  keypad : p ≠ .keys → n.keypad = m.keypad
  timers : p ≠ .timers → n.timers = m.timers

theorem AgreesBut.refl (p : Input) (m : Machine) : AgreesBut p m m :=
  ⟨rfl, rfl, rfl, fun _ => rfl, fun _ => rfl, fun _ => rfl⟩

theorem AgreesBut.symm (h : AgreesBut p m n) : AgreesBut p n m where
  processor := h.processor.symm
  memory := h.memory.symm
  display := h.display.symm
  random := fun hp => (h.random hp).symm
  keypad := fun hp => (h.keypad hp).symm
  timers := fun hp => (h.timers hp).symm

theorem AgreesBut.nextWord? (h : AgreesBut p m n) : n.nextWord? = m.nextWord? := by
  rw [Machine.nextWord?, h.memory, h.processor, Machine.nextWord?]

theorem AgreesBut.advance (h : AgreesBut p m n) : AgreesBut p m.advance n.advance :=
  { h with processor := by rw [Machine.advance, setCounter, h.processor]; rfl }

theorem AgreesBut.reg (h : AgreesBut p m n) (x : Register) : n.reg x = m.reg x := by
  rw [Machine.reg, h.processor, Machine.reg]

theorem AgreesBut.keyIn (h : AgreesBut p m n) (x : Register) : n.keyIn x = m.keyIn x :=
  Fin.ext (congrArg (fun byte : UInt8 => byte.toNat % 16) (h.reg x))

/-- A condition that does not look at the input holds on both machines or on neither. -/
theorem AgreesBut.holds (h : AgreesBut p m n) {c : Condition}
    (hw : (Instruction.skip c).HasDigits w) (hunread : ¬ p.IsReadBy w) :
    n.holds c = m.holds c := by
  cases c with
  | equalByte x byte | unequalByte x byte => rw [Machine.holds, h.reg, Machine.holds]
  | equalRegister x y | unequalRegister x y => rw [Machine.holds, h.reg, h.reg, Machine.holds]
  | keyHeld x =>
    have hp : p ≠ .keys := Input.ne_of_isReadBy hunread (.inl ⟨hw.1, .inl hw.2.1⟩)
    rw [Machine.holds, h.keyIn, h.keypad hp, Machine.holds]
  | keyFree x =>
    have hp : p ≠ .keys := Input.ne_of_isReadBy hunread (.inl ⟨hw.1, .inr hw.2.1⟩)
    rw [Machine.holds, h.keyIn, h.keypad hp, Machine.holds]

/-- **An instruction that does not read the input is carried out on both machines alike.** -/
theorem Executes.agreesBut (h : Executes m i o m') (hw : i.HasDigits w) (hunread : ¬ p.IsReadBy w)
    (hn : AgreesBut p m n) : ∃ n', Executes n i o n' ∧ AgreesBut p m' n' := by
  have hholds : ∀ c, i = .skip c → n.holds c = m.holds c := by
    rintro c rfl
    exact hn.holds hw hunread
  obtain ⟨processor, memory, display, keypad, timers, random⟩ := n
  obtain ⟨hprocessor, hmemory, hdisplay, hrandom, hkeypad, htimers⟩ := hn
  -- with what they share in common, a rule for the one machine is a rule for the other
  cases hprocessor
  cases hmemory
  cases hdisplay
  cases h with
  | ret hentries => exact ⟨_, .ret hentries, rfl, rfl, rfl, hrandom, hkeypad, htimers⟩
  | call target hroom => exact ⟨_, .call target hroom, rfl, rfl, rfl, hrandom, hkeypad, htimers⟩
  | skipTaken h =>
    exact ⟨_, .skipTaken ((hholds _ rfl).trans h), rfl, rfl, rfl, hrandom, hkeypad, htimers⟩
  | skipPassed h =>
    exact ⟨_, .skipPassed ((hholds _ rfl).trans h), rfl, rfl, rfl, hrandom, hkeypad, htimers⟩
  | combine happly =>
    exact ⟨_, .combine happly, rfl, rfl, rfl, hrandom, hkeypad, htimers⟩
  | combineFlag happly =>
    exact ⟨_, .combineFlag happly, rfl, rfl, rfl, hrandom, hkeypad, htimers⟩
  | draw x y rows hrange hsprite hdrawn =>
    exact ⟨_, .draw x y rows hrange hsprite hdrawn, rfl, rfl, rfl, hrandom, hkeypad, htimers⟩
  | decimal x hrange =>
    exact ⟨_, .decimal x hrange, rfl, rfl, rfl, hrandom, hkeypad, htimers⟩
  | store x hrange =>
    exact ⟨_, .store x hrange, rfl, rfl, rfl, hrandom, hkeypad, htimers⟩
  | restore x hrange =>
    exact ⟨_, .restore x hrange, rfl, rfl, rfl, hrandom, hkeypad, htimers⟩
  -- these three read an input, which then is not the one that the machines differ in
  | random x mask =>
    have hp : p ≠ .random := Input.ne_of_isReadBy hunread hw.1
    cases hrandom hp
    exact ⟨_, .random x mask, rfl, rfl, rfl, fun _ => rfl, hkeypad, htimers⟩
  | readDelay x =>
    have hp : p ≠ .timers := Input.ne_of_isReadBy hunread ⟨hw.1, hw.2.1⟩
    cases htimers hp
    exact ⟨_, .readDelay x, rfl, rfl, rfl, hrandom, hkeypad, fun _ => rfl⟩
  | awaitKey x =>
    have hp : p ≠ .keys := Input.ne_of_isReadBy hunread (.inr ⟨hw.1, hw.2.1⟩)
    cases hkeypad hp
    exact ⟨_, .awaitKey x, rfl, rfl, rfl, hrandom, fun _ => rfl, htimers⟩
  -- a timer that is set takes the same value on both sides, whatever it was
  | setDelay x =>
    refine ⟨_, .setDelay x, rfl, rfl, rfl, hrandom, hkeypad, fun hp => ?_⟩
    cases htimers hp
    rfl
  | setSound x =>
    refine ⟨_, .setSound x, rfl, rfl, rfl, hrandom, hkeypad, fun hp => ?_⟩
    cases htimers hp
    rfl
  | _ =>
    refine ⟨_, by constructor, ?_⟩
    exact ⟨rfl, rfl, rfl, hrandom, hkeypad, htimers⟩

/-- Whether an instruction is refused is up to the processor alone. -/
theorem Refuses.congr (h : Refuses m i cause) (hn : n.processor = m.processor) :
    Refuses n i cause := by
  cases h with
  | ret hentries => exact .ret (hn ▸ hentries)
  | call target hdepth => exact hn ▸ .call target (hn ▸ hdepth)
  | block hlength hrange => exact hn ▸ .block hlength (hn ▸ hrange)

/-! ### Steps side by side -/

/-- The word that the next step carries out: none while an instruction waits. -/
def dueWord? (m : Machine) : Option UInt16 :=
  if m.isAwaitingKey then none else m.nextWord?

theorem dueWord?_of_not_waiting (hwait : m.processor.waiting = none) :
    m.dueWord? = m.nextWord? := by
  rw [dueWord?, isAwaitingKey, hwait]
  rfl

theorem dueWord?_of_waiting {x : Register} (hwait : m.processor.waiting = some x) :
    m.dueWord? = none := by
  rw [dueWord?, isAwaitingKey, hwait]
  rfl

theorem dueWord?_eq_some_iff :
    m.dueWord? = some w ↔ m.processor.waiting = none ∧ m.nextWord? = some w := by
  cases hwait : m.processor.waiting with
  | some x => simp [dueWord?_of_waiting hwait]
  | none => simp [dueWord?_of_not_waiting hwait]

/-- **All that a step can do.**  Where no word is due, it changes nothing or ends a wait.  Where one
is, it carries the word out, or the word is refused and nothing changes. -/
theorem happen_step_cases (m : Machine) :
    (m.dueWord? = none ∧
      (m.happen .step = m ∨ ∃ x key, m.happen .step = m.endWait x key)) ∨
    ∃ w, m.dueWord? = some w ∧
      ((∃ o, Executes m.advance (.decode w) o (m.happen .step)) ∨
        (∃ cause, Refuses m.advance (.decode w) cause) ∧ m.happen .step = m) := by
  cases hwait : m.processor.waiting with
  | some x =>
    refine .inl ⟨dueWord?_of_waiting hwait, ?_⟩
    have hstep : m.step = .ok ((m.resume x).1, (m.resume x).2) := step_of_waiting hwait
    rw [happen_step_of_ok hstep, Machine.resume]
    split
    · next key hkey => exact .inr ⟨x, key, rfl⟩
    · exact .inl rfl
  | none =>
    have hdue := dueWord?_of_not_waiting hwait
    cases hw : m.nextWord? with
    | none =>
      exact .inl ⟨hdue.trans hw, .inl (happen_step_of_error (step_of_nextWord?_none hwait hw))⟩
    | some w =>
      refine .inr ⟨w, hdue.trans hw, ?_⟩
      rcases executes_or_refuses m.advance (.decode w) with ⟨o, m', hrule⟩ | ⟨cause, hrefuses⟩
      · rw [happen_step_of_ok (step_of_executes hwait hw hrule)]
        exact .inl ⟨o, hrule⟩
      · exact .inr ⟨⟨cause, hrefuses⟩, happen_step_of_error (step_of_refuses hwait hw hrefuses)⟩

theorem AgreesBut.resume (h : AgreesBut p m n) (hp : p ≠ .keys) (x : Register) :
    ∃ n', n.resume x = ((m.resume x).1, n') ∧ AgreesBut p (m.resume x).2 n' := by
  have hfresh : n.freshPress? = m.freshPress? := by
    rw [freshPress?, h.processor, h.keypad hp, freshPress?]
  cases hpress : m.freshPress? with
  | none =>
    rw [Machine.resume, Machine.resume, hfresh, hpress]
    exact ⟨n, rfl, h⟩
  | some key =>
    rw [Machine.resume, Machine.resume, hfresh, hpress]
    refine ⟨_, rfl, { h with processor := ?_ }⟩
    rw [endWait, h.processor]
    rfl

/-- **A step that does not read the input succeeds on both machines alike.** -/
theorem AgreesBut.step_ok (h : AgreesBut p m n)
    (hawake : p = .keys → m.processor.waiting = none)
    (hunread : ∀ w, m.dueWord? = some w → ¬ p.IsReadBy w) (hm : m.step = .ok (o, m')) :
    ∃ n', n.step = .ok (o, n') ∧ AgreesBut p m' n' ∧
      (p = .keys → m'.processor.waiting = none) := by
  rcases step_eq_ok_iff.mp hm with ⟨x, hx, hresume⟩ | ⟨hwait, w, hw, hrule⟩
  · have hp : p ≠ .keys := fun hp => absurd (hx.symm.trans (hawake hp)) (Option.some_ne_none x)
    obtain ⟨n', hn', hagree⟩ := h.resume hp x
    rw [hresume] at hn' hagree
    have hx' : n.processor.waiting = some x := by rw [h.processor, hx]
    exact ⟨n', by rw [step_of_waiting hx', hn'], hagree, fun hkeys => absurd hkeys hp⟩
  · have hquiet := hunread w ((dueWord?_of_not_waiting hwait).trans hw)
    have hdigits := Instruction.hasDigits_decode w
    obtain ⟨n', hrule', hagree⟩ := hrule.agreesBut hdigits hquiet h.advance
    have hwait' : n.processor.waiting = none := by rw [h.processor, hwait]
    refine ⟨n', step_of_executes hwait' (h.nextWord?.trans hw) hrule', hagree, ?_⟩
    rintro rfl
    by_contra hne
    have hchange : m'.processor.waiting ≠ m.advance.processor.waiting := fun heq =>
      hne (heq.trans hwait)
    exact hquiet (.inr (hrule.wait_changes hdigits (.inl hchange)))

theorem AgreesBut.step_error (h : AgreesBut p m n) (hm : m.step = .error f) :
    n.step = .error f := by
  obtain ⟨hwait, hcause⟩ := step_eq_error_iff.mp hm
  refine step_eq_error_iff.mpr ⟨by rw [h.processor, hwait], ?_⟩
  rw [h.nextWord?, h.processor]
  rcases hcause with hnone | ⟨w, cause, hw, hrefuses, hf⟩
  · exact .inl hnone
  · exact .inr ⟨w, cause, hw, hrefuses.congr h.advance.processor, hf⟩

theorem AgreesBut.happen_right (h : AgreesBut p m n) (hevent : p.spares event = false) :
    AgreesBut p m (n.happen event) := by
  cases p with
  | random => cases hevent
  | keys =>
    cases event with
    | update key hold => exact { h with keypad := fun hp => absurd rfl hp }
    | tick | step => cases hevent
  | timers =>
    cases event with
    | tick => exact { h with timers := fun hp => absurd rfl hp }
    | update key hold | step => cases hevent

theorem AgreesBut.update (h : AgreesBut p m n) (key : Key) (hold : Bool) :
    AgreesBut p (m.happen (.update key hold)) (n.happen (.update key hold)) :=
  { h with keypad := fun hp => congrArg (·.update key hold) (h.keypad hp) }

theorem AgreesBut.tick (h : AgreesBut p m n) : AgreesBut p m.tick n.tick :=
  { h with timers := fun hp => congrArg Timers.tick (h.timers hp) }

end Machine

/-! ### Runs -/

namespace Emulator

variable {p : Input} {e e' : Emulator} {events events' before : List WaitEvent}
  {event : WaitEvent}

/-- An emulator after an event. -/
def happen (e : Emulator) : WaitEvent → Emulator
  | .update key hold => e.withMachine (e.machine.happen (.update key hold))
  | .tick => e.tick
  | .step => e.step.emulator

/-- The word that a step of the emulator carries out, if there is one. -/
def dueWord? (e : Emulator) : Option UInt16 := if e.halt.isSome then none else e.machine.dueWord?

/-- The words that an event carries out: one for a step that carries out one. -/
def wordsOf (e : Emulator) : WaitEvent → List UInt16
  | .step => e.dueWord?.toList
  | .update _ _ | .tick => []

/-- The words that the steps among some events carry out, one after the other. -/
def words (e : Emulator) : List WaitEvent → List UInt16
  | [] => []
  | event :: events => e.wordsOf event ++ (e.happen event).words events

/-- What there is to see after a step: what it answered, and the state of the program. -/
structure Sight where
  answer : Except Error StepEvent
  v : Registers
  i : UInt16
  pc : UInt16
  stack : CallStack
  memory : Memory
  display : Display

/-- What there is to see of a step. -/
def sight (r : Reply Error StepEvent) : Sight where
  answer := r.answer
  v := r.emulator.machine.processor.v
  i := r.emulator.machine.processor.i
  pc := r.emulator.machine.processor.pc
  stack := r.emulator.machine.processor.stack
  memory := r.emulator.machine.memory
  display := r.emulator.machine.display

def sightsOf (e : Emulator) : WaitEvent → List Sight
  | .step => [sight e.step]
  | .update _ _ | .tick => []

/-- What there is to see after each of the steps among some events. -/
def sights (e : Emulator) : List WaitEvent → List Sight
  | [] => []
  | event :: events => e.sightsOf event ++ (e.happen event).sights events

theorem sights_cons_of_not_spares (e : Emulator) (hevent : p.spares event = false)
    (events : List WaitEvent) : e.sights (event :: events) = (e.happen event).sights events := by
  cases event with
  | update key hold => rfl
  | tick => rfl
  | step => exact absurd rfl (Input.ne_step_of_spares hevent)

/-! ### Two runs side by side -/

/-- Two emulators have come equally far, and their machines agree but for an input.  If the input is
the keys, neither waits for one. -/
structure Parallel (p : Input) (e e' : Emulator) : Prop where
  machine : e.machine.AgreesBut p e'.machine
  halt : e'.halt = e.halt
  awake : p = .keys → e.machine.processor.waiting = none

namespace Parallel

theorem symm (h : Parallel p e e') : Parallel p e' e where
  machine := h.machine.symm
  halt := h.halt.symm
  awake := fun hp => (congrArg Processor.waiting h.machine.processor).trans (h.awake hp)

theorem stepEvent_eq (h : Parallel p e e') (o : Outcome) :
    stepEvent e'.machine o = stepEvent e.machine o := by
  rw [stepEvent, h.machine.processor, h.machine.nextWord?, stepEvent]

theorem happen_right (h : Parallel p e e') (hevent : p.spares event = false) :
    Parallel p e (e'.happen event) := by
  have hmachine := h.machine.happen_right hevent
  cases event with
  | update key hold => exact ⟨hmachine, h.halt, h.awake⟩
  | tick => exact ⟨hmachine, h.halt, h.awake⟩
  | step => exact absurd rfl (Input.ne_step_of_spares hevent)

theorem happen_left (h : Parallel p e e') (hevent : p.spares event = false) :
    Parallel p (e.happen event) e' := (h.symm.happen_right hevent).symm

theorem sight_eq {r r' : Reply Error StepEvent} (h : Parallel p r.emulator r'.emulator)
    (hanswer : r'.answer = r.answer) : sight r' = sight r := by
  rw [sight, hanswer, h.machine.processor, h.machine.memory, h.machine.display, sight]

/-- **A step that does not read the input answers the same on both sides, and they stay
parallel.** -/
theorem step (h : Parallel p e e') (hunread : ∀ w, e.dueWord? = some w → ¬ p.IsReadBy w) :
    e'.step.answer = e.step.answer ∧ Parallel p e.step.emulator e'.step.emulator := by
  cases hhalt : e.halt with
  | some f =>
    have hhalt' : e'.halt = some f := h.halt.trans hhalt
    rw [step_of_halted hhalt, step_of_halted hhalt']
    exact ⟨rfl, h⟩
  | none =>
    have hhalt' : e'.halt = none := h.halt.trans hhalt
    have hdue : e.dueWord? = e.machine.dueWord? := by
      rw [dueWord?, hhalt, Option.isSome_none, if_neg Bool.false_ne_true]
    cases hm : e.machine.step with
    | error f =>
      rw [step_of_fault hhalt hm, step_of_fault hhalt' (h.machine.step_error hm)]
      exact ⟨rfl, h.machine, rfl, h.awake⟩
    | ok result =>
      obtain ⟨o, m'⟩ := result
      obtain ⟨n', hn, hagree, hawake⟩ :=
        h.machine.step_ok h.awake (fun w hw => hunread w (hdue.trans hw)) hm
      rw [step_of_ok hhalt hm, step_of_ok hhalt' hn]
      exact ⟨congrArg Except.ok (h.stepEvent_eq o), hagree, h.halt, hawake⟩

theorem happen_both (h : Parallel p e e') (hunread : ∀ w ∈ e.wordsOf event, ¬ p.IsReadBy w) :
    e'.sightsOf event = e.sightsOf event ∧ Parallel p (e.happen event) (e'.happen event) := by
  cases event with
  | update key hold => exact ⟨rfl, h.machine.update key hold, h.halt, h.awake⟩
  | tick => exact ⟨rfl, h.machine.tick, h.halt, h.awake⟩
  | step =>
    obtain ⟨hanswer, hparallel⟩ :=
      h.step fun w hw => hunread w (Option.mem_toList.mpr (Option.mem_def.mpr hw))
    exact ⟨congrArg (fun s => [s]) (hparallel.sight_eq hanswer), hparallel⟩

/-- What changes nothing but the input can be left out of one of the runs. -/
theorem skip (h : Parallel p e e') (hbefore : ∀ event ∈ before, p.spares event = false)
    (after : List WaitEvent) :
    ∃ e₁, Parallel p e e₁ ∧ e'.sights (before ++ after) = e₁.sights after := by
  induction before generalizing e' with
  | nil => exact ⟨e', h, rfl⟩
  | cons event before ih =>
    have hevent := hbefore event List.mem_cons_self
    obtain ⟨e₁, hparallel, hsights⟩ := ih (h.happen_right hevent)
      fun event' hmem => hbefore event' (List.mem_cons_of_mem event hmem)
    refine ⟨e₁, hparallel, ?_⟩
    rw [List.cons_append, e'.sights_cons_of_not_spares hevent, hsights]

/-- **Parallel runs look the same, as long as the first of them does not read the input.** -/
theorem sights_eq (h : Parallel p e e')
    (hevents : events.filter p.spares = events'.filter p.spares)
    (hunread : ∀ w ∈ e.words events, ¬ p.IsReadBy w) : e'.sights events' = e.sights events := by
  induction events generalizing e e' events' with
  | nil =>
    have hnone : ∀ event ∈ events', p.spares event = false := by
      simpa using hevents.symm
    obtain ⟨e₁, -, hsights⟩ := h.skip hnone []
    rw [List.append_nil] at hsights
    rw [hsights, sights, sights]
  | cons event events ih =>
    have hlater : ∀ w ∈ (e.happen event).words events, ¬ p.IsReadBy w := fun w hw =>
      hunread w (List.mem_append_right _ hw)
    cases hspares : p.spares event with
    | false =>
      rw [List.filter_cons_of_neg (by rw [hspares]; decide)] at hevents
      rw [ih (h.happen_left hspares) hevents hlater, e.sights_cons_of_not_spares hspares]
    | true =>
      rw [List.filter_cons_of_pos hspares] at hevents
      -- the event is on the other side, too, behind some that change nothing but the input
      obtain ⟨before, after, rfl, hbefore, -, hafter⟩ := List.filter_eq_cons_iff.mp hevents.symm
      obtain ⟨e₁, h₁, hskip⟩ := h.skip (fun event' hmem => by simpa using hbefore event' hmem)
        (event :: after)
      obtain ⟨hsight, hparallel⟩ :=
        h₁.happen_both fun w hw => hunread w (List.mem_append_left _ hw)
      rw [hskip, sights, hsight, ih hparallel hafter.symm hlater, sights]

end Parallel

/-- **An input that is not read does not interfere.**  Take two runs that differ in what an input is
and in what changes it, and in nothing else.  If the first run carries out no word that reads the
input, then there is the same to see on both sides after every step.  A key that an instruction
waits for already is read without a word, so for the keys no instruction may wait at the start. -/
theorem inputs_do_not_interfere (p : Input) (e : Emulator) (m' : Machine)
    (events events' : List WaitEvent) (hagree : e.machine.AgreesBut p m')
    (hawake : p = .keys → e.machine.processor.waiting = none)
    (hevents : events.filter p.spares = events'.filter p.spares)
    (hunread : ∀ w ∈ e.words events, ¬ p.IsReadBy w) :
    (e.withMachine m').sights events' = e.sights events :=
  Parallel.sights_eq ⟨hagree, rfl, hawake⟩ hevents hunread

/-- The word `1200` at the start of programs jumps to itself, whatever else happens. -/
theorem eq_of_mem_words_of_jump {w : UInt16} (hhalt : e.halt = none)
    (hprocessor : e.machine.processor = (Machine.atWord 0x1200).processor)
    (hmemory : e.machine.memory = (Machine.atWord 0x1200).memory) (hw : w ∈ e.words events) :
    w = 0x1200 := by
  induction events generalizing e with
  | nil => cases hw
  | cons event events ih =>
    cases event with
    | update key hold =>
      exact ih (e := e.happen (.update key hold)) hhalt hprocessor hmemory hw
    | tick => exact ih (e := e.happen .tick) hhalt hprocessor hmemory hw
    | step =>
      have hwait : e.machine.processor.waiting = none := by
        rw [hprocessor]
        rfl
      have hnext : e.machine.nextWord? = some 0x1200 := by
        rw [Machine.nextWord?, hprocessor, hmemory]
        exact Machine.nextWord?_atWord 0x1200
      have hdue : e.dueWord? = some 0x1200 := by
        rw [dueWord?, hhalt, Option.isSome_none, if_neg Bool.false_ne_true,
          Machine.dueWord?_of_not_waiting hwait, hnext]
      have hstep := step_of_ok hhalt
        (Machine.step_of_executes hwait hnext (Machine.Executes.jump 0x200))
      rw [words, wordsOf, hdue, happen, hstep] at hw
      rcases List.mem_append.mp hw with hfirst | hlater
      · exact List.mem_singleton.mp hfirst
      · -- the jump leads back to where it stands
        refine ih ?_ ?_ ?_ hlater
        · exact hhalt
        · show { e.machine.processor with pc := Word.ofAddress 0x200 } = _
          rw [hprocessor]
          rfl
        · exact hmemory

/-- An emulator at the word `1200`. -/
def looping (config : Config) : Emulator := (fresh config 0).withMachine (Machine.atWord 0x1200)

/-- A program that jumps in place does not notice the keys. -/
theorem inputs_do_not_interfere_looping :
    ((looping {}).withMachine ((looping {}).machine.happen (.update 5 true))).sights
        [.step, .update 7 true, .tick, .step] =
      (looping {}).sights [.update 3 true, .step, .tick, .update 3 false, .step] := by
  have hagree : (looping {}).machine.AgreesBut .keys
      ((looping {}).machine.happen (.update 5 true)) :=
    (Machine.AgreesBut.refl .keys (looping {}).machine).happen_right rfl
  refine (looping {}).inputs_do_not_interfere .keys _ _ _ hagree (fun _ => rfl) (by decide) ?_
  intro w hw
  obtain rfl := eq_of_mem_words_of_jump (e := looping {}) rfl rfl rfl hw
  show ¬ (_ ∨ _)
  decide

end Emulator

end Chip8
