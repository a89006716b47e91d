import Chip8.Emulator.Run

/-!
# The endings of a call

A step of an emulator is a step of its machine, unless the emulator is halted.  It has three
endings, and each has its lemma: the machine goes on (`step_of_ok`), the machine faults and the
emulator halts (`step_of_fault`), or the emulator is halted already (`step_of_halted`).  In each of
them a step leaves alone what is not its own (`exists_emulator_step`).

A load has two: the program fits (`load_of_le`), or nothing at all happens (`load_of_gt`).

Calls in a row go on or end with the first failure (`andThen_of_ok`, `andThen_of_error`); what is
done to the answer of a row is done to the answer of its last call (`map_andThen`).
-/

namespace Chip8

/-! ### Replies one after the other -/

namespace Reply

variable {ε α β γ : Type} {r : Reply ε α} {next : α → Emulator → Reply ε β}

theorem andThen_of_ok {a : α} (h : r.answer = .ok a) :
    r.andThen next = { next a r.emulator with log := r.log ++ (next a r.emulator).log } := by
  simp only [andThen, h]

theorem andThen_of_error {err : ε} (h : r.answer = .error err) :
    r.andThen next = ⟨.error err, r.emulator, r.log⟩ := by
  simp only [andThen, h]

theorem answer_andThen_eq_ok_iff {b : β} : (r.andThen next).answer = .ok b ↔
    ∃ a, r.answer = .ok a ∧ (next a r.emulator).answer = .ok b := by
  cases h : r.answer with
  | error err => simp [andThen_of_error h]
  | ok a => simp [andThen_of_ok h]

theorem answer_andThen_eq_error_iff {err : ε} : (r.andThen next).answer = .error err ↔
    r.answer = .error err ∨ ∃ a, r.answer = .ok a ∧ (next a r.emulator).answer = .error err := by
  cases h : r.answer with
  | error err => simp [andThen_of_error h]
  | ok a => simp [andThen_of_ok h]

theorem answer_map_eq_ok_iff {f : α → β} {b : β} :
    (r.map f).answer = .ok b ↔ ∃ a, r.answer = .ok a ∧ f a = b := by
  cases h : r.answer with
  | error err => simp [map, h, Except.map]
  | ok a => simp [map, h, Except.map]

theorem answer_map_eq_error_iff {f : α → β} {err : ε} :
    (r.map f).answer = .error err ↔ r.answer = .error err := by
  cases h : r.answer with
  | error err => simp [map, h, Except.map]
  | ok a => simp [map, h, Except.map]

theorem map_andThen (r : Reply ε α) (next : α → Emulator → Reply ε β) (f : β → γ) :
    (r.andThen next).map f = r.andThen fun a e => (next a e).map f := by
  simp only [Emulator.map_eq_andThen, andThen_assoc]

theorem andThen_map (r : Reply ε α) (f : α → β) (next : β → Emulator → Reply ε γ) :
    (r.map f).andThen next = r.andThen fun a e => next (f a) e := by
  simp only [Emulator.map_eq_andThen, andThen_assoc, Emulator.answering_andThen]

theorem map_map (r : Reply ε α) (f : α → β) (g : β → γ) :
    (r.map f).map g = r.map fun a => g (f a) := by
  simp only [Emulator.map_eq_andThen, andThen_assoc, Emulator.answering_andThen]

theorem map_id (r : Reply ε α) : (r.map fun a => a) = r := by
  obtain ⟨answer, e, log⟩ := r
  cases answer with
  | error err => rfl
  | ok a => rfl

end Reply

/-! ### Programs that fit -/

theorem Memory.loadProgram_of_le (m : Memory) {data : List UInt8}
    (h : data.length ≤ Memory.programCapacity) :
    m.loadProgram data Memory.programStart = .ok (m.overwrite Memory.programStart data) := by
  have hfits : (data.length : Int) ≤ 4096 - (Memory.programStart : Int) := by
    have hcapacity : Memory.programCapacity = 3584 := rfl
    have hstart : (Memory.programStart : Int) = 512 := rfl
    omega
  rw [loadProgram, if_pos (by decide), if_pos hfits, Int.toNat_natCast]

theorem Memory.loadProgram_of_gt (m : Memory) {data : List UInt8}
    (h : Memory.programCapacity < data.length) :
    m.loadProgram data Memory.programStart =
      .error (.loadTooLarge data.length (4096 - Memory.programStart)) := by
  have hlong : ¬ (data.length : Int) ≤ 4096 - (Memory.programStart : Int) := by
    have hcapacity : Memory.programCapacity = 3584 := rfl
    have hstart : (Memory.programStart : Int) = 512 := rfl
    omega
  rw [loadProgram, if_pos (by decide), if_neg hlong]

namespace Emulator

variable {e : Emulator} {f : Fault}

/-! ### Steps -/

theorem step_of_fault (hhalt : e.halt = none) (h : e.machine.step = .error f) :
    e.step = ⟨.error (.execution f), { e with halt := some f }, [haltLine f]⟩ := by
  rw [step, hhalt]
  simp only [h]

theorem step_of_ok {o : Outcome} {m' : Machine} (hhalt : e.halt = none)
    (h : e.machine.step = .ok (o, m')) :
    e.step = ⟨.ok (stepEvent e.machine o), { e with machine := m', steps := e.steps + 1 },
      e.machine.remarks o⟩ := by
  rw [step, hhalt]
  simp only [h]

theorem step_of_halted (hhalt : e.halt = some f) :
    e.step = ⟨.error (.halted (some (.execution f))), e, []⟩ := by
  rw [step, hhalt]

/-- A step touches the machine, the fault and the count of steps, and nothing else. -/
theorem exists_emulator_step (e : Emulator) :
    ∃ machine halt steps, e.step.emulator = { e with machine, halt, steps } := by
  cases hhalt : e.halt with
  | some f => exact ⟨e.machine, e.halt, e.steps, by rw [step_of_halted hhalt]⟩
  | none =>
    cases h : e.machine.step with
    | error f => exact ⟨e.machine, some f, e.steps, by rw [step_of_fault hhalt h]⟩
    | ok result => exact ⟨result.2, e.halt, e.steps + 1, by rw [step_of_ok hhalt h]⟩

theorem step_answer_eq_execution_iff :
    e.step.answer = .error (.execution f) ↔ e.halt = none ∧ e.machine.step = .error f := by
  cases hhalt : e.halt with
  | some f' => rw [step_of_halted hhalt]; simp
  | none =>
    cases h : e.machine.step with
    | error f' => rw [step_of_fault hhalt h]; simp
    | ok result => rw [step_of_ok hhalt h]; simp

/-- A step answers with an event exactly when the machine goes on, and the event is about its
step. -/
theorem step_answer_eq_ok_iff {event : StepEvent} : e.step.answer = .ok event ↔
    e.halt = none ∧ ∃ o m', e.machine.step = .ok (o, m') ∧ event = stepEvent e.machine o := by
  cases hhalt : e.halt with
  | some f => rw [step_of_halted hhalt]; simp
  | none =>
    cases h : e.machine.step with
    | error f => rw [step_of_fault hhalt h]; simp
    | ok result =>
      rw [step_of_ok hhalt h]
      constructor
      · intro hevent
        exact ⟨rfl, _, _, rfl, (Except.ok.inj hevent).symm⟩
      · rintro ⟨-, o, m', hresult, rfl⟩
        cases hresult
        rfl

/-! ### Loads -/

/-- The emulator that a program is copied to. -/
def startedOver (e : Emulator) (startOver : Bool) (entropy : Int) : Emulator :=
  if startOver then e.reset entropy else e

theorem load_of_gt {data : List UInt8} (startOver : Bool) (entropy : Int)
    (h : Memory.programCapacity < data.length) :
    e.load data startOver entropy =
      ⟨.error (.loadTooLarge data.length Memory.programCapacity), e, []⟩ := by
  rw [load, if_pos h]

theorem load_of_le {data : List UInt8} (startOver : Bool) (entropy : Int)
    (h : data.length ≤ Memory.programCapacity) :
    e.load data startOver entropy =
      ⟨.ok (), (e.startedOver startOver entropy).withMachine
          { (e.startedOver startOver entropy).machine with
            memory := (e.startedOver startOver entropy).machine.memory.overwrite
              Memory.programStart data },
        (if startOver then [resetLine] else []) ++
          [Memory.copiedLine data.length Memory.programStart, loadedLine data.length]⟩ := by
  rw [load, if_neg (by omega)]
  simp only [Memory.loadProgram_of_le _ h]
  rfl

end Emulator

end Chip8
