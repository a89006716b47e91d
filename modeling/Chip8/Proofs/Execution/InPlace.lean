import Chip8.Proofs.Execution.Rules

/-!
# Execution in place

`Machine.step` answers with a new machine or with a fault, and so has nothing to undo.  A processor
that works in place has one machine: it moves the counter before it knows whether the instruction
can be carried out, changes one part after the other, and stops in the middle when an access is
refused.  What it has done by then stays done, apart from the counter, which it puts back by hand.

* `InPlace`: operations on one machine that may be refused half way.
* `executeInPlace`, `stepInPlace`: instructions and steps, effect after effect.
* `Refuses.executeInPlace_eq`: no instruction changes anything before an access that is refused.
* `stepInPlace_eq`: **a step in place ends in the machine that `step` answers, and in the machine it
  started with if it faults.**
-/

namespace Chip8

/-- An operation on one machine, which keeps the changes made so far when it is refused. -/
abbrev InPlace : Type → Type := ExceptT Cause (StateM Machine)

namespace Machine

/-- Asks the machine for something that it may refuse. -/
def ask {α : Type} (question : Machine → Except Cause α) : InPlace α :=
  ExceptT.mk fun m => (question m, m)

/-- The machine with another call stack. -/
def setStack (m : Machine) (stack : CallStack) : Machine :=
  { m with processor := { m.processor with stack } }

/-- Carries out an instruction in place, on a machine whose program counter is past it already. -/
def executeInPlace : Instruction → InPlace Outcome
  | .machineCall _ | .unassigned _ => return .ignored
  | .clearScreen => do
    modify fun m => { m with display := m.display.clear }
    return .executed
  | .ret => do
    let (address, stack) ← ask fun m => m.processor.stack.pop
    modify fun m => m.setStack stack
    modify fun m => m.setCounter address
    return .executed
  | .jump target => do
    modify fun m => m.setCounter (Word.ofAddress target)
    return .executed
  | .call target => do
    let stack ← ask fun m => m.processor.stack.push m.processor.pc
    modify fun m => m.setStack stack
    modify fun m => m.setCounter (Word.ofAddress target)
    return .executed
  | .jumpIndexed base => do
    modify fun m => m.setCounter (Word.ofAddress base + (m.reg Registers.first).toUInt16)
    return .executed
  | .skip condition => do
    modify fun m => if m.holds condition then m.advance else m
    return .executed
  | .loadByte x byte => do
    modify fun m => m.setReg x byte
    return .executed
  | .addByte x byte => do
    modify fun m => m.setReg x (m.reg x + byte)
    return .executed
  | .combine operation x y => do
    let (byte, flag) ← ask fun m => .ok (operation.apply (m.reg x) (m.reg y))
    modify fun m => m.setReg x byte
    match flag with
    | none => return .executed
    | some raised =>
      modify fun m => m.setFlag raised
      return .executed
  | .loadIndex target => do
    modify fun m => m.setIndex (Word.ofAddress target)
    return .executed
  | .random x mask => do
    let byte ← modifyGet fun m => (m.random.byte.1, { m with random := m.random.byte.2 })
    modify fun m => m.setReg x (byte &&& mask)
    return .executed
  | .draw x y rows => do
    let sprite ← ask fun m => m.memory.readBlock m.processor.i.toNat rows
    let collision ← modifyGet fun m =>
      let drawn := m.display.draw (m.reg x).toNat (m.reg y).toNat sprite
      (drawn.2, { m with display := drawn.1 })
    modify fun m => m.setFlag collision
    return .executed
  | .readDelay x => do
    modify fun m => m.setReg x (UInt8.ofInt m.timers.delay)
    return .executed
  | .awaitKey x => do
    modify fun m => { m with processor := { m.processor with waiting := some x } }
    modify fun m => { m with processor := { m.processor with pressMark := m.keypad.presses } }
    modify fun m => m.setCounter (m.processor.pc - 2)
    return .awaitingKey
  | .setDelay x => do
    modify fun m => { m with timers := { m.timers with delay := (m.reg x).toNat } }
    return .executed
  | .setSound x => do
    modify fun m => { m with timers := { m.timers with sound := (m.reg x).toNat } }
    return .executed
  | .addIndex x => do
    modify fun m => m.setIndex (m.processor.i + (m.reg x).toUInt16)
    return .executed
  | .glyph x => do
    modify fun m => m.setIndex (Word.ofAddress (Font.glyph (m.keyIn x)))
    return .executed
  | .decimal x => do
    let memory ← ask fun m => m.memory.writeBytes m.processor.i.toNat (decimalDigits (m.reg x))
    modify fun m => { m with memory }
    return .executed
  | .store x => do
    let memory ← ask fun m => m.memory.writeBytes m.processor.i.toNat (m.processor.v.upTo x)
    modify fun m => { m with memory }
    return .executed
  | .restore x => do
    let data ← ask fun m => m.memory.readBlock m.processor.i.toNat (x.val + 1)
    modify fun m => m.loadRegisters data
    return .executed

/-- Carries out in place what was fetched from an address.  The counter is moved first, and put back
if the instruction is refused. -/
def carryOutInPlace (m : Machine) (address : UInt16) :
    Except Cause UInt16 → Except Fault Outcome × Machine
  | .error cause => (.error ⟨cause, some address.toNat, none⟩, m)
  | .ok word =>
    match (executeInPlace (Instruction.decode word)).run.run m.advance with
    | (.ok outcome, m') => (.ok outcome, m')
    | (.error cause, m') =>
      (.error ⟨cause, some address.toNat, some word.toNat⟩, m'.setCounter address)

/-- Makes a step in place. -/
def stepInPlace (m : Machine) : Except Fault Outcome × Machine :=
  match m.processor.waiting with
  | some x => (.ok (m.resume x).1, (m.resume x).2)
  | none => m.carryOutInPlace m.processor.pc (m.memory.readWord m.processor.pc.toNat)

variable {m m' : Machine} {i : Instruction} {o : Outcome} {cause : Cause} {f : Fault}

/-! ### Instructions in place -/

theorem run_ask_bind_of_ok {α β : Type} {q : Machine → Except Cause α} {a : α}
    (h : q m = .ok a) (next : α → InPlace β) :
    (ask q >>= next).run.run m = (next a).run.run m := by
  show (ExceptT.bindCont next (q m)).run m = _
  rw [h]
  rfl

theorem run_ask_bind_of_error {α β : Type} {q : Machine → Except Cause α}
    (h : q m = .error cause) (next : α → InPlace β) :
    (ask q >>= next).run.run m = (.error cause, m) := by
  show (ExceptT.bindCont next (q m)).run m = _
  rw [h]
  rfl

theorem Executes.executeInPlace_eq (h : Executes m i o m') :
    (executeInPlace i).run.run m = (.ok o, m') := by
  -- each instruction asks at most one question that has an error, and asks it first
  cases h with
  | ret hentries =>
    exact run_ask_bind_of_ok (q := fun m => m.processor.stack.pop)
      (CallStack.pop_of_cons hentries) _
  | call target hdepth =>
    exact run_ask_bind_of_ok (q := fun m => m.processor.stack.push m.processor.pc)
      (CallStack.push_of_lt hdepth _) _
  | skipTaken hholds =>
    show (Except.ok Outcome.executed, if m.holds _ then m.advance else m) = _
    rw [hholds]
    rfl
  | skipPassed hholds =>
    show (Except.ok Outcome.executed, if m.holds _ then m.advance else m) = _
    rw [hholds]
    rfl
  | @combine operation x y byte happly =>
    exact run_ask_bind_of_ok (q := fun m => .ok (operation.apply (m.reg x) (m.reg y)))
      (congrArg Except.ok happly) _
  | @combineFlag operation x y byte raised happly =>
    exact run_ask_bind_of_ok (q := fun m => .ok (operation.apply (m.reg x) (m.reg y)))
      (congrArg Except.ok happly) _
  | draw x y rows hrange hsprite hdrawn =>
    subst hsprite hdrawn
    exact run_ask_bind_of_ok (q := fun m => m.memory.readBlock m.processor.i.toNat rows)
      (m.memory.readBlock_of_le hrange) _
  | decimal x hrange =>
    exact run_ask_bind_of_ok
      (q := fun m => m.memory.writeBytes m.processor.i.toNat (decimalDigits (m.reg x)))
      (m.memory.writeBytes_of_le (length_decimalDigits _) hrange) _
  | store x hrange =>
    exact run_ask_bind_of_ok
      (q := fun m => m.memory.writeBytes m.processor.i.toNat (m.processor.v.upTo x))
      (m.memory.writeBytes_of_le (Registers.length_upTo _ x) hrange) _
  | restore x hrange =>
    exact run_ask_bind_of_ok (q := fun m => m.memory.readBlock m.processor.i.toNat (x.val + 1))
      (m.memory.readBlock_succ_of_le hrange) _
  | _ => rfl

/-- **A refused instruction has not changed anything yet.** -/
theorem Refuses.executeInPlace_eq (h : Refuses m i cause) :
    (executeInPlace i).run.run m = (.error cause, m) := by
  cases h with
  | ret hentries =>
    exact run_ask_bind_of_error (q := fun m => m.processor.stack.pop)
      (CallStack.pop_of_nil hentries) _
  | call target hdepth =>
    exact run_ask_bind_of_error (q := fun m => m.processor.stack.push m.processor.pc)
      (CallStack.push_of_ge hdepth _) _
  | block hlength hrange =>
    cases i with
    | draw x y rows =>
      cases hlength
      exact run_ask_bind_of_error (q := fun m => m.memory.readBlock m.processor.i.toNat rows)
        (m.memory.readBlock_of_gt hrange) _
    | decimal x =>
      cases hlength
      exact run_ask_bind_of_error
        (q := fun m => m.memory.writeBytes m.processor.i.toNat (decimalDigits (m.reg x)))
        (m.memory.writeBytes_of_gt (length_decimalDigits _) hrange) _
    | store x =>
      cases hlength
      exact run_ask_bind_of_error
        (q := fun m => m.memory.writeBytes m.processor.i.toNat (m.processor.v.upTo x))
        (m.memory.writeBytes_of_gt (Registers.length_upTo _ x) hrange) _
    | restore x =>
      cases hlength
      exact run_ask_bind_of_error
        (q := fun m => m.memory.readBlock m.processor.i.toNat (x.val + 1))
        (m.memory.readBlock_succ_of_gt hrange) _
    | _ => cases hlength

/-! ### Steps in place -/

/-- **A step in place does what a step does**, and a fault leaves the machine as it was. -/
theorem stepInPlace_eq (m : Machine) : m.stepInPlace =
    match m.step with
    | .ok (o, m') => (.ok o, m')
    | .error f => (.error f, m) := by
  cases hwait : m.processor.waiting with
  | some x => rw [stepInPlace, hwait, step_of_waiting hwait]
  | none =>
    rw [stepInPlace, hwait]
    cases hw : m.nextWord? with
    | none =>
      have hpc := nextWord?_eq_none_iff.mp hw
      rw [step_of_nextWord?_none hwait hw, Memory.readWord_of_gt _ (by omega)]
      rfl
    | some w =>
      rw [readWord_of_nextWord? hw, carryOutInPlace]
      rcases executes_or_refuses m.advance (.decode w) with ⟨o, m', h⟩ | ⟨cause, h⟩
      · rw [step_of_executes hwait hw h, h.executeInPlace_eq]
      · rw [step_of_refuses hwait hw h, h.executeInPlace_eq]
        rfl

theorem stepInPlace_fst_eq_error_iff : m.stepInPlace.1 = .error f ↔ m.step = .error f := by
  rw [stepInPlace_eq]
  cases m.step with
  | ok result => simp
  | error f' => simp

/-- A fault in place leaves the machine exactly as it was. -/
theorem stepInPlace_snd_of_error (h : m.step = .error f) : m.stepInPlace.2 = m := by
  rw [stepInPlace_eq, h]

end Machine

end Chip8
