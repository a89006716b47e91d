import Chip8.Machine.Step
import Chip8.Proofs.Execution.Words

/-!
# The rules of execution

`Machine.execute` computes what an instruction does to a machine whose program counter is past it
already.  This file writes the same down as rules, one for each way in which an instruction can be
carried out, so that a proof about all instructions is a case analysis with a machine at hand in
every case.

* `Executes m i o m'`: the instruction `i` turns `m` into `m'` with the outcome `o`.
* `Refuses m i cause`: the instruction `i` cannot be carried out on `m`.
* `execute_eq_ok_iff`: **the rules say exactly what is computed.**
* `step_eq_ok_iff`, `step_eq_error_iff`: a step is a resumed wait or a fetch and a rule.
-/

namespace Chip8

namespace Machine

/-- An instruction turns the first machine, which is past it already, into the second. -/
inductive Executes (m : Machine) : Instruction → Outcome → Machine → Prop
  | machineCall (target : Address) : Executes m (.machineCall target) .ignored m
  | unassigned (word : UInt16) : Executes m (.unassigned word) .ignored m
  | clearScreen : Executes m .clearScreen .executed { m with display := m.display.clear }
  | ret {address : UInt16} {rest : List UInt16}
      (hentries : m.processor.stack.entries = address :: rest) :
      Executes m .ret .executed
        { m with processor := { m.processor with
            stack := { m.processor.stack with entries := rest }
            pc := address } }
  | jump (target : Address) :
      Executes m (.jump target) .executed (m.setCounter (Word.ofAddress target))
  | call (target : Address)
      (hdepth : (m.processor.stack.depth : Int) < m.processor.stack.capacity) :
      Executes m (.call target) .executed
        { m with processor := { m.processor with
            stack := { m.processor.stack with
              entries := m.processor.pc :: m.processor.stack.entries }
            pc := Word.ofAddress target } }
  | jumpIndexed (base : Address) :
      Executes m (.jumpIndexed base) .executed
        (m.setCounter (Word.ofAddress base + (m.reg Registers.first).toUInt16))
  | skipTaken {condition : Condition} (hholds : m.holds condition = true) :
      Executes m (.skip condition) .executed m.advance
  | skipPassed {condition : Condition} (hholds : m.holds condition = false) :
      Executes m (.skip condition) .executed m
  | loadByte (x : Register) (byte : UInt8) :
      Executes m (.loadByte x byte) .executed (m.setReg x byte)
  | addByte (x : Register) (byte : UInt8) :
      Executes m (.addByte x byte) .executed (m.setReg x (m.reg x + byte))
  | combine {operation : Arithmetic} {x y : Register} {byte : UInt8}
      (happly : operation.apply (m.reg x) (m.reg y) = (byte, none)) :
      Executes m (.combine operation x y) .executed (m.setReg x byte)
  | combineFlag {operation : Arithmetic} {x y : Register} {byte : UInt8} {raised : Bool}
      (happly : operation.apply (m.reg x) (m.reg y) = (byte, some raised)) :
      Executes m (.combine operation x y) .executed ((m.setReg x byte).setFlag raised)
  | loadIndex (target : Address) :
      Executes m (.loadIndex target) .executed (m.setIndex (Word.ofAddress target))
  | random (x : Register) (mask : UInt8) :
      Executes m (.random x mask) .executed
        ({ m with random := m.random.byte.2 }.setReg x (m.random.byte.1 &&& mask))
  | draw (x y : Register) (rows : Fin 16) {sprite : List UInt8} {drawn : Display × Bool}
      (hrange : m.processor.i.toNat + rows.val ≤ 4096)
      (hsprite : sprite = m.memory.slice m.processor.i.toNat (m.processor.i.toNat + rows.val))
      (hdrawn : drawn = m.display.draw (m.reg x).toNat (m.reg y).toNat sprite) :
      Executes m (.draw x y rows) .executed ({ m with display := drawn.1 }.setFlag drawn.2)
  | readDelay (x : Register) :
      Executes m (.readDelay x) .executed (m.setReg x (UInt8.ofInt m.timers.delay))
  | awaitKey (x : Register) : Executes m (.awaitKey x) .awaitingKey (m.beginWait x)
  | setDelay (x : Register) :
      Executes m (.setDelay x) .executed
        { m with timers := { m.timers with delay := (m.reg x).toNat } }
  | setSound (x : Register) :
      Executes m (.setSound x) .executed
        { m with timers := { m.timers with sound := (m.reg x).toNat } }
  | addIndex (x : Register) :
      Executes m (.addIndex x) .executed (m.setIndex (m.processor.i + (m.reg x).toUInt16))
  | glyph (x : Register) :
      Executes m (.glyph x) .executed (m.setIndex (Word.ofAddress (Font.glyph (m.keyIn x))))
  | decimal (x : Register) (hrange : m.processor.i.toNat + 3 ≤ 4096) :
      Executes m (.decimal x) .executed
        { m with memory := m.memory.overwrite m.processor.i.toNat (decimalDigits (m.reg x)) }
  | store (x : Register) (hrange : m.processor.i.toNat + (x.val + 1) ≤ 4096) :
      Executes m (.store x) .executed
        { m with memory := m.memory.overwrite m.processor.i.toNat (m.processor.v.upTo x) }
  | restore (x : Register) (hrange : m.processor.i.toNat + (x.val + 1) ≤ 4096) :
      Executes m (.restore x) .executed
        (m.loadRegisters
          (m.memory.slice m.processor.i.toNat (m.processor.i.toNat + (x.val + 1))))

/-- An instruction cannot be carried out: a return without a call, a call too many, or a block that
reaches beyond the end of memory. -/
inductive Refuses (m : Machine) : Instruction → Cause → Prop
  | ret (hentries : m.processor.stack.entries = []) : Refuses m .ret .stackUnderflow
  | call (target : Address)
      (hdepth : m.processor.stack.capacity ≤ (m.processor.stack.depth : Int)) :
      Refuses m (.call target) (.stackOverflow m.processor.stack.capacity)
  | block {i : Instruction} {length : Nat} (hlength : i.blockLength? = some length)
      (hrange : 4096 < m.processor.i.toNat + length) :
      Refuses m i (.memoryOutOfRange m.processor.i.toNat length)

end Machine

/-! ### Parts that can refuse -/

/-- A call stack as the processor has it: for sixteen entries, and with no more than that. -/
structure CallStack.IsStandard (s : CallStack) : Prop where
  capacity_eq : s.capacity = CallStack.standardCapacity
  depth_le : s.depth ≤ 16

theorem CallStack.push_of_lt {s : CallStack} (h : (s.depth : Int) < s.capacity) (a : UInt16) :
    s.push a = .ok { s with entries := a :: s.entries } := by
  rw [push, if_neg (by omega)]

theorem CallStack.push_of_ge {s : CallStack} (h : s.capacity ≤ (s.depth : Int)) (a : UInt16) :
    s.push a = .error (.stackOverflow s.capacity) := by
  rw [push, if_pos h]

theorem CallStack.pop_of_cons {s : CallStack} {a : UInt16} {rest : List UInt16}
    (h : s.entries = a :: rest) : s.pop = .ok (a, { s with entries := rest }) := by
  rw [pop, h]

theorem CallStack.pop_of_nil {s : CallStack} (h : s.entries = []) :
    s.pop = .error .stackUnderflow := by
  rw [pop, h]

theorem Memory.inRange_natCast (a n : Nat) : InRange (a : Int) (n : Int) ↔ a + n ≤ 4096 := by
  unfold InRange
  omega

theorem Memory.readBlock_of_le (m : Memory) {a n : Nat} (h : a + n ≤ 4096) :
    m.readBlock a n = .ok (m.slice a (a + n)) := by
  have hend : blockEnd ((a : Int) + n) = a + n := by
    rw [blockEnd, if_neg (by omega)]
    omega
  rw [readBlock, if_pos ((inRange_natCast a n).mpr h), hend, Int.toNat_natCast]

theorem Memory.readBlock_of_gt (m : Memory) {a n : Nat} (h : 4096 < a + n) :
    m.readBlock a n = .error (.memoryOutOfRange a n) := by
  rw [readBlock, if_neg (by rw [inRange_natCast]; omega)]

theorem Memory.readBlock_succ_of_le (m : Memory) {a n : Nat} (h : a + (n + 1) ≤ 4096) :
    m.readBlock a (n + 1) = .ok (m.slice a (a + (n + 1))) := m.readBlock_of_le h

theorem Memory.readBlock_succ_of_gt (m : Memory) {a n : Nat} (h : 4096 < a + (n + 1)) :
    m.readBlock a (n + 1) = .error (.memoryOutOfRange a (n + 1 : Nat)) := m.readBlock_of_gt h

theorem Memory.readWord_of_le (m : Memory) {a : Nat} (h : a + 2 ≤ 4096) :
    m.readWord a = .ok (Word.ofBytes (m.byteAt a) (m.byteAt (a + 1))) := by
  have hrange : InRange (a : Int) 2 := (inRange_natCast a 2).mpr h
  rw [readWord, if_pos hrange, Int.toNat_natCast]

theorem Memory.readWord_of_gt (m : Memory) {a : Nat} (h : 4096 < a + 2) :
    m.readWord a = .error (.memoryOutOfRange a 2) :=
  if_neg (mt (inRange_natCast a 2).mp (by omega))

theorem Memory.writeBytes_of_le (m : Memory) {a n : Nat} {data : List UInt8}
    (hn : data.length = n) (h : a + n ≤ 4096) :
    m.writeBytes a data = .ok (m.overwrite a data) := by
  rw [writeBytes, hn, if_pos ((inRange_natCast a n).mpr h), Int.toNat_natCast]

theorem Memory.writeBytes_of_gt (m : Memory) {a n : Nat} {data : List UInt8}
    (hn : data.length = n) (h : 4096 < a + n) :
    m.writeBytes a data = .error (.memoryOutOfRange a n) := by
  rw [writeBytes, hn, if_neg (by rw [inRange_natCast]; omega)]

theorem Registers.length_upTo (v : Registers) (x : Register) :
    (v.upTo x).length = x.val + 1 := by
  have := x.isLt
  rw [upTo, List.length_take, Vector.length_toList]
  omega

namespace Machine

variable {m m' : Machine} {i : Instruction} {o : Outcome} {cause : Cause} {w : UInt16}
  {x : Register}

theorem length_decimalDigits (b : UInt8) : (decimalDigits b).length = 3 := rfl

/-! ### The rules and the computation -/

theorem Executes.execute_eq (h : Executes m i o m') : m.execute i = .ok (o, m') := by
  cases h with
  | ret hentries => rw [execute, CallStack.pop_of_cons hentries]; rfl
  | call target hdepth => rw [execute, CallStack.push_of_lt hdepth]; rfl
  | skipTaken hholds => rw [execute, hholds]; rfl
  | skipPassed hholds => rw [execute, hholds]; rfl
  | combine happly => rw [execute, happly]; rfl
  | combineFlag happly => rw [execute, happly]; rfl
  | draw x y rows hrange hsprite hdrawn =>
    subst hsprite hdrawn
    rw [execute, Memory.readBlock_of_le _ hrange]
    rfl
  | decimal x hrange => rw [execute, Memory.writeBytes_of_le _ rfl hrange]; rfl
  | store x hrange =>
    rw [execute, Memory.writeBytes_of_le _ (Registers.length_upTo _ x) hrange]
    rfl
  | restore x hrange =>
    rw [execute, Memory.readBlock_succ_of_le _ hrange]
    rfl
  | _ => rfl

theorem Refuses.execute_eq (h : Refuses m i cause) : m.execute i = .error cause := by
  cases h with
  | ret hentries => rw [execute, CallStack.pop_of_nil hentries]; rfl
  | call target hdepth => rw [execute, CallStack.push_of_ge hdepth]; rfl
  | block hlength hrange =>
    cases i with
    | draw x y rows =>
      cases hlength
      rw [execute, Memory.readBlock_of_gt _ hrange]
      rfl
    | decimal x =>
      cases hlength
      rw [execute, Memory.writeBytes_of_gt _ rfl hrange]
      rfl
    | store x =>
      cases hlength
      rw [execute, Memory.writeBytes_of_gt _ (Registers.length_upTo _ x) hrange]
      rfl
    | restore x =>
      cases hlength
      rw [execute, Memory.readBlock_succ_of_gt _ hrange]
      rfl
    | _ => cases hlength

/-- Every instruction is carried out by a rule or refused for a cause. -/
theorem executes_or_refuses (m : Machine) (i : Instruction) :
    (∃ o m', Executes m i o m') ∨ ∃ cause, Refuses m i cause := by
  have hblock : ∀ n, i.blockLength? = some n → ¬ m.processor.i.toNat + n ≤ 4096 →
      ∃ cause, Refuses m i cause := fun n hn h => ⟨_, .block hn (by omega)⟩
  -- only the call stack and the end of the memory stand in the way of an instruction
  cases i with
  | ret =>
    cases hentries : m.processor.stack.entries with
    | nil => exact .inr ⟨_, .ret hentries⟩
    | cons a rest => exact .inl ⟨_, _, .ret hentries⟩
  | call target =>
    by_cases hdepth : (m.processor.stack.depth : Int) < m.processor.stack.capacity
    · exact .inl ⟨_, _, .call target hdepth⟩
    · exact .inr ⟨_, .call target (by omega)⟩
  | skip condition =>
    cases hholds : m.holds condition with
    | true => exact .inl ⟨_, _, .skipTaken hholds⟩
    | false => exact .inl ⟨_, _, .skipPassed hholds⟩
  | combine operation x y =>
    cases happly : operation.apply (m.reg x) (m.reg y) with
    | mk byte flag =>
      cases flag with
      | none => exact .inl ⟨_, _, .combine happly⟩
      | some raised => exact .inl ⟨_, _, .combineFlag happly⟩
  | draw x y rows =>
    by_cases hrange : m.processor.i.toNat + rows.val ≤ 4096
    · exact .inl ⟨_, _, .draw x y rows hrange rfl rfl⟩
    · exact .inr (hblock _ rfl hrange)
  | decimal x =>
    by_cases hrange : m.processor.i.toNat + 3 ≤ 4096
    · exact .inl ⟨_, _, .decimal x hrange⟩
    · exact .inr (hblock _ rfl hrange)
  | store x =>
    by_cases hrange : m.processor.i.toNat + (x.val + 1) ≤ 4096
    · exact .inl ⟨_, _, .store x hrange⟩
    · exact .inr (hblock _ rfl hrange)
  | restore x =>
    by_cases hrange : m.processor.i.toNat + (x.val + 1) ≤ 4096
    · exact .inl ⟨_, _, .restore x hrange⟩
    · exact .inr (hblock _ rfl hrange)
  | _ => exact .inl ⟨_, _, by constructor⟩

/-- **What is computed is what the rules say.** -/
theorem execute_eq_ok_iff : m.execute i = .ok (o, m') ↔ Executes m i o m' := by
  constructor
  · intro h
    rcases executes_or_refuses m i with ⟨o₁, m₁, h₁⟩ | ⟨cause, hc⟩
    · have he := h₁.execute_eq
      rw [h] at he
      cases he
      exact h₁
    · rw [hc.execute_eq] at h
      cases h
  · exact Executes.execute_eq

/-! ### Steps -/

theorem nextWord?_eq_some_iff : m.nextWord? = some w ↔
    m.processor.pc.toNat ≤ 0xFFE ∧
      w = Word.ofBytes (m.memory.byteAt m.processor.pc.toNat)
        (m.memory.byteAt (m.processor.pc.toNat + 1)) := by
  rw [nextWord?]
  by_cases hpc : m.processor.pc.toNat ≤ 0xFFE
  · rw [Memory.readWord_of_le _ (by omega)]
    simp only [Except.toOption, Option.some.injEq, hpc, true_and]
    exact eq_comm
  · rw [Memory.readWord_of_gt _ (by omega)]
    simp [Except.toOption, hpc]

theorem nextWord?_eq_none_iff : m.nextWord? = none ↔ 0xFFE < m.processor.pc.toNat := by
  rw [nextWord?]
  by_cases hpc : m.processor.pc.toNat ≤ 0xFFE
  · rw [Memory.readWord_of_le _ (by omega)]
    simp only [Except.toOption, reduceCtorEq, false_iff]
    omega
  · rw [Memory.readWord_of_gt _ (by omega)]
    simp only [Except.toOption, true_iff]
    omega

theorem readWord_of_nextWord? (h : m.nextWord? = some w) :
    m.memory.readWord m.processor.pc.toNat = .ok w := by
  obtain ⟨hpc, rfl⟩ := nextWord?_eq_some_iff.mp h
  exact Memory.readWord_of_le _ (by omega)

theorem nextWord?_of_overwrite {address : Nat} (hpc : m.processor.pc.toNat = address)
    (haddress : address ≤ 0xFFE) (w : UInt16) :
    { m with memory := m.memory.overwrite address (Word.bytes w) }.nextWord? = some w := by
  refine nextWord?_eq_some_iff.mpr ⟨by rwa [hpc], ?_⟩
  show w = Word.ofBytes
    ((m.memory.overwrite address (Word.bytes w)).byteAt m.processor.pc.toNat)
    ((m.memory.overwrite address (Word.bytes w)).byteAt (m.processor.pc.toNat + 1))
  rw [hpc, Memory.byteAt_overwrite _ _ _ _ (by omega), Memory.byteAt_overwrite _ _ _ _ (by omega)]
  simp [Word.bytes]

/-- A new machine with a program of one word. -/
def atWord (w : UInt16) : Machine :=
  { fresh (Twister.seeded 0) with memory := Memory.fresh.overwrite 0x200 (Word.bytes w) }

theorem nextWord?_atWord (w : UInt16) : (atWord w).nextWord? = some w :=
  nextWord?_of_overwrite (m := fresh (Twister.seeded 0)) rfl (by decide) w

theorem step_of_waiting (h : m.processor.waiting = some x) : m.step = .ok (m.resume x) := by
  simp only [step, h]

theorem step_of_not_waiting (h : m.processor.waiting = none) :
    m.step = m.carryOut m.processor.pc.toNat (m.memory.readWord m.processor.pc.toNat) := by
  rw [step, h]

theorem step_of_nextWord?_none (hwait : m.processor.waiting = none) (h : m.nextWord? = none) :
    m.step =
      .error ⟨.memoryOutOfRange m.processor.pc.toNat 2, some m.processor.pc.toNat, none⟩ := by
  have hpc := nextWord?_eq_none_iff.mp h
  rw [step_of_not_waiting hwait, Memory.readWord_of_gt _ (by omega)]
  rfl

theorem step_of_executes (hwait : m.processor.waiting = none) (hw : m.nextWord? = some w)
    (h : Executes m.advance (.decode w) o m') : m.step = .ok (o, m') := by
  rw [step_of_not_waiting hwait, readWord_of_nextWord? hw, carryOut, dispatch, h.execute_eq]

theorem step_of_hasDigits (hwait : m.processor.waiting = none) (hw : m.nextWord? = some w)
    (h : Executes m.advance i o m') (hdigits : i.HasDigits w) : m.step = .ok (o, m') :=
  step_of_executes hwait hw (hdigits.decode_eq ▸ h)

theorem step_of_refuses (hwait : m.processor.waiting = none) (hw : m.nextWord? = some w)
    (h : Refuses m.advance (.decode w) cause) :
    m.step = .error ⟨cause, some m.processor.pc.toNat, some w.toNat⟩ := by
  rw [step_of_not_waiting hwait, readWord_of_nextWord? hw, carryOut, dispatch, h.execute_eq]

/-- **A step that succeeds goes on with a wait or carries out the next word by a rule.** -/
theorem step_eq_ok_iff : m.step = .ok (o, m') ↔
    (∃ x, m.processor.waiting = some x ∧ m.resume x = (o, m')) ∨
      (m.processor.waiting = none ∧
        ∃ w, m.nextWord? = some w ∧ Executes m.advance (.decode w) o m') := by
  constructor
  · intro h
    cases hwait : m.processor.waiting with
    | some x =>
      rw [step_of_waiting hwait] at h
      exact .inl ⟨x, rfl, Except.ok.inj h⟩
    | none =>
      cases hw : m.nextWord? with
      | none => rw [step_of_nextWord?_none hwait hw] at h; cases h
      | some w =>
        rcases executes_or_refuses m.advance (.decode w) with ⟨o₁, m₁, h₁⟩ | ⟨cause, hc⟩
        · rw [step_of_executes hwait hw h₁] at h
          cases h
          exact .inr ⟨rfl, w, rfl, h₁⟩
        · rw [step_of_refuses hwait hw hc] at h
          cases h
  · rintro (⟨x, hx, hr⟩ | ⟨hwait, w, hw, h⟩)
    · rw [step_of_waiting hx, hr]
    · exact step_of_executes hwait hw h

/-- **A step faults where no word can be fetched or the word is refused, and never while it
waits.** -/
theorem step_eq_error_iff {f : Fault} : m.step = .error f ↔ m.processor.waiting = none ∧
    ((m.nextWord? = none ∧
        f = ⟨.memoryOutOfRange m.processor.pc.toNat 2, some m.processor.pc.toNat, none⟩) ∨
      ∃ w cause, m.nextWord? = some w ∧ Refuses m.advance (.decode w) cause ∧
        f = ⟨cause, some m.processor.pc.toNat, some w.toNat⟩) := by
  constructor
  · intro h
    cases hwait : m.processor.waiting with
    | some x => rw [step_of_waiting hwait] at h; cases h
    | none =>
      refine ⟨rfl, ?_⟩
      cases hw : m.nextWord? with
      | none =>
        rw [step_of_nextWord?_none hwait hw] at h
        exact .inl ⟨rfl, (Except.error.inj h).symm⟩
      | some w =>
        rcases executes_or_refuses m.advance (.decode w) with ⟨o₁, m₁, h₁⟩ | ⟨cause, hc⟩
        · rw [step_of_executes hwait hw h₁] at h
          cases h
        · rw [step_of_refuses hwait hw hc] at h
          exact .inr ⟨w, cause, rfl, hc, (Except.error.inj h).symm⟩
  · rintro ⟨hwait, ⟨hw, rfl⟩ | ⟨w, cause, hw, hc, rfl⟩⟩
    · exact step_of_nextWord?_none hwait hw
    · exact step_of_refuses hwait hw hc

end Machine

end Chip8
