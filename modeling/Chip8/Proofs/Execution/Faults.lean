import Chip8.Proofs.Emulator.Calls
import Chip8.Proofs.Execution.InPlace

/-!
# When a step faults

A step faults for four reasons only, and they can be read off the machine before the step: there is
no word at the program counter, the word returns without a call, it calls once too often, or it
reads or writes a block that reaches beyond the end of memory.

* `FaultsWith m f`: the machine is about to fault with `f`.
* `step_faults_exactly`: **a step faults exactly when it does not wait and one of the reasons holds,
  the fault names the place, and nothing else has changed.**
-/

namespace Chip8

namespace Machine

variable {m m' : Machine} {w : UInt16} {f : Fault}

/-- A machine that does not wait is about to fault. -/
inductive FaultsWith (m : Machine) : Fault → Prop
  /-- There is no word at the program counter. -/
  | fetch (hpc : 0xFFE < m.processor.pc.toNat) :
      FaultsWith m ⟨.memoryOutOfRange m.processor.pc.toNat 2, some m.processor.pc.toNat, none⟩
  /-- The word is `00EE`, and no call is open. -/
  | underflow (hw : m.nextWord? = some 0x00EE) (hdepth : m.processor.stack.depth = 0) :
      FaultsWith m ⟨.stackUnderflow, some m.processor.pc.toNat, some 0x00EE⟩
  /-- The word is `2nnn`, and sixteen calls are open. -/
  | overflow {w : UInt16} (hw : m.nextWord? = some w) (hgroup : w.toNat / 4096 = 0x2)
      (hdepth : m.processor.stack.depth = 16) :
      FaultsWith m ⟨.stackOverflow 16, some m.processor.pc.toNat, some w.toNat⟩
  /-- The word is `Dxyn`, `Fx33`, `Fx55` or `Fx65`, and its block reaches beyond memory. -/
  | block {w : UInt16} {length : Nat} (hw : m.nextWord? = some w)
      (hlength : Word.blockLength? w = some length)
      (hrange : 4096 < m.processor.i.toNat + length) :
      FaultsWith m ⟨.memoryOutOfRange m.processor.i.toNat length, some m.processor.pc.toNat,
        some w.toNat⟩

/-- **The reasons are those for which a fetched word is refused.** -/
theorem faultsWith_iff (hstack : m.processor.stack.IsStandard) : m.FaultsWith f ↔
    (m.nextWord? = none ∧
        f = ⟨.memoryOutOfRange m.processor.pc.toNat 2, some m.processor.pc.toNat, none⟩) ∨
      ∃ w cause, m.nextWord? = some w ∧ Refuses m.advance (.decode w) cause ∧
        f = ⟨cause, some m.processor.pc.toNat, some w.toNat⟩ := by
  have hcapacity : m.processor.stack.capacity = 16 := hstack.capacity_eq
  have hdepth := hstack.depth_le
  constructor
  · rintro (hpc | ⟨hw, hempty⟩ | @⟨w, hw, hgroup, hfull⟩ | ⟨hw, hlength, hrange⟩)
    · exact .inl ⟨nextWord?_eq_none_iff.mpr hpc, rfl⟩
    · exact .inr ⟨_, _, hw, .ret (List.length_eq_zero_iff.mp hempty), rfl⟩
    · have hfull' : m.processor.stack.capacity ≤ (m.processor.stack.depth : Int) := by omega
      have hrefuses : Refuses m.advance (.decode w) (.stackOverflow m.processor.stack.capacity) := by
        rw [Instruction.decode_eq_call_iff.mpr ⟨hgroup, rfl⟩]
        exact .call (m := m.advance) _ hfull'
      rw [hcapacity] at hrefuses
      exact .inr ⟨_, _, hw, hrefuses, rfl⟩
    · rw [← Instruction.blockLength?_decode] at hlength
      exact .inr ⟨_, _, hw, .block hlength hrange, rfl⟩
  · rintro (⟨hw, rfl⟩ | ⟨w, cause, hw, hrefuses, rfl⟩)
    · exact .fetch (nextWord?_eq_none_iff.mp hw)
    · -- the cause tells the instruction, and the instruction its word
      generalize hi : Instruction.decode w = i at hrefuses
      cases hrefuses with
      | ret hentries =>
        obtain rfl := Instruction.decode_eq_ret_iff.mp hi
        exact .underflow hw (List.length_eq_zero_iff.mpr hentries)
      | call target hfull =>
        have hfull' : m.processor.stack.capacity ≤ (m.processor.stack.depth : Int) := hfull
        have hgroup := (Instruction.decode_eq_call_iff.mp hi).1
        show m.FaultsWith ⟨.stackOverflow m.processor.stack.capacity, _, _⟩
        rw [hcapacity]
        exact .overflow hw hgroup (by omega)
      | block hlength hrange =>
        rw [← hi, Instruction.blockLength?_decode] at hlength
        exact .block hw hlength hrange

theorem step_eq_error_iff_faultsWith (hstack : m.processor.stack.IsStandard) :
    m.step = .error f ↔ m.processor.waiting = none ∧ m.FaultsWith f := by
  rw [step_eq_error_iff, faultsWith_iff hstack]

theorem FaultsWith.place (h : m.FaultsWith f) :
    f.address = some (m.processor.pc.toNat : Int) ∧
      f.word = m.nextWord?.map fun w => (w.toNat : Int) := by
  cases h with
  | fetch hpc => rw [nextWord?_eq_none_iff.mpr hpc]; exact ⟨rfl, rfl⟩
  | underflow hw => rw [hw]; exact ⟨rfl, rfl⟩
  | overflow hw => rw [hw]; exact ⟨rfl, rfl⟩
  | block hw => rw [hw]; exact ⟨rfl, rfl⟩

theorem FaultsWith.cause_ne_unrecognizedGroup (h : m.FaultsWith f) (word : Int) :
    f.cause ≠ .unrecognizedGroup word := by
  cases h <;> exact Cause.noConfusion

/-- **A step faults exactly when it does not wait and there is a reason, and a fault changes
nothing.**  The fault names the place; a step in place ends with the machine it started with; the
emulator halts and is otherwise the same. -/
theorem step_faults_exactly (m : Machine) (hstack : m.processor.stack.IsStandard) :
    (∀ f, m.step = .error f ↔ m.processor.waiting = none ∧ m.FaultsWith f) ∧
    (∀ f, m.stepInPlace.1 = .error f ↔ m.step = .error f) ∧
    (∀ f, m.step = .error f →
      (∀ word, f.cause ≠ .unrecognizedGroup word) ∧
      f.address = some (m.processor.pc.toNat : Int) ∧
      f.word = (m.nextWord?.map fun w => (w.toNat : Int)) ∧
      m.stepInPlace.2 = m) ∧
    (∀ (e : Emulator) (f : Fault), e.machine = m →
      (e.step.answer = .error (.execution f) ↔ e.halt = none ∧ m.step = .error f) ∧
      (e.step.answer = .error (.execution f) → e.step.emulator = { e with halt := some f })) := by
  refine ⟨fun f => step_eq_error_iff_faultsWith hstack, fun f => stepInPlace_fst_eq_error_iff,
    ?_, ?_⟩
  · intro f h
    have hf := ((step_eq_error_iff_faultsWith hstack).mp h).2
    exact ⟨hf.cause_ne_unrecognizedGroup, hf.place.1, hf.place.2, stepInPlace_snd_of_error h⟩
  · rintro e f rfl
    refine ⟨Emulator.step_answer_eq_execution_iff, ?_⟩
    intro h
    obtain ⟨hhalt, hfault⟩ := Emulator.step_answer_eq_execution_iff.mp h
    rw [Emulator.step_of_fault hhalt hfault]

/-- A machine at the word `F033` with its index one byte too far for three digits. -/
def digitsPastEnd : Machine := (atWord 0xF033).setIndex 0xFFE

theorem step_faults_on_digitsPastEnd :
    digitsPastEnd.processor.stack.IsStandard ∧
      digitsPastEnd.step = .error ⟨.memoryOutOfRange 0xFFE 3, some 0x200, some 0xF033⟩ := by
  have hstack : digitsPastEnd.processor.stack.IsStandard := ⟨rfl, by decide⟩
  have hw : digitsPastEnd.nextWord? = some 0xF033 := nextWord?_atWord 0xF033
  refine ⟨hstack, ((step_faults_exactly _ hstack).1 _).mpr ⟨rfl, ?_⟩⟩
  exact .block hw rfl (by decide)

end Machine

end Chip8
