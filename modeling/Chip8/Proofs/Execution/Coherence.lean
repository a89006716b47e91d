import Chip8.Proofs.Execution.Effects

/-!
# Coherent machines

What a program can make of a machine has its bounds.  The counter stays within a byte of the words
that a program can jump to, because a return goes to an entry that a call has pushed, and a call
pushes the address after a word that was fetched.  The stack stays within its capacity, the timers
within a byte, and a wait always stands at a word that can be fetched.

`Machine.Coherent` collects these bounds.

* `Coherent.step`: **a step of a coherent machine leaves a coherent machine.**
* `Coherent.bounded`: in a coherent machine no sum that makes a counter exceeds sixteen bits.
-/

namespace Chip8

namespace Machine

/-- The bounds of a machine that has only ever been driven by a host and its program. -/
structure Coherent (m : Machine) : Prop where
  counter_le : m.processor.pc.toNat ≤ 0x10FE
  isStandard : m.processor.stack.IsStandard
  entry_mem : ∀ a ∈ m.processor.stack.entries, 2 ≤ a.toNat ∧ a.toNat ≤ 0x1000
  delay_mem : 0 ≤ m.timers.delay ∧ m.timers.delay ≤ 255
  sound_mem : 0 ≤ m.timers.sound ∧ m.timers.sound ≤ 255
  /-- A wait stands at its word, and its mark is not ahead of the presses. -/
  wait : ∀ x, m.processor.waiting = some x →
    m.processor.pressMark ≤ m.keypad.presses ∧ m.processor.pc.toNat ≤ 0xFFE
  lastPress_eq_none_iff : m.keypad.lastPress = none ↔ m.keypad.presses = 0

/-- Every number of a machine has its width, and neither the counter after a word, nor after a skip,
nor that of an indexed jump exceeds sixteen bits. -/
structure Bounded (m : Machine) : Prop where
  bytes : m.memory.bytes.toList.length = 4096 ∧ ∀ b ∈ m.memory.bytes.toList, b.toNat ≤ 255
  cells : m.display.cells.toList.length = 2048 ∧ ∀ lit ∈ m.display.cells.toList, lit.toNat ≤ 1
  registers : m.processor.v.toList.length = 16 ∧ ∀ b ∈ m.processor.v.toList, b.toNat ≤ 255
  index : m.processor.i.toNat ≤ 0xFFFF
  waiting : ∀ x, m.processor.waiting = some x → x.val ≤ 15
  next : (m.processor.pc + 2).toNat = m.processor.pc.toNat + 2
  skip : (m.processor.pc + 2 + 2).toNat = m.processor.pc.toNat + 4
  indexed : ∀ base, (Word.ofAddress base + (m.reg Registers.first).toUInt16).toNat =
    base.val + (m.reg Registers.first).toNat

variable {m m' : Machine} {o : Outcome}

theorem countDown_mem {t : Int} (h : 0 ≤ t ∧ t ≤ 255) :
    0 ≤ Timers.countDown t ∧ Timers.countDown t ≤ 255 := by
  rw [Timers.countDown]
  split
  · omega
  · exact h

namespace Coherent

/-! ### Steps -/

theorem executes (hm : Coherent m) (hwait : m.processor.waiting = none) {i : Instruction}
    (hpc : m.processor.pc.toNat ≤ 0xFFE) (h : Executes m.advance i o m') : Coherent m' := by
  have hnext : (m.processor.pc + 2).toNat = m.processor.pc.toNat + 2 :=
    toNat_counter_add_two (by omega)
  have hback : m.processor.pc + 2 - 2 = m.processor.pc := UInt16.add_sub_cancel _ _
  refine ⟨?_, h.isStandard hm.isStandard, ?_, h.delay_mem hm.delay_mem, h.sound_mem hm.sound_mem,
    ?_, ?_⟩
  · have hadvance : m.advance.processor.pc.toNat ≤ 0x1000 := by
      show (m.processor.pc + 2).toNat ≤ _
      omega
    -- the counter is bounded outright, or it is back at the word, which was in memory
    rcases h.counter_le hadvance fun a ha => (hm.entry_mem a ha).2 with hle | heq
    · exact hle
    · rw [heq]
      show (m.processor.pc + 2 - 2).toNat ≤ _
      rw [hback]
      omega
  · intro a ha
    rcases h.mem_entries ha with rfl | hmem
    · show 2 ≤ (m.processor.pc + 2).toNat ∧ (m.processor.pc + 2).toNat ≤ 0x1000
      omega
    · exact hm.entry_mem a hmem
  · intro x hx
    obtain ⟨-, -, rfl⟩ := h.wait hwait hx
    refine ⟨Nat.le_refl _, ?_⟩
    show (m.processor.pc + 2 - 2).toNat ≤ _
    rw [hback]
    exact hpc
  · rw [h.keypad_eq]
    exact hm.lastPress_eq_none_iff

/-- The end of a wait keeps a machine coherent: the counter moves on from a word in memory. -/
theorem endWait (hm : Coherent m) {x : Register} (hx : m.processor.waiting = some x) (key : Key) :
    Coherent (m.endWait x key) := by
  have hpc := (hm.wait x hx).2
  refine { hm with counter_le := ?_, wait := fun y hy => ?_ }
  · show (m.processor.pc + 2).toNat ≤ _
    rw [toNat_counter_add_two (by omega)]
    omega
  · cases hy

/-- **A step keeps a machine coherent.** -/
theorem step (hm : Coherent m) (h : m.step = .ok (o, m')) : Coherent m' := by
  rcases step_eq_ok_iff.mp h with ⟨x, hx, hresume⟩ | ⟨hwait, w, hw, hrule⟩
  · rw [resume] at hresume
    split at hresume
    · next key hkey =>
      cases hresume
      exact hm.endWait hx key
    · cases hresume
      exact hm
  · exact hm.executes hwait (nextWord?_eq_some_iff.mp hw).1 hrule

/-! ### What a host does -/

theorem tick (hm : Coherent m) : Coherent m.tick :=
  { hm with delay_mem := countDown_mem hm.delay_mem, sound_mem := countDown_mem hm.sound_mem }

theorem withMemory (hm : Coherent m) (memory : Memory) : Coherent { m with memory } := { hm with }

theorem markRefreshed (hm : Coherent m) : Coherent m.markRefreshed := { hm with }

theorem update (hm : Coherent m) (key : Key) (hold : Bool) :
    Coherent { m with keypad := m.keypad.update key hold } := by
  by_cases hpress : hold = true ∧ m.keypad.isHeld key = false
  · obtain ⟨hcount, hlast⟩ := Keypad.update_of_press hpress
    refine { hm with wait := fun x hx => ⟨?_, (hm.wait x hx).2⟩, lastPress_eq_none_iff := ?_ }
    · have := (hm.wait x hx).1
      show m.processor.pressMark ≤ (m.keypad.update key hold).presses
      omega
    · show (m.keypad.update key hold).lastPress = none ↔ (m.keypad.update key hold).presses = 0
      rw [hcount, hlast]
      simp
  · obtain ⟨hcount, hlast⟩ := Keypad.update_of_not_press hpress
    refine { hm with wait := fun x hx => ⟨?_, (hm.wait x hx).2⟩, lastPress_eq_none_iff := ?_ }
    · show m.processor.pressMark ≤ (m.keypad.update key hold).presses
      rw [hcount]
      exact (hm.wait x hx).1
    · show (m.keypad.update key hold).lastPress = none ↔ (m.keypad.update key hold).presses = 0
      rw [hcount, hlast]
      exact hm.lastPress_eq_none_iff

theorem fresh (random : Twister) : Coherent (Machine.fresh random) where
  counter_le := by
    show Processor.fresh.pc.toNat ≤ 0x10FE
    decide
  isStandard := ⟨rfl, Nat.zero_le _⟩
  entry_mem := fun a ha => nomatch ha
  delay_mem := ⟨Int.le_refl 0, Int.le.intro 255 rfl⟩
  sound_mem := ⟨Int.le_refl 0, Int.le.intro 255 rfl⟩
  wait := fun x hx => nomatch hx
  lastPress_eq_none_iff := ⟨fun _ => rfl, fun _ => rfl⟩

/-! ### Bounds -/

/-- In a coherent machine every number has its width, and the sums that make a counter are those of
natural numbers. -/
theorem bounded (hm : Coherent m) : Bounded m where
  bytes := ⟨m.memory.bytes.length_toList, fun b _ => Nat.le_of_lt_succ b.toNat_lt⟩
  cells := ⟨m.display.cells.length_toList, fun lit _ => Bool.toNat_le lit⟩
  registers := ⟨m.processor.v.values.length_toList, fun b _ => Nat.le_of_lt_succ b.toNat_lt⟩
  index := Nat.le_of_lt_succ m.processor.i.toNat_lt
  waiting := fun x _ => Nat.le_of_lt_succ x.isLt
  next := toNat_counter_add_two hm.counter_le
  skip := by
    have hpc := hm.counter_le
    have hnext := toNat_counter_add_two hpc
    rw [UInt16.toNat_add, hnext]
    show (m.processor.pc.toNat + 2 + 2) % 65536 = _
    omega
  indexed := fun base => toNat_ofAddress_add base _

end Coherent

end Machine

end Chip8
