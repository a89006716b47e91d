import Chip8.Proofs.Execution.Effects
import Chip8.Proofs.Memory.Blocks

/-!
# The footprint of a step

Which parts of a machine a step may change can be read off the word that it carries out.  Every
other part is as it was: a store writes its block and nothing beside it, an index that stores and
loads work from stays where it is, and of the registers only those change that the word names.

* `Word.Writes`: the registers that a word may change.
* `Machine.Footprint w m m'`: no part of `m` but those that `w` may change differs in `m'`.
* `Executes.footprint`: **an instruction stays within the footprint of its word.**
* `step_footprint`: **so does a step, and one that waits changes nothing or delivers a key.**
-/

namespace Chip8

/-- The registers that a word may change, by its digits. -/
inductive Word.Writes (w : UInt16) : Register → Prop
  /-- The words `6xkk` and `7xkk`. -/
  | byte (hgroup : w.toNat / 4096 = 0x6 ∨ w.toNat / 4096 = 0x7) : Writes w (Word.x w)
  /-- The words `8xy0` to `8xy7` and `8xyE`. -/
  | result (hgroup : w.toNat / 4096 = 0x8) (hlast : w.toNat % 16 ≤ 7 ∨ w.toNat % 16 = 0xE) :
      Writes w (Word.x w)
  /-- The words `8xy4` to `8xy7` and `8xyE`. -/
  | flag (hgroup : w.toNat / 4096 = 0x8)
      (hlast : 4 ≤ w.toNat % 16 ∧ w.toNat % 16 ≤ 7 ∨ w.toNat % 16 = 0xE) :
      Writes w Registers.flag
  /-- The words `Cxkk`. -/
  | random (hgroup : w.toNat / 4096 = 0xC) : Writes w (Word.x w)
  /-- The words `Dxyn`. -/
  | collision (hgroup : w.toNat / 4096 = 0xD) : Writes w Registers.flag
  /-- The words `Fx07`. -/
  | delay (hgroup : w.toNat / 4096 = 0xF) (hlow : w.toNat % 256 = 0x07) : Writes w (Word.x w)
  /-- The words `Fx65`. -/
  | restored (hgroup : w.toNat / 4096 = 0xF) (hlow : w.toNat % 256 = 0x65) {r : Register}
      (hr : r ≤ Word.x w) : Writes w r

/-! ### Registers and memory -/

namespace Registers

theorem get_setFrom (v : Registers) (x : Nat) (bs : List UInt8) (r : Register) :
    (v.setFrom x bs).get r =
      if x ≤ r.val ∧ r.val < x + bs.length then bs.getD (r.val - x) 0 else v.get r := by
  induction bs generalizing v x with
  | nil =>
    have hnone : ¬ (x ≤ r.val ∧ r.val < x + ([] : List UInt8).length) := by
      rw [List.length_nil]
      omega
    rw [if_neg hnone, setFrom]
  | cons b bs ih =>
    have hset : (Registers.mk (v.values.setIfInBounds x b)).get r =
        if x = r.val then b else v.get r := Vector.getElem_setIfInBounds r.isLt
    rw [setFrom, ih, hset, List.length_cons]
    by_cases hlater : x + 1 ≤ r.val ∧ r.val < x + 1 + bs.length
    · have hsub : r.val - x = r.val - (x + 1) + 1 := by omega
      rw [if_pos hlater, if_pos (by omega), hsub, List.getD_cons_succ]
    · rw [if_neg hlater]
      by_cases hfirst : x = r.val
      · rw [if_pos hfirst, if_pos (by omega), hfirst, Nat.sub_self, List.getD_cons_zero]
      · rw [if_neg hfirst, if_neg (by omega)]

end Registers

/-- A byte that a write has changed lies in the block that was written. -/
theorem Memory.mem_block_of_overwrite_ne {m : Memory} {a n i : Nat} {data : List UInt8}
    (hn : data.length = n) (h : (m.overwrite a data).byteAt i ≠ m.byteAt i) :
    a ≤ i ∧ i < a + n := by
  subst hn
  by_contra houtside
  by_cases hi : i < 4096
  · rw [byteAt_overwrite _ _ _ _ hi, if_neg houtside] at h
    exact h rfl
  · rw [byteAt_of_ge _ (by omega), byteAt_of_ge _ (by omega)] at h
    exact h rfl

theorem Arithmetic.nibble_of_flag {operation : Arithmetic} {a b byte : UInt8} {raised : Bool}
    (h : operation.apply a b = (byte, some raised)) :
    4 ≤ operation.nibble ∧ operation.nibble ≤ 7 ∨ operation.nibble = 0xE := by
  cases operation with
  | copy | or | and | xor => cases h
  | add | subtract | shiftRight | subtractFrom => exact .inl (by decide)
  | shiftLeft => exact .inr rfl

theorem Arithmetic.nibble_le (operation : Arithmetic) :
    operation.nibble ≤ 7 ∨ operation.nibble = 0xE := by
  cases operation with
  | shiftLeft => exact .inr rfl
  | _ => exact .inl (by decide)

namespace Machine

variable {m m' : Machine} {i : Instruction} {o : Outcome} {w : UInt16} {r x : Register}

theorem reg_setReg (m : Machine) (x r : Register) (byte : UInt8) :
    (m.setReg x byte).reg r = if r = x then byte else m.reg r :=
  m.processor.v.get_set x r byte

theorem eq_of_reg_setReg_ne {byte : UInt8} (h : (m.setReg x byte).reg r ≠ m.reg r) : r = x := by
  by_contra hne
  rw [reg_setReg, if_neg hne] at h
  exact h rfl

theorem eq_of_reg_setFlag_ne {raised : Bool} (h : (m.setFlag raised).reg r ≠ m.reg r) :
    r = Registers.flag := eq_of_reg_setReg_ne h

/-! ### The parts of a machine, one after the other -/

/-- No part of the first machine differs in the second, except for those that the word may change,
and for the counter. -/
structure Footprint (w : UInt16) (m m' : Machine) : Prop where
  /-- The words `Fx33` and `Fx55` write from the index on. -/
  memory : ∀ a, m'.memory.byteAt a ≠ m.memory.byteAt a →
    w.toNat / 4096 = 0xF ∧ m.processor.i.toNat ≤ a ∧
      (w.toNat % 256 = 0x33 ∧ a < m.processor.i.toNat + 3 ∨
        w.toNat % 256 = 0x55 ∧ a < m.processor.i.toNat + ((Word.x w).val + 1))
  /-- The words `00E0` and `Dxyn` reach the display. -/
  display : m'.display ≠ m.display → w = 0x00E0 ∨ w.toNat / 4096 = 0xD
  /-- The words `2nnn` and `00EE` reach the stack. -/
  stack : m'.processor.stack ≠ m.processor.stack → w.toNat / 4096 = 0x2 ∨ w = 0x00EE
  /-- The words `Annn`, `Fx1E` and `Fx29` set the index. -/
  index : m'.processor.i ≠ m.processor.i → w.toNat / 4096 = 0xA ∨
    w.toNat / 4096 = 0xF ∧ (w.toNat % 256 = 0x1E ∨ w.toNat % 256 = 0x29)
  /-- The words `Fx15` set the delay timer. -/
  delay : m'.timers.delay ≠ m.timers.delay → w.toNat / 4096 = 0xF ∧ w.toNat % 256 = 0x15
  /-- The words `Fx18` set the sound timer. -/
  sound : m'.timers.sound ≠ m.timers.sound → w.toNat / 4096 = 0xF ∧ w.toNat % 256 = 0x18
  /-- The words `Cxkk` draw random bytes. -/
  random : m'.random ≠ m.random → w.toNat / 4096 = 0xC
  keypad : m'.keypad = m.keypad
  /-- The words `Fx0A` begin a wait. -/
  wait : m'.processor.waiting ≠ m.processor.waiting ∨
    m'.processor.pressMark ≠ m.processor.pressMark →
      w.toNat / 4096 = 0xF ∧ w.toNat % 256 = 0x0A
  register : ∀ r, m'.reg r ≠ m.reg r → Word.Writes w r

namespace Executes

theorem memory_changes (h : Executes m i o m') (hw : i.HasDigits w) {a : Nat}
    (hne : m'.memory.byteAt a ≠ m.memory.byteAt a) :
    w.toNat / 4096 = 0xF ∧ m.processor.i.toNat ≤ a ∧
      (w.toNat % 256 = 0x33 ∧ a < m.processor.i.toNat + 3 ∨
        w.toNat % 256 = 0x55 ∧ a < m.processor.i.toNat + ((Word.x w).val + 1)) := by
  cases h with
  | decimal x hrange =>
    obtain ⟨hgroup, hlow, -⟩ := hw
    obtain ⟨hfrom, hto⟩ := Memory.mem_block_of_overwrite_ne (length_decimalDigits _) hne
    exact ⟨hgroup, hfrom, .inl ⟨hlow, hto⟩⟩
  | store x hrange =>
    obtain ⟨hgroup, hlow, rfl⟩ := hw
    obtain ⟨hfrom, hto⟩ := Memory.mem_block_of_overwrite_ne (Registers.length_upTo _ _) hne
    exact ⟨hgroup, hfrom, .inr ⟨hlow, hto⟩⟩
  | _ => exact absurd rfl hne

theorem display_changes (h : Executes m i o m') (hw : i.HasDigits w)
    (hne : m'.display ≠ m.display) : w = 0x00E0 ∨ w.toNat / 4096 = 0xD := by
  cases h with
  | clearScreen => exact .inl hw
  | draw x y rows hrange hsprite hdrawn => exact .inr hw.1
  | _ => exact absurd rfl hne

theorem stack_changes (h : Executes m i o m') (hw : i.HasDigits w)
    (hne : m'.processor.stack ≠ m.processor.stack) : w.toNat / 4096 = 0x2 ∨ w = 0x00EE := by
  cases h with
  | call target hroom => exact .inl hw.1
  | ret hentries => exact .inr hw
  | _ => exact absurd rfl hne

theorem index_changes (h : Executes m i o m') (hw : i.HasDigits w)
    (hne : m'.processor.i ≠ m.processor.i) : w.toNat / 4096 = 0xA ∨
      w.toNat / 4096 = 0xF ∧ (w.toNat % 256 = 0x1E ∨ w.toNat % 256 = 0x29) := by
  cases h with
  | loadIndex target => exact .inl hw.1
  | addIndex x => exact .inr ⟨hw.1, .inl hw.2.1⟩
  | glyph x => exact .inr ⟨hw.1, .inr hw.2.1⟩
  | _ => exact absurd rfl hne

theorem delay_changes (h : Executes m i o m') (hw : i.HasDigits w)
    (hne : m'.timers.delay ≠ m.timers.delay) :
    w.toNat / 4096 = 0xF ∧ w.toNat % 256 = 0x15 := by
  cases h with
  | setDelay x => exact ⟨hw.1, hw.2.1⟩
  | _ => exact absurd rfl hne

theorem sound_changes (h : Executes m i o m') (hw : i.HasDigits w)
    (hne : m'.timers.sound ≠ m.timers.sound) :
    w.toNat / 4096 = 0xF ∧ w.toNat % 256 = 0x18 := by
  cases h with
  | setSound x => exact ⟨hw.1, hw.2.1⟩
  | _ => exact absurd rfl hne

theorem random_changes (h : Executes m i o m') (hw : i.HasDigits w)
    (hne : m'.random ≠ m.random) : w.toNat / 4096 = 0xC := by
  cases h with
  | random x mask => exact hw.1
  | _ => exact absurd rfl hne

theorem wait_changes (h : Executes m i o m') (hw : i.HasDigits w)
    (hne : m'.processor.waiting ≠ m.processor.waiting ∨
      m'.processor.pressMark ≠ m.processor.pressMark) :
    w.toNat / 4096 = 0xF ∧ w.toNat % 256 = 0x0A := by
  cases h with
  | awaitKey x => exact ⟨hw.1, hw.2.1⟩
  | _ => exact absurd hne (not_or.mpr ⟨not_not_intro rfl, not_not_intro rfl⟩)

theorem register_changes (h : Executes m i o m') (hw : i.HasDigits w)
    (hne : m'.reg r ≠ m.reg r) : Word.Writes w r := by
  cases h with
  | loadByte x byte =>
    obtain ⟨hgroup, rfl, -⟩ := hw
    obtain rfl := eq_of_reg_setReg_ne hne
    exact .byte (.inl hgroup)
  | addByte x byte =>
    obtain ⟨hgroup, rfl, -⟩ := hw
    obtain rfl := eq_of_reg_setReg_ne hne
    exact .byte (.inr hgroup)
  | @combine operation x y byte happly =>
    obtain ⟨hgroup, hlast, rfl, -⟩ := hw
    obtain rfl := eq_of_reg_setReg_ne hne
    exact .result hgroup (hlast ▸ operation.nibble_le)
  | @combineFlag operation x y byte raised happly =>
    obtain ⟨hgroup, hlast, rfl, -⟩ := hw
    by_cases hflag : r = Registers.flag
    · subst hflag
      exact .flag hgroup (hlast ▸ Arithmetic.nibble_of_flag happly)
    · -- the flag is written last, over a result that is put into it
      have hresult : ((m.setReg (Word.x w) byte).setFlag raised).reg r =
          (m.setReg (Word.x w) byte).reg r := by
        by_contra hne'
        exact hflag (eq_of_reg_setFlag_ne hne')
      rw [hresult] at hne
      obtain rfl := eq_of_reg_setReg_ne hne
      exact .result hgroup (hlast ▸ operation.nibble_le)
  | random x mask =>
    obtain ⟨hgroup, rfl, -⟩ := hw
    obtain rfl := eq_of_reg_setReg_ne (m := { m with random := m.random.byte.2 }) hne
    exact .random hgroup
  | @draw x y rows sprite drawn hrange hsprite hdrawn =>
    obtain rfl := eq_of_reg_setFlag_ne (m := { m with display := drawn.1 }) hne
    exact .collision hw.1
  | readDelay x =>
    obtain ⟨hgroup, hlow, rfl⟩ := hw
    obtain rfl := eq_of_reg_setReg_ne hne
    exact .delay hgroup hlow
  | restore x hrange =>
    obtain ⟨hgroup, hlow, rfl⟩ := hw
    -- a register beyond the last one named is not reached by the bytes that were read
    refine .restored hgroup hlow ?_
    by_contra hbeyond
    have hlength := m.memory.length_slice m.processor.i.toNat hrange
    have hbeyond' : ¬ r.val ≤ (Word.x w).val := hbeyond
    refine hne ((m.processor.v.get_setFrom 0 _ r).trans (if_neg ?_))
    rw [hlength]
    omega
  | _ => exact absurd rfl hne

/-- **An instruction stays within the footprint of its word.** -/
theorem footprint (h : Executes m i o m') (hw : i.HasDigits w) : Footprint w m m' where
  memory := fun _ => h.memory_changes hw
  display := h.display_changes hw
  stack := h.stack_changes hw
  index := h.index_changes hw
  delay := h.delay_changes hw
  sound := h.sound_changes hw
  random := h.random_changes hw
  keypad := h.keypad_eq
  wait := h.wait_changes hw
  register := fun _ => h.register_changes hw

theorem eq_of_ignored (h : Executes m i .ignored m') : m' = m := by
  cases h with
  | machineCall target => rfl
  | unassigned word => rfl

end Executes

/-! ### Steps -/

theorem Footprint.of_advance (h : Footprint w m.advance m') : Footprint w m m' := { h with }

/-- **A step stays within the footprint of the word that it carries out**, and the only change of a
word that is ignored is that the counter moves past it.  A step of a machine that waits carries out
no word: it changes nothing, or it delivers a key and ends the wait. -/
theorem step_footprint (h : m.step = .ok (o, m')) :
    (m.processor.waiting = none → ∃ w, m.nextWord? = some w ∧ Footprint w m m' ∧
      (o = .ignored → m' = { m with processor := { m.processor with pc := m.processor.pc + 2 } })) ∧
    (∀ x, m.processor.waiting = some x →
      (o = .awaitingKey ∧ m' = m) ∨
      (o = .keyReceived ∧ (∀ r, m'.reg r ≠ m.reg r → r = x) ∧
        m' = { m with processor := { m.processor with
          v := m'.processor.v, waiting := none, pc := m.processor.pc + 2 } })) := by
  rcases step_eq_ok_iff.mp h with ⟨x, hx, hresume⟩ | ⟨hwait, w, hw, hrule⟩
  · refine ⟨fun hnone => absurd (hx.symm.trans hnone) (Option.some_ne_none x), fun y hy => ?_⟩
    obtain rfl : x = y := Option.some.inj (hx.symm.trans hy)
    rw [resume] at hresume
    split at hresume
    · cases hresume
      exact .inr ⟨rfl, fun r hne => eq_of_reg_setReg_ne hne, rfl⟩
    · cases hresume
      exact .inl ⟨rfl, rfl⟩
  · refine ⟨fun _ => ⟨w, hw, ?_, ?_⟩, fun x hx =>
      absurd (hx.symm.trans hwait) (Option.some_ne_none x)⟩
    · exact .of_advance (hrule.footprint (Instruction.hasDigits_decode w))
    · rintro rfl
      exact hrule.eq_of_ignored

/-- A machine at the word `F155` with its index at `300`. -/
def atStore : Machine := (atWord 0xF155).setIndex 0x300

/-- Two registers are stored, and the byte after them stays. -/
theorem step_footprint_atStore : ∃ m', atStore.step = .ok (.executed, m') ∧
    m'.processor.i = 0x300 ∧ m'.memory.byteAt 0x302 = atStore.memory.byteAt 0x302 := by
  have hw : atStore.nextWord? = some 0xF155 := nextWord?_atWord 0xF155
  have hrule := Executes.store (m := atStore.advance) 1 (by decide)
  have hstep := step_of_executes rfl hw hrule
  obtain ⟨w, hw', hfootprint, -⟩ := (step_footprint hstep).1 rfl
  obtain rfl := Option.some.inj (hw.symm.trans hw')
  refine ⟨_, hstep, ?_, ?_⟩
  · by_contra hne
    exact absurd (hfootprint.index hne) (by decide)
  · by_contra hne
    exact absurd (hfootprint.memory _ hne) (by decide)

end Machine

end Chip8
