import Chip8.Proofs.Execution.Effects

/-!
# The next instruction

Where the counter stands after a step can be read off the word that was carried out and the machine
before the step.  A step moves the counter past the word first, and then jumps, calls, returns and
skips move it again, and a wait moves it back; what comes of it is the same as if each word had set
the counter once, and no sum on the way reaches beyond sixteen bits.

* `Machine.Skips`: the words that skip the next one, by their digits and by what the registers and
  keys are before the step.
* `Word.Steers`: the words that set the counter themselves.
* `Machine.Proceeds m w m'`: where the counter of `m'` stands after `m` has carried out `w`.
* `Executes.proceeds`: **an instruction leaves the counter where its word says.**
* `next_instruction`: **so does every step that fetches a word and succeeds.**
-/

namespace Chip8

/-- The words `1nnn`, `2nnn`, `Bnnn`, `00EE` and `Fx0A`. -/
def Word.Steers (w : UInt16) : Prop :=
  w.toNat / 4096 = 0x1 ∨ w.toNat / 4096 = 0x2 ∨ w.toNat / 4096 = 0xB ∨ w = 0x00EE ∨
    w.toNat / 4096 = 0xF ∧ w.toNat % 256 = 0x0A

namespace Machine

variable {m m' : Machine} {i : Instruction} {o : Outcome} {w : UInt16} {condition : Condition}

/-- The words `3xkk`, `4xkk`, `5xy0`, `9xy0`, `Ex9E` and `ExA1`, where their condition holds. -/
def Skips (m : Machine) (w : UInt16) : Prop :=
  w.toNat / 4096 = 0x3 ∧ (m.reg (Word.x w)).toNat = w.toNat % 256 ∨
  w.toNat / 4096 = 0x4 ∧ (m.reg (Word.x w)).toNat ≠ w.toNat % 256 ∨
  w.toNat / 4096 = 0x5 ∧ w.toNat % 16 = 0 ∧ m.reg (Word.x w) = m.reg (Word.y w) ∨
  w.toNat / 4096 = 0x9 ∧ w.toNat % 16 = 0 ∧ m.reg (Word.x w) ≠ m.reg (Word.y w) ∨
  w.toNat / 4096 = 0xE ∧ w.toNat % 256 = 0x9E ∧ m.keypad.isHeld (m.keyIn (Word.x w)) = true ∨
  w.toNat / 4096 = 0xE ∧ w.toNat % 256 = 0xA1 ∧ m.keypad.isHeld (m.keyIn (Word.x w)) = false

/-- The counter of the second machine stands where a word puts it that the first one has carried
out.  These are equations between numbers, so no sum has lost a carry. -/
structure Proceeds (m : Machine) (w : UInt16) (m' : Machine) : Prop where
  /-- The words `1nnn` and `2nnn`. -/
  target : w.toNat / 4096 = 0x1 ∨ w.toNat / 4096 = 0x2 →
    m'.processor.pc.toNat = w.toNat % 4096
  /-- The words `Bnnn`. -/
  indexed : w.toNat / 4096 = 0xB →
    m'.processor.pc.toNat = w.toNat % 4096 + (m.reg Registers.first).toNat
  /-- The counter is the entry that is taken off the stack. -/
  returned : w = 0x00EE →
    m.processor.stack.entries = m'.processor.pc :: m'.processor.stack.entries
  /-- The words `Fx0A`. -/
  stays : w.toNat / 4096 = 0xF ∧ w.toNat % 256 = 0x0A →
    m'.processor.pc.toNat = m.processor.pc.toNat
  skipped : m.Skips w → m'.processor.pc.toNat = m.processor.pc.toNat + 4
  passed : ¬ Word.Steers w → ¬ m.Skips w → m'.processor.pc.toNat = m.processor.pc.toNat + 2

/-! ### Skips -/

theorem skips_iff_holds (hdigits : (Instruction.skip condition).HasDigits w) :
    m.Skips w ↔ m.holds condition = true := by
  cases condition with
  | equalByte x byte =>
    obtain ⟨hgroup, rfl, rfl⟩ := hdigits
    simp [Skips, hgroup, holds, ← UInt8.toNat_inj, Instruction.toNat_kk]
  | unequalByte x byte =>
    obtain ⟨hgroup, rfl, rfl⟩ := hdigits
    simp [Skips, hgroup, holds, ← UInt8.toNat_inj, Instruction.toNat_kk]
  | equalRegister x y =>
    obtain ⟨hgroup, hlast, rfl, rfl⟩ := hdigits
    simp [Skips, hgroup, hlast, holds]
  | unequalRegister x y =>
    obtain ⟨hgroup, hlast, rfl, rfl⟩ := hdigits
    simp [Skips, hgroup, hlast, holds]
  | keyHeld x =>
    obtain ⟨hgroup, hlow, rfl⟩ := hdigits
    simp [Skips, hgroup, hlow, holds]
  | keyFree x =>
    obtain ⟨hgroup, hlow, rfl⟩ := hdigits
    simp [Skips, hgroup, hlow, holds]

theorem exists_condition_of_skips (h : m.Skips w) :
    ∃ condition, (Instruction.skip condition).HasDigits w := by
  rcases h with ⟨hgroup, -⟩ | ⟨hgroup, -⟩ | ⟨hgroup, hlast, -⟩ | ⟨hgroup, hlast, -⟩ |
    ⟨hgroup, hlow, -⟩ | ⟨hgroup, hlow, -⟩
  · exact ⟨.equalByte _ _, hgroup, rfl, rfl⟩
  · exact ⟨.unequalByte _ _, hgroup, rfl, rfl⟩
  · exact ⟨.equalRegister _ _, hgroup, hlast, rfl, rfl⟩
  · exact ⟨.unequalRegister _ _, hgroup, hlast, rfl, rfl⟩
  · exact ⟨.keyHeld _, hgroup, hlow, rfl⟩
  · exact ⟨.keyFree _, hgroup, hlow, rfl⟩

/-- A word without a meaning, or of the first group and not a return, neither sets the counter nor
skips. -/
theorem passed_of_meaningless
    (h : Word.IsUnassigned w ∨ w.toNat / 4096 = 0x0 ∧ w ≠ 0x00EE) :
    ¬ Word.Steers w ∧ ¬ m.Skips w := by
  simp only [Word.IsUnassigned, List.mem_cons, List.not_mem_nil, or_false, not_or] at h
  constructor
  · rintro (hw | hw | hw | rfl | hw)
    · omega
    · omega
    · omega
    · revert h
      decide
    · omega
  · rintro (⟨hw, -⟩ | ⟨hw, -⟩ | ⟨hw, hlast, -⟩ | ⟨hw, hlast, -⟩ | ⟨hw, hlow, -⟩ | ⟨hw, hlow, -⟩)
    all_goals omega

/-! ### The counter after an instruction -/

namespace Executes

theorem counter_eq (h : Executes m i o m') (hdigits : i.HasDigits w) (hsteers : ¬ Word.Steers w)
    (hskips : ¬ m.Skips w) : m'.processor.pc = m.processor.pc := by
  cases h with
  | ret hentries => exact absurd (.inr (.inr (.inr (.inl hdigits)))) hsteers
  | jump target => exact absurd (.inl hdigits.1) hsteers
  | call target hroom => exact absurd (.inr (.inl hdigits.1)) hsteers
  | jumpIndexed base => exact absurd (.inr (.inr (.inl hdigits.1))) hsteers
  | skipTaken hholds => exact absurd ((skips_iff_holds hdigits).mpr hholds) hskips
  | awaitKey x => exact absurd (.inr (.inr (.inr (.inr ⟨hdigits.1, hdigits.2.1⟩)))) hsteers
  | _ => rfl

theorem counter_of_skips (h : Executes m (.decode w) o m') (hskips : m.Skips w) :
    m'.processor.pc = m.processor.pc + 2 := by
  obtain ⟨condition, hdigits⟩ := exists_condition_of_skips hskips
  have hholds := (skips_iff_holds hdigits).mp hskips
  rw [hdigits.decode_eq] at h
  cases h with
  | skipTaken _ => rfl
  | skipPassed hpassed => cases hholds.symm.trans hpassed

theorem counter_of_target (h : Executes m (.decode w) o m')
    (hgroup : w.toNat / 4096 = 0x1 ∨ w.toNat / 4096 = 0x2) :
    m'.processor.pc = Word.ofAddress (Word.nnn w) := by
  rcases hgroup with hgroup | hgroup
  · rw [Instruction.decode_eq_iff (i := .jump (Word.nnn w)) |>.mpr ⟨hgroup, rfl⟩] at h
    cases h
    rfl
  · rw [Instruction.decode_eq_call_iff.mpr ⟨hgroup, rfl⟩] at h
    cases h
    rfl

theorem counter_of_indexed (h : Executes m (.decode w) o m') (hgroup : w.toNat / 4096 = 0xB) :
    m'.processor.pc = Word.ofAddress (Word.nnn w) + (m.reg Registers.first).toUInt16 := by
  rw [Instruction.decode_eq_iff (i := .jumpIndexed (Word.nnn w)) |>.mpr ⟨hgroup, rfl⟩] at h
  cases h
  rfl

theorem entries_of_returned (h : Executes m (.decode w) o m') (hw : w = 0x00EE) :
    m.processor.stack.entries = m'.processor.pc :: m'.processor.stack.entries := by
  rw [Instruction.decode_eq_ret_iff.mpr hw] at h
  cases h with
  | ret hentries => exact hentries

theorem counter_of_stays (h : Executes m (.decode w) o m')
    (hdigits : w.toNat / 4096 = 0xF ∧ w.toNat % 256 = 0x0A) :
    m'.processor.pc = m.processor.pc - 2 := by
  rw [Instruction.decode_eq_awaitKey_iff.mpr ⟨hdigits.1, hdigits.2, rfl⟩] at h
  cases h
  rfl

/-- **An instruction leaves the counter where its word says**, if the word was fetched. -/
theorem proceeds (h : Executes m.advance (.decode w) o m') (hpc : m.processor.pc.toNat ≤ 0xFFE) :
    m.Proceeds w m' := by
  have hadvance : (m.processor.pc + 2).toNat = m.processor.pc.toNat + 2 :=
    toNat_counter_add_two (by omega)
  refine ⟨fun hgroup => ?_, fun hgroup => ?_, h.entries_of_returned, fun hdigits => ?_,
    fun hskips => ?_, fun hsteers hskips => ?_⟩
  · rw [h.counter_of_target hgroup, toNat_ofAddress]
    rfl
  · rw [h.counter_of_indexed hgroup, toNat_ofAddress_add]
    rfl
  · have hback : m.processor.pc + 2 - 2 = m.processor.pc := UInt16.add_sub_cancel _ _
    exact congrArg UInt16.toNat ((h.counter_of_stays hdigits).trans hback)
  · have htwice : m.advance.advance.processor.pc.toNat = m.advance.processor.pc.toNat + 2 :=
      toNat_counter_add_two (by show (m.processor.pc + 2).toNat ≤ _; omega)
    rw [h.counter_of_skips hskips]
    show m.advance.advance.processor.pc.toNat = _
    rw [htwice]
    show (m.processor.pc + 2).toNat + 2 = _
    omega
  · rw [h.counter_eq (Instruction.hasDigits_decode w) hsteers hskips]
    exact hadvance

end Executes

/-- **The next instruction.**  After a step that does not wait and that succeeds, the counter stands
at the target of a jump or a call, at the entry on top of the stack for a return, and at the same
word for one that waits for a key.  A skip whose condition held moves it by four, and every other
word, those without a meaning among them, by two. -/
theorem next_instruction (hwait : m.processor.waiting = none) (h : m.step = .ok (o, m')) :
    ∃ w, m.nextWord? = some w ∧ m.Proceeds w m' ∧
      (Word.IsUnassigned w ∨ w.toNat / 4096 = 0x0 ∧ w ≠ 0x00EE →
        m'.processor.pc.toNat = m.processor.pc.toNat + 2) := by
  rcases step_eq_ok_iff.mp h with ⟨x, hx, -⟩ | ⟨-, w, hw, hrule⟩
  · cases hwait.symm.trans hx
  · have hproceeds := hrule.proceeds (nextWord?_eq_some_iff.mp hw).1
    refine ⟨w, hw, hproceeds, fun hmeaningless => ?_⟩
    obtain ⟨hsteers, hskips⟩ := passed_of_meaningless (m := m) hmeaningless
    exact hproceeds.passed hsteers hskips

/-- A new machine at the last address that a word fits at. -/
def atLastWord (w : UInt16) : Machine :=
  { (fresh (Twister.seeded 0)).setCounter 0xFFE with
    memory := Memory.fresh.overwrite 0xFFE (Word.bytes w) }

/-- A skip at the end of memory moves the counter beyond it, and an indexed jump may do so too. -/
theorem next_instruction_atLastWord :
    (∃ m', (atLastWord 0x3000).step = .ok (.executed, m') ∧ m'.processor.pc.toNat = 0x1002) ∧
    ∃ m', ((atLastWord 0xBFFF).setReg Registers.first 0xFF).step = .ok (.executed, m') ∧
      m'.processor.pc.toNat = 0x10FE := by
  have hnext (w : UInt16) : (atLastWord w).nextWord? = some w :=
    nextWord?_of_overwrite (m := (fresh (Twister.seeded 0)).setCounter 0xFFE) rfl (by decide) w
  constructor
  · have hrule : Executes (atLastWord 0x3000).advance (.skip (.equalByte Registers.first 0))
        .executed _ := .skipTaken rfl
    have hstep := step_of_hasDigits rfl (hnext 0x3000) hrule ⟨by decide, by decide, by decide⟩
    obtain ⟨w, hw, hproceeds, -⟩ := next_instruction rfl hstep
    obtain rfl := Option.some.inj ((hnext 0x3000).symm.trans hw)
    exact ⟨_, hstep, hproceeds.skipped (.inl ⟨by decide, by decide⟩)⟩
  · have hw : ((atLastWord 0xBFFF).setReg Registers.first 0xFF).nextWord? = some 0xBFFF :=
      hnext 0xBFFF
    have hrule := Executes.jumpIndexed
      (m := ((atLastWord 0xBFFF).setReg Registers.first 0xFF).advance) (Word.nnn 0xBFFF)
    have hstep := step_of_hasDigits rfl hw hrule ⟨by decide, by decide⟩
    obtain ⟨w, hw', hproceeds, -⟩ := next_instruction rfl hstep
    obtain rfl := Option.some.inj (hw.symm.trans hw')
    exact ⟨_, hstep, hproceeds.indexed (by decide)⟩

end Machine

end Chip8
