import Chip8.Proofs.Execution.Rules

/-!
# What instructions change

An instruction changes few parts of a machine.  The lemmas here go through the rules once for each
part, and say what an instruction can make of it: of the counter (`Executes.counter_le`), of the
stack (`Executes.isStandard`, `Executes.mem_entries`, `Executes.stack_eq`), of the timers, of the
keypad, and of the wait (`Executes.wait`).
-/

namespace Chip8

/-! ### Updates of a key -/

namespace Keypad

theorem update_of_press {pad : Keypad} {key : Key} {hold : Bool}
    (h : hold = true ∧ pad.isHeld key = false) :
    (pad.update key hold).presses = pad.presses + 1 ∧
      (pad.update key hold).lastPress = some key := by
  have hpress : (hold && !pad.held[key]) = true := by
    rw [h.1, show pad.held[key] = false from h.2]
    rfl
  rw [update, if_pos hpress]
  exact ⟨rfl, rfl⟩

theorem update_of_not_press {pad : Keypad} {key : Key} {hold : Bool}
    (h : ¬ (hold = true ∧ pad.isHeld key = false)) :
    (pad.update key hold).presses = pad.presses ∧
      (pad.update key hold).lastPress = pad.lastPress := by
  have hpress : ¬ (hold && !pad.held[key]) = true := by
    intro hp
    rw [Bool.and_eq_true, Bool.not_eq_true'] at hp
    exact h hp
  rw [update, if_neg hpress]
  exact ⟨rfl, rfl⟩

/-- An update puts its key in front of the presses that come later, if it is a press transition. -/
theorem presses_and_lastPress_update (pad : Keypad) (key : Key) (hold : Bool) (later : List Key) :
    (pad.update key hold).presses + later.length = pad.presses +
        (if hold = true ∧ pad.isHeld key = false then key :: later else later).length ∧
      later.getLast?.or (pad.update key hold).lastPress =
        (if hold = true ∧ pad.isHeld key = false then key :: later else later).getLast?.or
          pad.lastPress := by
  split
  · next hpress =>
    obtain ⟨hcount, hlast⟩ := update_of_press hpress
    rw [hcount, hlast, List.length_cons, List.getLast?_cons]
    refine ⟨by omega, ?_⟩
    cases later.getLast? with
    | none => rfl
    | some last => rfl
  · next hpress =>
    obtain ⟨hcount, hlast⟩ := update_of_not_press hpress
    rw [hcount, hlast]
    exact ⟨rfl, rfl⟩

end Keypad

namespace Machine

variable {m m' : Machine} {i : Instruction} {o : Outcome}

/-! ### Counters -/

theorem toNat_counter_add_two (h : m.processor.pc.toNat ≤ 0x10FE) :
    (m.processor.pc + 2).toNat = m.processor.pc.toNat + 2 := by
  rw [UInt16.toNat_add]
  show (m.processor.pc.toNat + 2) % 65536 = _
  omega

theorem toNat_ofAddress (a : Address) : (Word.ofAddress a).toNat = a.val := by
  have := a.isLt
  rw [Word.ofAddress, UInt16.toNat_ofNat']
  omega

theorem toNat_ofAddress_le (a : Address) : (Word.ofAddress a).toNat ≤ 0x10FE := by
  have := a.isLt
  rw [toNat_ofAddress]
  omega

theorem toNat_ofAddress_add (a : Address) (b : UInt8) :
    (Word.ofAddress a + b.toUInt16).toNat = a.val + b.toNat := by
  have := a.isLt
  have := b.toNat_lt
  rw [UInt16.toNat_add, toNat_ofAddress, UInt8.toNat_toUInt16]
  omega

/-- An instruction leaves the counter in bounds, if the word was fetched and the entries are in
bounds. -/
theorem Executes.counter_le (h : Executes m i o m') (hpc : m.processor.pc.toNat ≤ 0x1000)
    (hentries : ∀ a ∈ m.processor.stack.entries, a.toNat ≤ 0x1000) :
    m'.processor.pc.toNat ≤ 0x10FE ∨ m'.processor.pc = m.processor.pc - 2 := by
  cases h with
  | ret h =>
    refine .inl (Nat.le_trans (hentries _ ?_) (by decide))
    rw [h]
    exact List.mem_cons_self
  | jump target => exact .inl (toNat_ofAddress_le target)
  | call target hdepth => exact .inl (toNat_ofAddress_le target)
  | jumpIndexed base =>
    refine .inl ?_
    have := base.isLt
    have := (m.reg Registers.first).toNat_lt
    show (Word.ofAddress base + (m.reg Registers.first).toUInt16).toNat ≤ _
    rw [toNat_ofAddress_add]
    omega
  | skipTaken hholds =>
    refine .inl ?_
    show (m.processor.pc + 2).toNat ≤ _
    rw [toNat_counter_add_two (by omega)]
    omega
  | awaitKey x => exact .inr rfl
  | _ => exact .inl (Nat.le_trans hpc (by decide))

/-! ### The stack -/

theorem Executes.isStandard (h : Executes m i o m') (hstack : m.processor.stack.IsStandard) :
    m'.processor.stack.IsStandard := by
  have hdepth := hstack.depth_le
  cases h with
  | @ret address rest hentries =>
    refine ⟨hstack.capacity_eq, ?_⟩
    rw [CallStack.depth, hentries, List.length_cons] at hdepth
    show rest.length ≤ 16
    omega
  | call target hroom =>
    refine ⟨hstack.capacity_eq, ?_⟩
    rw [hstack.capacity_eq, CallStack.standardCapacity, CallStack.depth] at hroom
    show List.length (m.processor.pc :: m.processor.stack.entries) ≤ 16
    rw [List.length_cons]
    omega
  | _ => exact hstack

theorem Executes.mem_entries (h : Executes m i o m') {a : UInt16}
    (ha : a ∈ m'.processor.stack.entries) :
    a = m.processor.pc ∨ a ∈ m.processor.stack.entries := by
  cases h with
  | ret hentries => exact .inr (hentries ▸ List.mem_cons_of_mem _ ha)
  | call target hroom => exact List.mem_cons.mp ha
  | _ => exact .inr ha

theorem Executes.stack_eq (h : Executes m i o m') (hcall : ∀ target, i ≠ .call target)
    (hret : i ≠ .ret) : m'.processor.stack = m.processor.stack := by
  cases h with
  | ret hentries => exact absurd rfl hret
  | call target hroom => exact absurd rfl (hcall target)
  | _ => rfl

theorem resume_stack (m : Machine) (x : Register) :
    (m.resume x).2.processor.stack = m.processor.stack := by
  rw [resume]
  split
  · rfl
  · rfl

theorem isStandard_of_step (h : m.step = .ok (o, m')) (hstack : m.processor.stack.IsStandard) :
    m'.processor.stack.IsStandard := by
  rcases step_eq_ok_iff.mp h with ⟨x, -, hresume⟩ | ⟨-, w, -, hrule⟩
  · have hsame := resume_stack m x
    rw [hresume] at hsame
    rw [hsame]
    exact hstack
  · exact hrule.isStandard hstack

/-! ### Timers, keys and waits -/

theorem byte_mem (b : UInt8) : 0 ≤ (b.toNat : Int) ∧ (b.toNat : Int) ≤ 255 := by
  have := b.toNat_lt
  omega

theorem Executes.delay_mem (h : Executes m i o m')
    (hdelay : 0 ≤ m.timers.delay ∧ m.timers.delay ≤ 255) :
    0 ≤ m'.timers.delay ∧ m'.timers.delay ≤ 255 := by
  cases h with
  | setDelay x => exact byte_mem (m.reg x)
  | _ => exact hdelay

theorem Executes.sound_mem (h : Executes m i o m')
    (hsound : 0 ≤ m.timers.sound ∧ m.timers.sound ≤ 255) :
    0 ≤ m'.timers.sound ∧ m'.timers.sound ≤ 255 := by
  cases h with
  | setSound x => exact byte_mem (m.reg x)
  | _ => exact hsound

theorem Executes.keypad_eq (h : Executes m i o m') : m'.keypad = m.keypad := by
  cases h <;> rfl

/-- The only way into a wait is an instruction that begins one, where the counter goes back. -/
theorem Executes.wait (h : Executes m i o m') (hwait : m.processor.waiting = none) {x : Register}
    (hx : m'.processor.waiting = some x) :
    i = .awaitKey x ∧ o = .awaitingKey ∧ m' = m.beginWait x := by
  cases h with
  | awaitKey y => cases hx; exact ⟨rfl, rfl, rfl⟩
  | _ => cases hwait.symm.trans hx

theorem Executes.eq_beginWait (h : Executes m i .awaitingKey m') :
    ∃ x, i = .awaitKey x ∧ m' = m.beginWait x := by
  cases h with
  | awaitKey x => exact ⟨x, rfl, rfl⟩

end Machine

end Chip8
