import Chip8.Proofs.Emulator.Operation
import Chip8.Proofs.Execution.Coherence

/-!
# What holds of every emulator

Whatever a host asks of a new emulator, in whatever order and whether it succeeds or not, the
machine stays within its bounds: `coherent_after`.  The only operation that is left out resets the
keypad alone, because it forgets presses that a wait has counted.
-/

namespace Chip8

namespace Emulator

/-- The machine is coherent, and no instruction waits in an emulator that is halted. -/
structure Coherent (e : Emulator) : Prop where
  machine : e.machine.Coherent
  halted : e.halt ≠ none → e.machine.processor.waiting = none

variable {e : Emulator}

namespace Coherent

theorem fresh (config : Config) (entropy : Int) : Coherent (Emulator.fresh config entropy) where
  machine := Machine.Coherent.fresh _
  halted := fun h => absurd rfl h

/-- **A step keeps an emulator coherent.**  It halts only where the machine does not wait. -/
theorem step (he : Coherent e) : Coherent e.step.emulator := by
  cases hhalt : e.halt with
  | some f =>
    rw [step_of_halted hhalt]
    exact he
  | none =>
    cases h : e.machine.step with
    | error f =>
      rw [step_of_fault hhalt h]
      exact { he with halted := fun _ => (Machine.step_eq_error_iff.mp h).1 }
    | ok result =>
      rw [step_of_ok hhalt h]
      exact ⟨he.machine.step h, fun hne => absurd hhalt hne⟩

theorem reset (e : Emulator) (entropy : Int) : Coherent (e.reset entropy) :=
  fresh e.config entropy

theorem steady : Steady Coherent where
  step := step
  tick := fun he => { he with machine := he.machine.tick }
  frames := fun _ he => { he with }
  carry := fun _ he => { he with }
  memory := fun memory he => { he with machine := he.machine.withMemory memory }
  update := fun key hold he => { he with machine := he.machine.update key hold }
  refreshed := fun he => { he with machine := he.machine.markRefreshed }

end Coherent

/-- **Every emulator that a host can get is coherent, and so its machine is bounded.** -/
theorem coherent_after (config : Config) (entropy : Int) (operations : List Operation)
    (hkeypad : .resetKeypad ∉ operations) :
    ((fresh config entropy).after operations).Coherent ∧
      ((fresh config entropy).after operations).machine.Bounded := by
  have hcoherent : ((fresh config entropy).after operations).Coherent :=
    Coherent.steady.after (fun _ e entropy _ => Coherent.reset e entropy)
      (fun hmem => absurd hmem hkeypad) (Coherent.fresh config entropy)
  exact ⟨hcoherent, hcoherent.machine.bounded⟩

/-- A program that calls itself until the stack is full, and a host that goes on regardless. -/
theorem coherent_after_recursion :
    ((fresh {} 0).after [.load [0x22, 0x00] true 0, .run 20, .pressKey (.index 16), .step,
      .writeBytes 0x0FFF [-1]]).Coherent :=
  (coherent_after {} 0 _ (by simp)).1

end Emulator

end Chip8
