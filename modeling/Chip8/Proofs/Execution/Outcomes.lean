import Chip8.Proofs.Execution.KeyWait

/-!
# The outcome of a step

What a step reports can be told from the word at its address.  For a word that is fetched, the
outcome is that of its instruction.  A step of a machine that waits fetches nothing; but the word
that began the wait is still there, unless someone has written over it or moved the counter
meanwhile, and the program can do neither while it waits.

* `Instruction.outcome`: what an instruction reports when it is carried out.
* `Machine.WaitsInPlace`: a wait stands at the word that began it.
* `WaitsInPlace.step`: **a step leaves it there.**
* `WaitsInPlace.outcome_of_step`: **a step reports what its word says**, or the end of the wait that
  its word began.
* `WaitsInPlace.outcome_iff`: so each outcome is reported at words of one kind.
-/

namespace Chip8

namespace Instruction

/-- What an instruction reports when it is carried out. -/
def outcome : Instruction → Outcome
  | machineCall _ | unassigned _ => .ignored
  | awaitKey _ => .awaitingKey
  | _ => .executed

variable {i : Instruction}

theorem outcome_eq_ignored_iff :
    i.outcome = .ignored ↔ i.form = .machineCall ∨ i.form = .unassigned := by
  cases i with
  | skip condition => cases condition <;> simp [outcome, form, Condition.form]
  | combine operation x y => cases operation <;> simp [outcome, form, Arithmetic.form]
  | _ => simp [outcome, form]

theorem outcome_eq_awaitingKey_iff : i.outcome = .awaitingKey ↔ ∃ x, i = .awaitKey x := by
  cases i <;> simp [outcome]

theorem outcome_ne_keyReceived (i : Instruction) : i.outcome ≠ .keyReceived := by
  cases i <;> simp [outcome]

end Instruction

namespace Machine

variable {m m' : Machine} {i : Instruction} {o : Outcome} {w : UInt16}

theorem Executes.outcome_eq (h : Executes m i o m') : o = i.outcome := by
  cases h <;> rfl

theorem executes_of_ignored (m : Machine) (h : i.outcome = .ignored) : Executes m i .ignored m := by
  cases i with
  | machineCall target => exact .machineCall target
  | unassigned word => exact .unassigned word
  | _ => cases h

/-- If an instruction waits for a key, then the counter is at the word `Fx0A` that it was fetched
from. -/
def WaitsInPlace (m : Machine) : Prop :=
  ∀ x, m.processor.waiting = some x → ∃ w, m.nextWord? = some w ∧ Instruction.decode w = .awaitKey x

namespace WaitsInPlace

theorem of_not_waiting (hwait : m.processor.waiting = none) : WaitsInPlace m := by
  intro x hx
  cases hwait.symm.trans hx

theorem congr (hm : WaitsInPlace m) (hprocessor : m'.processor = m.processor)
    (hmemory : m'.memory = m.memory) : WaitsInPlace m' := by
  rw [WaitsInPlace, nextWord?, hprocessor, hmemory]
  exact hm

/-- **A step leaves a wait at its word**: it begins one in place, changes nothing, or ends it. -/
theorem step (hm : WaitsInPlace m) (h : m.step = .ok (o, m')) : WaitsInPlace m' := by
  rcases step_eq_ok_iff.mp h with ⟨x, hx, hresume⟩ | ⟨hwait, w, hw, hrule⟩
  · rw [resume] at hresume
    split at hresume
    · cases hresume
      exact of_not_waiting rfl
    · cases hresume
      exact hm
  · intro x hx
    obtain ⟨hdecode, -, rfl⟩ := hrule.wait hwait hx
    rw [beginWait_advance]
    exact ⟨w, hw, hdecode⟩

/-- **A step reports what its word says**, or the end of the wait that its word began. -/
theorem outcome_of_step (hm : WaitsInPlace m) (h : m.step = .ok (o, m')) :
    ∃ w, m.nextWord? = some w ∧ (o = (Instruction.decode w).outcome ∨
      o = .keyReceived ∧ (Instruction.decode w).outcome = .awaitingKey) := by
  rcases step_eq_ok_iff.mp h with ⟨x, hx, hresume⟩ | ⟨-, w, hw, hrule⟩
  · obtain ⟨w, hw, hdecode⟩ := hm x hx
    refine ⟨w, hw, ?_⟩
    rw [hdecode]
    rw [resume] at hresume
    split at hresume
    · cases hresume
      exact .inr ⟨rfl, rfl⟩
    · cases hresume
      exact .inl rfl
  · exact ⟨w, hw, .inl hrule.outcome_eq⟩

theorem outcome_iff (hm : WaitsInPlace m) (h : m.step = .ok (o, m')) :
    ∃ w, m.nextWord? = some w ∧
      (o = .ignored ↔ (Instruction.decode w).outcome = .ignored) ∧
      (o = .awaitingKey ∨ o = .keyReceived ↔ (Instruction.decode w).outcome = .awaitingKey) ∧
      (o = .executed ↔ ¬ (Instruction.decode w).outcome = .ignored ∧
        ¬ (Instruction.decode w).outcome = .awaitingKey) := by
  obtain ⟨w, hw, ho⟩ := hm.outcome_of_step h
  refine ⟨w, hw, ?_⟩
  have hnever := (Instruction.decode w).outcome_ne_keyReceived
  generalize (Instruction.decode w).outcome = out at ho hnever
  rcases ho with rfl | ⟨rfl, rfl⟩
  · cases o with
    | keyReceived => exact absurd rfl hnever
    | executed | ignored | awaitingKey => decide
  · decide

end WaitsInPlace

end Machine

end Chip8
