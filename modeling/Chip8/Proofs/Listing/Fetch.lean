import Chip8.Listing.Sweep
import Chip8.Proofs.Emulator.Calls
import Chip8.Proofs.Execution.Outcomes
import Chip8.Proofs.Memory.Blocks

/-!
# Listings and fetches

A listing and the machine read the same program, each in its own way: the listing goes through the
bytes of the file, two at a time, and the machine fetches words from memory, where the file was
copied to.  Where the counter is at a line of the listing, and the two bytes of that line are still
in memory, both see the same word, and take it for the same instruction.

* `getElem?_sweep`: the line of the word at an index.
* `Memory.Holds`: memory still holds the two bytes of a line.
* `holds_load`: a load puts them there.
* `listing_agrees_with_fetch`: **the line at the counter is about the word that the next step
  reports.**
-/

namespace Chip8

namespace Listing

theorem getElem?_sweep (labels : Labels) (address : Int) {data : List UInt8} {k : Nat}
    {high low : UInt8} (hhigh : data[2 * k]? = some high) (hlow : data[2 * k + 1]? = some low) :
    (sweep labels address data)[k]? =
      some (.ofWord labels (address + 2 * k) (Word.ofBytes high low) [high, low]) := by
  induction address, data using sweep.induct generalizing k with
  | case1 address => simp at hhigh
  | case2 address byte => simp at hlow
  | case3 address first second rest ih =>
    cases k with
    | zero =>
      cases hhigh
      cases hlow
      simp [sweep]
    | succ k =>
      have hplace : address + 2 + 2 * (k : Int) = address + 2 * ((k + 1 : Nat) : Int) := by omega
      rw [sweep, List.getElem?_cons_succ, ih hhigh hlow, hplace]

end Listing

/-- The word that a step reports, in its event or in its fault. -/
def reportedWord? : Except Error StepEvent → Option Int
  | .ok event => event.word
  | .error (.execution fault) => fault.word
  | .error _ => none

namespace Memory

/-- Memory holds two bytes of a program where a load puts them. -/
structure Holds (m : Memory) (data : List UInt8) (k : Nat) : Prop where
  high : data[2 * k]? = some (m.byteAt (programStart + 2 * k))
  low : data[2 * k + 1]? = some (m.byteAt (programStart + 2 * k + 1))

theorem holds_overwrite (m : Memory) {data : List UInt8} (hfits : data.length ≤ programCapacity)
    {k : Nat} (hk : 2 * k + 1 < data.length) : (m.overwrite programStart data).Holds data k := by
  have hbyte (i : Nat) (hi : i < data.length) :
      data[i]? = some ((m.overwrite programStart data).byteAt (programStart + i)) := by
    have hget : data[i]? = some data[i] := List.getElem?_eq_getElem hi
    have hheld : (m.overwrite programStart data).byteAt (programStart + i) = data[i] :=
      m.byteAt_overwrite_of_getElem? (Nat.add_le_add_left hfits _) hget
    rw [hheld, hget]
  exact ⟨hbyte _ (by omega), hbyte _ hk⟩

end Memory

namespace Emulator

open Listing

variable {e : Emulator} {data : List UInt8} {k : Nat} {w : UInt16}

theorem holds_load (e : Emulator) (startOver : Bool) (entropy : Int)
    (hfits : data.length ≤ Memory.programCapacity) (hk : 2 * k + 1 < data.length) :
    (e.load data startOver entropy).answer = .ok () ∧
      (e.load data startOver entropy).emulator.machine.memory.Holds data k := by
  rw [load_of_le startOver entropy hfits]
  exact ⟨rfl, Memory.holds_overwrite _ hfits hk⟩

/-- The step of an emulator that goes on reports the word at the counter, be it that it succeeds,
faults or goes on waiting. -/
theorem reportedWord?_step (hhalt : e.halt = none) (hw : e.machine.nextWord? = some w) :
    reportedWord? e.step.answer = some (w.toNat : Int) := by
  cases hstep : e.machine.step with
  | error f =>
    rw [step_of_fault hhalt hstep]
    obtain ⟨-, ⟨hnone, -⟩ | ⟨w', cause, hw', -, rfl⟩⟩ := Machine.step_eq_error_iff.mp hstep
    · cases hw.symm.trans hnone
    · obtain rfl := Option.some.inj (hw.symm.trans hw')
      rw [reportedWord?]
  | ok result =>
    obtain ⟨o, m'⟩ := result
    rw [step_of_ok hhalt hstep, reportedWord?, stepEvent, hw, Option.map_some]

theorem ignored_iff (hhalt : e.halt = none) (hwait : e.machine.processor.waiting = none)
    (hw : e.machine.nextWord? = some w) :
    (∃ event, e.step.answer = .ok event ∧ event.outcome = some .ignored) ↔
      (Instruction.decode w).outcome = .ignored := by
  constructor
  · rintro ⟨event, hanswer, hevent⟩
    obtain ⟨-, o, m', hstep, rfl⟩ := step_answer_eq_ok_iff.mp hanswer
    cases hevent
    rcases Machine.step_eq_ok_iff.mp hstep with ⟨x, hx, -⟩ | ⟨-, w', hw', hrule⟩
    · cases hwait.symm.trans hx
    · cases hw.symm.trans hw'
      exact hrule.outcome_eq.symm
  · intro h
    have hstep := Machine.step_of_executes hwait hw (e.machine.advance.executes_of_ignored h)
    exact ⟨_, step_answer_eq_ok_iff.mpr ⟨hhalt, _, _, hstep, rfl⟩, rfl⟩

/-- A step that fetches a word hands the instruction of the word to the execution unit. -/
theorem step_eq_dispatch (hwait : e.machine.processor.waiting = none)
    (hw : e.machine.nextWord? = some w) : e.machine.step =
      (e.machine.advance.dispatch w.toNat (some (Instruction.decode w))).mapError
        (fun cause => ⟨cause, some e.machine.processor.pc.toNat, some (w.toNat : Int)⟩) := by
  rw [Machine.step_of_not_waiting hwait, Machine.readWord_of_nextWord? hw, Machine.carryOut]
  cases e.machine.advance.dispatch w.toNat (some (Instruction.decode w)) with
  | error cause => rfl
  | ok result => rfl

theorem nextWord?_of_holds {m : Machine} (hpc : m.processor.pc.toNat = Memory.programStart + 2 * k)
    (hholds : m.memory.Holds data k) (hfits : data.length ≤ Memory.programCapacity)
    {high low : UInt8} (hhigh : data[2 * k]? = some high) (hlow : data[2 * k + 1]? = some low) :
    m.nextWord? = some (Word.ofBytes high low) := by
  have hcapacity : Memory.programCapacity = 3584 := rfl
  have hstart : Memory.programStart = 512 := rfl
  have hk : 2 * k + 1 < data.length := (List.getElem?_eq_some_iff.mp hlow).1
  have hhigh' : high = m.memory.byteAt m.processor.pc.toNat := by
    rw [hpc]
    exact Option.some.inj (hhigh.symm.trans hholds.high)
  have hlow' : low = m.memory.byteAt (m.processor.pc.toNat + 1) := by
    rw [hpc]
    exact Option.some.inj (hlow.symm.trans hholds.low)
  refine Machine.nextWord?_eq_some_iff.mpr ⟨by omega, ?_⟩
  rw [hhigh', hlow']

theorem mnemonic_iff (f : Form) :
    f.mnemonic = "SYS" ∨ f.mnemonic = "DW" ↔ f = .machineCall ∨ f = .unassigned := by
  cases f <;> decide

/-- **The listing and the machine read the same program.**  Take any state of an emulator that goes
on, where the counter is at a line of the listing and the two bytes of that line are still in
memory.  Then the line shows the word that the next step reports, and the instruction that it
carries out; it is shown as `SYS` or `DW` exactly if the step ignores the word. -/
theorem listing_agrees_with_fetch (labels : Labels) (data : List UInt8) (k : Nat)
    (hfits : data.length ≤ Memory.programCapacity) (hk : 2 * k + 1 < data.length) :
    ∃ entry, (entries labels data Memory.programStart none)[k]? = some entry ∧
      (∀ (e : Emulator) (startOver : Bool) (entropy : Int),
        (e.load data startOver entropy).answer = .ok () ∧
          (e.load data startOver entropy).emulator.machine.memory.Holds data k) ∧
      ∀ e : Emulator, e.halt = none →
        e.machine.processor.pc.toNat = Memory.programStart + 2 * k →
        e.machine.memory.Holds data k →
        entry.address = e.machine.processor.pc.toNat ∧
        reportedWord? e.step.answer = some (entry.opcode.toNat : Int) ∧
        (e.machine.processor.waiting = none →
          e.machine.step =
              (e.machine.advance.dispatch entry.opcode.toNat entry.instruction?).mapError
                (fun cause => ⟨cause, some entry.address, some (entry.opcode.toNat : Int)⟩) ∧
            (entry.mnemonic = "SYS" ∨ entry.mnemonic = "DW" ↔
              ∃ event, e.step.answer = .ok event ∧ event.outcome = some .ignored)) := by
  have hhigh : data[2 * k]? = some data[2 * k] := List.getElem?_eq_getElem (by omega)
  have hlow : data[2 * k + 1]? = some data[2 * k + 1] := List.getElem?_eq_getElem hk
  refine ⟨_, getElem?_sweep labels Memory.programStart hhigh hlow,
    fun e startOver entropy => e.holds_load startOver entropy hfits hk, ?_⟩
  intro e hhalt hpc hholds
  have hw := nextWord?_of_holds hpc hholds hfits hhigh hlow
  have haddress : (Memory.programStart : Int) + 2 * k = e.machine.processor.pc.toNat := by omega
  refine ⟨haddress, reportedWord?_step hhalt hw, fun hwait => ⟨?_, ?_⟩⟩
  · rw [step_eq_dispatch hwait hw, ← haddress]
    rfl
  · rw [ignored_iff hhalt hwait hw, Instruction.outcome_eq_ignored_iff]
    exact mnemonic_iff _

/-- The word `0123` is shown as `SYS`, and the first step after its load ignores it. -/
theorem listing_agrees_with_fetch_atMachineCall : ∃ entry event,
    (entries [] [0x01, 0x23] Memory.programStart none)[0]? = some entry ∧
      entry.mnemonic = "SYS" ∧
      ((fresh {} 0).load [0x01, 0x23] true).emulator.step.answer = .ok event ∧
      event.outcome = some .ignored := by
  have hfits : ([0x01, 0x23] : List UInt8).length ≤ Memory.programCapacity := by decide
  obtain ⟨entry, hentry, hload, hagree⟩ :=
    listing_agrees_with_fetch [] [0x01, 0x23] 0 hfits (by decide)
  have hshown : entry.mnemonic = "SYS" := by
    cases hentry
    decide
  have hstarted := load_of_le (e := fresh {} 0) true 0 hfits
  obtain ⟨-, -, hdispatch⟩ := hagree ((fresh {} 0).load [0x01, 0x23] true).emulator
    (by rw [hstarted]; rfl) (by rw [hstarted]; rfl) (hload (fresh {} 0) true 0).2
  obtain ⟨-, hignored⟩ := hdispatch (by rw [hstarted]; rfl)
  obtain ⟨event, hanswer, hevent⟩ := hignored.mp (.inl hshown)
  exact ⟨entry, event, hentry, hshown, hanswer, hevent⟩

end Emulator

end Chip8
