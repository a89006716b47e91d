import Chip8.Proofs.Emulator.ColdStart
import Chip8.Proofs.Execution.Footprint

/-!
# Loading is all or nothing

A load looks at the size of a program before it does anything else.  A program that is too large
is refused, and then nothing is different, even if the emulator was to start over first.  A
program that fits takes the place of as many bytes in the emulator as it is, or, where it is to
start over, in a new one.

* `Emulator.Loaded base data e`: nothing but the bytes of a program sets `e` apart from `base`.
* `loaded_withMemory`: a program that is copied to where programs start, and fits there, is loaded.
* `load_all_or_nothing`: **a load is refused for the size of the program alone; it changes nothing
  then, and otherwise puts just the bytes of the program in place.**
-/

namespace Chip8

namespace Emulator

variable {e : Emulator} {data : List UInt8}

/-- A program stands where programs start, and in every other respect the emulator is as another one
was. -/
structure Loaded (base : Emulator) (data : List UInt8) (e : Emulator) : Prop where
  program : ∀ k b, data[k]? = some b → e.machine.memory.byteAt (Memory.programStart + k) = b
  /-- The bytes before the program and after it. -/
  beside : ∀ a, ¬ (Memory.programStart ≤ a ∧ a < Memory.programStart + data.length) →
    e.machine.memory.byteAt a = base.machine.memory.byteAt a
  /-- All that is not memory. -/
  rest : e.withMachine { e.machine with memory := base.machine.memory } = base

theorem loaded_withMemory (base : Emulator) (hfits : data.length ≤ Memory.programCapacity) :
    Loaded base data (base.withMachine { base.machine with
      memory := base.machine.memory.overwrite Memory.programStart data }) where
  program := by
    intro k b hb
    exact Memory.byteAt_overwrite_of_getElem? _ (Nat.add_le_add_left hfits _) hb
  beside := by
    intro a houtside
    by_contra hne
    exact houtside (Memory.mem_block_of_overwrite_ne rfl hne)
  rest := rfl

/-- The emulator that a program is copied to is a new one or the one at hand; with a seed in the
settings it does not matter which new one. -/
theorem startedOver_eq {seed : Int} (hseed : e.config.seed = some seed) (startOver : Bool)
    (entropy entropy' : Int) :
    e.startedOver startOver entropy = if startOver then fresh e.config entropy' else e := by
  rw [startedOver, reset_eq_fresh, fresh_eq_of_seed hseed entropy entropy']

/-- **Loading is all or nothing.**  A load is refused exactly if the program has more than 3584
bytes, and then the emulator is as it was, whether it was to start over or not.  Otherwise just the
bytes of the program have been put in place, in the emulator as it was or in a new one.  A file is
loaded as what it contains, and a missing one is refused. -/
theorem load_all_or_nothing (config : Config) {seed : Int} (hseed : config.seed = some seed)
    (history : List Operation) (entropy : Int)
    (he : e = (fresh config entropy).after history) (data : List UInt8) (startOver : Bool)
    (again : Int) :
    ((∃ size capacity, (e.load data startOver again).answer =
        .error (.loadTooLarge size capacity)) ↔ 3584 < data.length) ∧
    (3584 < data.length →
      e.load data startOver again = ⟨.error (.loadTooLarge data.length 3584), e, []⟩) ∧
    (data.length ≤ 3584 → (e.load data startOver again).answer = .ok () ∧
      ∀ entropy', Loaded (if startOver then fresh config entropy' else e) data
        (e.load data startOver again).emulator) ∧
    ∀ path, e.loadRom path none startOver again = ⟨.error (.missing path), e, []⟩ ∧
      (e.loadRom path (some data) startOver again).answer =
        (e.load data startOver again).answer.mapError .load ∧
      (e.loadRom path (some data) startOver again).emulator =
        (e.load data startOver again).emulator := by
  have hconfig : e.config = config := he ▸ config_after _ history
  have hseed' : e.config.seed = some seed := hconfig ▸ hseed
  refine ⟨⟨?_, fun hlarge => ?_⟩, fun hlarge => ?_, fun hfits => ⟨?_, fun entropy' => ?_⟩,
    fun path => ⟨rfl, rfl, rfl⟩⟩
  · rintro ⟨size, capacity, hrefused⟩
    by_contra hsmall
    rw [load_of_le startOver again (Nat.le_of_not_lt hsmall)] at hrefused
    cases hrefused
  · exact ⟨_, _, congrArg Reply.answer (load_of_gt startOver again hlarge)⟩
  · exact load_of_gt startOver again hlarge
  · rw [load_of_le startOver again hfits]
  · rw [load_of_le startOver again hfits, ← hconfig,
      ← startedOver_eq hseed' startOver again entropy']
    exact loaded_withMemory _ hfits

/-- A wait and a press leave no trace under the largest program there is, and one byte more leaves
them as they are. -/
theorem load_all_or_nothing_waiting : ∃ e : Emulator,
    e = (fresh { seed := some 7 } 0).after
      [.load [0xF3, 0x0A] true 0, .pressKey (.name "q"), .step, .tick] ∧
    (e.load (List.replicate 3585 0xFF) true 3).emulator = e ∧
    Loaded (fresh { seed := some 7 } 1) (List.replicate 3584 0xFF)
      (e.load (List.replicate 3584 0xFF) true 3).emulator := by
  refine ⟨_, rfl, ?_, ?_⟩
  · have hlarge : 3584 < (List.replicate 3585 (0xFF : UInt8)).length := by
      rw [List.length_replicate]
      decide
    obtain ⟨-, hrefused, -, -⟩ :=
      load_all_or_nothing { seed := some 7 } rfl _ 0 rfl (List.replicate 3585 0xFF) true 3
    rw [hrefused hlarge]
  · obtain ⟨-, -, hloaded, -⟩ :=
      load_all_or_nothing { seed := some 7 } rfl _ 0 rfl (List.replicate 3584 0xFF) true 3
    exact (hloaded (Nat.le_of_eq List.length_replicate)).2 1

end Emulator

end Chip8
