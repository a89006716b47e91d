import Chip8.Proofs.Emulator.Operation

/-!
# Cold starts

Starting over makes an emulator that cannot be told from a new one, whatever has happened to it
before: no part of the machine, of the clock or of the counts remembers anything.  With a seed in the
settings there is only one new emulator, so what follows a load that starts over is the same after
any two histories.

* `reset_eq_fresh`: an emulator that starts over is new.
* `perform_load_startOver`: a load that starts over does not look at the emulator it is given.
* `cold_start`: **with a seed, neither starting over nor anything after it depends on the past.**
-/

namespace Chip8

namespace Emulator

variable {e e' : Emulator}

/-! ### Settings -/

theorem config_step (e : Emulator) : e.step.emulator.config = e.config := by
  obtain ⟨machine, halt, steps, h⟩ := e.exists_emulator_step
  rw [h]

theorem steady_config (config : Config) : Steady fun e => e.config = config where
  step := fun {e} he => (config_step e).trans he
  tick := id
  frames := fun _ => id
  carry := fun _ => id
  memory := fun _ => id
  update := fun _ _ => id
  refreshed := id

theorem config_after (e : Emulator) (operations : List Operation) :
    (e.after operations).config = e.config :=
  (steady_config e.config).after (fun _ _ _ => id) (fun _ _ => id) rfl

/-! ### Starting over -/

/-- **An emulator that starts over is new, part by part.** -/
theorem reset_eq_fresh (e : Emulator) (entropy : Int) :
    e.reset entropy = fresh e.config entropy := rfl

theorem fresh_eq_of_seed {config : Config} {seed : Int} (hseed : config.seed = some seed)
    (entropy entropy' : Int) : fresh config entropy = fresh config entropy' := by
  rw [fresh, fresh, hseed]
  rfl

theorem perform_load_startOver {data : List UInt8} (hdata : data.length ≤ Memory.programCapacity)
    {entropy entropy' : Int} (h : e.reset entropy = e'.reset entropy') :
    e.perform (.load data true entropy) = e'.perform (.load data true entropy') := by
  have hstarted : e.startedOver true entropy = e'.startedOver true entropy' := h
  rw [perform, perform, load_of_le true entropy hdata, load_of_le true entropy' hdata, hstarted]

/-- **A cold start.**  With a seed in the settings, an emulator that starts over after any history
of operations is a new one, and what a host sees from a load on that starts over does not depend on
the history, nor on any of the numbers that differ from one time to the next. -/
theorem cold_start (config : Config) {seed : Int} (hseed : config.seed = some seed) :
    (∀ (history : List Operation) (entropy again entropy' : Int),
      ((fresh config entropy).after history).reset again = fresh config entropy') ∧
    (∀ (history history' : List Operation) (entropy entropy' again again' : Int)
      (data : List UInt8) (later : List Operation), data.length ≤ 3584 →
      ((fresh config entropy).after history).replies (.load data true again :: later) =
        ((fresh config entropy').after history').replies (.load data true again' :: later)) := by
  have hreset : ∀ (history : List Operation) (entropy again entropy' : Int),
      ((fresh config entropy).after history).reset again = fresh config entropy' := by
    intro history entropy again entropy'
    have hconfig : ((fresh config entropy).after history).config = config :=
      config_after _ history
    rw [reset_eq_fresh, hconfig]
    exact fresh_eq_of_seed hseed again entropy'
  refine ⟨hreset, ?_⟩
  intro history history' entropy entropy' again again' data later hdata
  have hload := perform_load_startOver hdata
    ((hreset history entropy again 0).trans (hreset history' entropy' again' 0).symm)
  rw [replies, replies, hload]

/-- Presses, a halt and a broken font leave no trace. -/
theorem cold_start_seven :
    ((fresh { seed := some 7 } 0).after
        [.load [0x00, 0xEE] true 3, .pressKey (.name "q"), .run 5, .writeBytes 0x50 [0, 300, -1],
          .tick, .resetKeypad]).reset 4 = fresh { seed := some 7 } 1 :=
  (cold_start { seed := some 7 } rfl).1 _ 0 4 1

end Emulator

end Chip8
