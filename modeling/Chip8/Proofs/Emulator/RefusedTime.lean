import Chip8.Proofs.Emulator.ColdStart
import Chip8.Proofs.Emulator.Halted
import Chip8.Proofs.Timer.RefusedTime

/-!
# Emulators and time that is refused

An emulator asks its clock how many frames are due before it runs the first of them.  If the clock
refuses, nothing has happened yet: neither the clock nor anything else has changed, and whatever the
host does next answers as if it had not asked.  Which time is refused depends on the rate in the
settings alone, because whatever has happened before, the clock has at most one tick left over.

* `isPart_carry_after`: **what is left over is between zero and one tick, whatever a host does.**
* `runForInPlace`: running for some time with a clock that is changed in place.
* `refused_time_changes_nothing`: **time that the clock refuses changes nothing.**
-/

namespace Chip8

open Double FrameClock

namespace Emulator

variable {e : Emulator} {elapsed : Elapsed} {err : FrameClock.Error}

/-! ### What is left over -/

theorem carry_step (e : Emulator) : e.step.emulator.carry = e.carry := by
  obtain ⟨machine, halt, steps, h⟩ := e.exists_emulator_step
  rw [h]

theorem steady_isPart_carry : Steady fun e => IsPart e.carry where
  step := fun {e} he => (carry_step e).symm ▸ he
  tick := id
  frames := fun _ => id
  carry := fun {_ _ _ _} h he => isPart_of_advance he h
  memory := fun _ => id
  update := fun _ _ => id
  refreshed := id

/-- **Whatever a host does, the clock has at most one tick left over**, and never anything that is
infinite or no number. -/
theorem isPart_carry_after (config : Config) (entropy : Int) (operations : List Operation) :
    IsPart ((fresh config entropy).after operations).carry :=
  steady_isPart_carry.after (fun _ _ _ _ => isPart_zero) (fun _ _ => id) isPart_zero

/-! ### Running in place -/

/-- Runs for some time with a clock that is changed in place: what the clock has become is kept even
if it refuses. -/
def runForInPlace (e : Emulator) (elapsed : Elapsed) : Reply TimedError Nat :=
  let told := e.clock.advanceInPlace elapsed
  let e' := { e with carry := told.2.remainder }
  match told.1 with
  | .error err => ⟨.error (.clock err), e', []⟩
  | .ok ticks => (e'.runFrames ticks).mapError .machine

theorem runForInPlace_of_error (h : e.clock.advanceInPlace elapsed = (.error err, e.clock)) :
    e.runForInPlace elapsed = ⟨.error (.clock err), e, []⟩ := by
  rw [runForInPlace, h]
  rfl

theorem runFor_of_error (h : e.clock.advance elapsed = .error err) :
    e.runFor elapsed = ⟨.error (.clock err), e, []⟩ := by
  rw [runFor, h]

/-! ### Time that is refused -/

theorem replies_runFor_of_error (h : e.clock.advance elapsed = .error err)
    (later : List Operation) :
    e.replies (.runFor elapsed :: later) =
      ⟨.error (.timed (.clock err)), e, []⟩ :: e.replies later := by
  have hperform : e.perform (.runFor elapsed) = ⟨.error (.timed (.clock err)), e, []⟩ := by
    rw [perform, runFor_of_error h]
    rfl
  rw [replies, hperform]

/-- **Time that the clock refuses changes nothing.**  The clock refuses the time that is below zero,
not finite, or too large in ticks for a double, and no other.  When it refuses, the clock that is
changed in place is as it was, and so is an emulator that was to run for that time; whatever the
host does later goes as it would have gone anyway. -/
theorem refused_time_changes_nothing (config : Config) (entropy : Int) (history : List Operation)
    (he : e = (fresh config entropy).after history) (elapsed : Elapsed) :
    IsPart e.carry ∧
    (∀ err, e.clock.advance elapsed = .error err ↔ Refuses config.timerHz elapsed err) ∧
    ∀ err, e.clock.advance elapsed = .error err →
      e.clock.advanceInPlace elapsed = (.error err, e.clock) ∧
      e.runForInPlace elapsed = ⟨.error (.clock err), e, []⟩ ∧
      e.runFor elapsed = ⟨.error (.clock err), e, []⟩ ∧
      (∀ next ticks clock, e.clock.advance next = .ok (ticks, clock) →
        (e.clock.advanceInPlace elapsed).2.advanceInPlace next = (.ok ticks, clock)) ∧
      ∀ later, e.replies (.runFor elapsed :: later) =
        ⟨.error (.timed (.clock err)), e, []⟩ :: e.replies later := by
  have hpart : IsPart e.clock.remainder := he ▸ isPart_carry_after config entropy history
  have hconfig : e.config = config := he ▸ config_after (fresh config entropy) history
  have hhz : e.clock.hz = config.timerHz := congrArg Config.timerHz hconfig
  refine ⟨hpart, fun err => hhz ▸ advance_eq_error_iff hpart, ?_⟩
  intro err h
  have hclock : e.clock.advanceInPlace elapsed = (.error err, e.clock) := by
    rw [advanceInPlace_eq hpart, h, orKept]
  refine ⟨hclock, runForInPlace_of_error hclock, runFor_of_error h, ?_, replies_runFor_of_error h⟩
  intro next ticks clock hnext
  rw [hclock, advanceInPlace_eq hpart, hnext, orKept]

/-- A negative number, no number, an infinity, a whole number of seconds beyond all doubles, and a
double that is too large only in ticks, for an emulator that is halted. -/
theorem refused_time_changes_nothing_halted :
    ∃ (e : Emulator) (nan infinity huge : Float),
      e = (fresh {} 0).after [.load (Word.bytes 0x00EE) true 0, .step] ∧
      e.halt = some ⟨.stackUnderflow, some 0x200, some 0x00EE⟩ ∧
      value nan = .notANumber ∧ value infinity = .infinite false ∧
      number? huge = some (2 ^ (1023 : ℤ)) ∧
      e.runFor (.whole (-1)) = ⟨.error (.clock (.negativeTime (.whole (-1)))), e, []⟩ ∧
      e.runFor (.real nan) = ⟨.error (.clock .notANumber), e, []⟩ ∧
      e.runFor (.real infinity) = ⟨.error (.clock .infiniteTime), e, []⟩ ∧
      e.runFor (.whole (2 ^ 1024)) = ⟨.error (.clock .tooLarge), e, []⟩ ∧
      e.runFor (.real huge) = ⟨.error (.clock .infiniteTime), e, []⟩ := by
  have hnan : value (.ofBits 0x7FF8000000000000) = .notANumber := by decide
  have hinfinity : value (.ofBits 0x7FF0000000000000) = .infinite false := by decide
  -- the largest power of two that is a double; at sixty hertz its ticks are beyond all doubles
  have hhuge : number? (.ofBits 0x7FE0000000000000) = some (2 ^ (1023 : ℤ)) := by
    have hpow : ((2 ^ 52 : ℕ) : ℚ) * 2 ^ (971 : ℤ) = 2 ^ (1023 : ℤ) := by
      rw [Nat.cast_pow, Nat.cast_two, ← zpow_natCast, ← zpow_add₀ two_ne_zero]
      norm_num only
    rw [number?_of_value (m := 2 ^ 52) (e := 971) (by decide), hpow]
  have hpos := two_zpow_pos 1023
  have htwice : (2 : ℚ) ^ (1024 : ℤ) = 2 ^ (1023 : ℤ) * 2 := zpow_add_one₀ two_ne_zero 1023
  have hhz : ((60 : ℕ) : ℚ) < limit := by
    calc ((60 : ℕ) : ℚ) < 2 ^ (6 : ℤ) := by norm_num
      _ ≤ 2 ^ (1023 : ℤ) := zpow_le_zpow_right₀ one_le_two (by decide)
      _ ≤ limit := two_zpow_le_limit
  have hreal : limit ≤ 2 ^ (1023 : ℤ) * ((60 : ℕ) : ℚ) :=
    limit_lt_two_zpow.le.trans
      (htwice.trans_le (mul_le_mul_of_nonneg_left (by norm_num) hpos.le))
  have hwhole : limit ≤ ((2 ^ 1024 : ℤ) : ℚ) * ((60 : ℕ) : ℚ) := by
    have hcast : ((2 ^ 1024 : ℤ) : ℚ) = 2 ^ (1024 : ℤ) := by
      rw [Int.cast_pow, Int.cast_two]
      exact (zpow_natCast 2 1024).symm
    rw [hcast]
    exact limit_lt_two_zpow.le.trans
      (le_mul_of_one_le_right (two_zpow_pos 1024).le (by norm_num))
  have hrefused : ∀ elapsed err, Refuses 60 elapsed err →
      ((fresh {} 0).after [.load (Word.bytes 0x00EE) true 0, .step]).runFor elapsed =
        ⟨.error (.clock err),
          (fresh {} 0).after [.load (Word.bytes 0x00EE) true 0, .step], []⟩ := by
    intro elapsed err h
    obtain ⟨-, hiff, hsame⟩ := refused_time_changes_nothing {} 0 _ rfl elapsed
    exact (hsame err ((hiff err).mpr h)).2.2.1
  exact ⟨_, _, _, _, rfl, halt_of_return, hnan, hinfinity, hhuge,
    hrefused _ _ (.belowZero (.finite rfl (by norm_num))), hrefused _ _ (.notANumber hnan hhz),
    hrefused _ _ (.infinite hinfinity hhz), hrefused _ _ (.whole hwhole),
    hrefused _ _ (.product hhuge hpos.le (number?_ofNat (n := 60) (by decide)) hreal)⟩

end Emulator

end Chip8
