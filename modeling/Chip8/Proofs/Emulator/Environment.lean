import Chip8.Emulator.Config
import Mathlib.Tactic.Common

/-!
# Settings from the environment

Each of the three settings has a variable of its own, and a value that is no numeral is passed over,
so that it leaves the other two variables alone.  A numeral below one for the frame or for the rate
does not: the settings are checked when all of them have been read, and if one is refused, the valid
ones are dropped with it.

* `Config.fieldwise`: the settings with each field from its own variable.
* `Config.Admissible`: no numeral is too small for its field.
* `ofEnvironment_fst`: **an environment gives its settings field by field if it is admissible, and
  no settings at all otherwise.**
-/

namespace Chip8

namespace Config

variable {env : Environment} {name : String}

/-- The integer that a variable is set to, if it is set to a numeral. -/
def parsed? (env : Environment) (name : String) : Option Int :=
  (env.lookup name).bind Numeral.decimal?

/-- A number that is at least one. -/
def positive? (n : Int) : Option Nat := if 0 < n then some n.toNat else none

theorem getD_positive?_pos (n? : Option Int) {d : Nat} (hd : 0 < d) :
    0 < (n?.bind positive?).getD d := by
  cases n? with
  | none => exact hd
  | some n =>
    rw [Option.bind_some, positive?]
    split
    · rw [Option.getD_some]
      omega
    · exact hd

/-- The settings with each field from its own variable.  A field has its default if its variable is
not set, is not set to a numeral, or is set to one that is too small. -/
def fieldwise (env : Environment) : Config where
  cyclesPerFrame := ((parsed? env cyclesVariable).bind positive?).getD 10
  timerHz := ((parsed? env rateVariable).bind positive?).getD 60
  seed := parsed? env seedVariable
  cyclesPerFrame_pos := getD_positive?_pos _ (by decide)
  timerHz_pos := getD_positive?_pos _ (by decide)

/-- No numeral is too small for its field. -/
def Admissible (env : Environment) : Prop :=
  (∀ n ∈ parsed? env cyclesVariable, 0 < n) ∧ ∀ n ∈ parsed? env rateVariable, 0 < n

instance (env : Environment) : Decidable (Admissible env) := inferInstanceAs (Decidable (_ ∧ _))

/-! ### One variable -/

theorem setting_fst (env : Environment) (name : String) :
    (setting env name).1 = parsed? env name := by
  rw [setting, parsed?]
  cases env.lookup name with
  | none => rfl
  | some raw =>
    rw [Option.bind_some]
    by_cases hempty : raw.isEmpty
    · -- the empty text is no numeral either
      have hnone : Numeral.decimal? "" = none := by decide
      rw [String.isEmpty_iff] at hempty
      subst hempty
      exact hnone.symm
    · simp only [if_neg hempty]
      cases Numeral.decimal? raw with
      | none => rfl
      | some n => rfl

theorem getD_positive? {n? : Option Int} (h : ∀ n ∈ n?, 0 < n) (d : Nat) :
    (n?.getD d).toNat = (n?.bind positive?).getD d := by
  cases n? with
  | none => exact Int.toNat_natCast d
  | some n => rw [Option.getD_some, Option.bind_some, positive?, if_pos (h n rfl), Option.getD_some]

theorem getD_pos_iff {n? : Option Int} {d : Int} (hd : 0 < d) :
    0 < n?.getD d ↔ ∀ n ∈ n?, 0 < n := by
  cases n? with
  | none => simp [hd]
  | some n => simp

/-! ### All three -/

theorem ext_fields {c c' : Config} (hcycles : c.cyclesPerFrame = c'.cyclesPerFrame)
    (hhz : c.timerHz = c'.timerHz) (hseed : c.seed = c'.seed) : c = c' := by
  cases c
  cases c'
  cases hcycles
  cases hhz
  cases hseed
  rfl

theorem of_eq_ok {cycles hz : Int} (hcycles : 0 < cycles) (hhz : 0 < hz) (seed : Option Int) :
    ∃ hc ht, of cycles hz seed = .ok ⟨cycles.toNat, hz.toNat, seed, hc, ht⟩ := by
  rw [of, dif_pos hcycles, dif_pos hhz]
  exact ⟨_, _, rfl⟩

theorem exists_of_eq_error {cycles hz : Int} (h : ¬ (0 < cycles ∧ 0 < hz)) (seed : Option Int) :
    ∃ e, of cycles hz seed = .error e := by
  rw [of]
  by_cases hcycles : 0 < cycles
  · rw [dif_pos hcycles, dif_neg (fun hhz => h ⟨hcycles, hhz⟩)]
    exact ⟨_, rfl⟩
  · rw [dif_neg hcycles]
    exact ⟨_, rfl⟩

/-- **An environment gives its settings field by field if it is admissible, and no settings at all
otherwise.** -/
theorem ofEnvironment_fst (env : Environment) :
    (ofEnvironment env).1 = if Admissible env then fieldwise env else {} := by
  have hvalid : 0 < (parsed? env cyclesVariable).getD 10 ∧ 0 < (parsed? env rateVariable).getD 60 ↔
      Admissible env := and_congr (getD_pos_iff (by decide)) (getD_pos_iff (by decide))
  simp only [ofEnvironment, setting_fst]
  split_ifs with h
  · obtain ⟨hcycles, hhz⟩ := hvalid.mpr h
    obtain ⟨hc, ht, hof⟩ := of_eq_ok hcycles hhz (parsed? env seedVariable)
    rw [hof]
    exact ext_fields (getD_positive? h.1 10) (getD_positive? h.2 60) rfl
  · obtain ⟨e, hof⟩ := exists_of_eq_error (mt hvalid.mp h) (parsed? env seedVariable)
    rw [hof]

/-- **One numeral that is too small drops every setting.**  An environment that is admissible gives
each field from its own variable, and its default if the variable is not set to a numeral.  Any
other environment gives the defaults throughout, so that its fields come from their own variables
only if these ask for nothing but the defaults. -/
theorem environment_settings (env : Environment) :
    (ofEnvironment env).1 = (if Admissible env then fieldwise env else {}) ∧
    ((ofEnvironment env).1 = fieldwise env ↔ Admissible env ∨ fieldwise env = {}) := by
  refine ⟨ofEnvironment_fst env, ?_⟩
  rw [ofEnvironment_fst]
  split_ifs with h
  · exact iff_of_true rfl (.inl h)
  · rw [eq_comm]
    exact (or_iff_right h).symm

/-- A frame of no instructions takes a valid seed with it. -/
theorem seed_dropped_with_frame :
    (ofEnvironment [(cyclesVariable, "0"), (seedVariable, "7")]).1.seed = none ∧
      (fieldwise [(cyclesVariable, "0"), (seedVariable, "7")]).seed = some 7 := by
  decide

end Config

end Chip8
