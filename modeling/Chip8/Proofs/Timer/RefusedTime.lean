import Chip8.Proofs.Decimal.Order
import Chip8.Proofs.Decimal.Overflow
import Chip8.Proofs.Timer.SplitTime

/-!
# Time that the clock refuses

A clock refuses time for four reasons, which come up at different places of a call: the time is
below zero; it is a whole number, or the rate is, too large for a double; it is no number; it is
infinite, or its ticks are.  All but the first come up while the clock computes.  What is left over
never matters, because it is at most one tick and no more than that is lost or gained by rounding.
A clock that is changed in place is changed last of all, so a call that is refused leaves it alone,
and what is left over never becomes infinite or no number.

* `Refuses`: which time is refused for which reason, told by the time and the rate alone.
* `IsPart`: what is left over is between zero and one tick, and `exists_count`: time that is not
  refused leaves such a part again.
* `advance_eq_error_iff`: **a clock refuses nothing else.**
* `advanceInPlace`: a call on a clock that is changed in place, and `advanceInPlace_eq`: **it does
  what `advance` does, and a refusal changes nothing.**
-/

namespace Chip8

open Double

variable {p : ℚ}

/-! ### Time below zero -/

/-- Time below zero. -/
inductive Elapsed.BelowZero : Elapsed → Prop
  | finite {elapsed : Elapsed} {p : ℚ} (hseconds : elapsed.seconds? = some p) (hp : p < 0) :
      BelowZero elapsed
  | infinite {x : Float} (hx : value x = .infinite true) : BelowZero (.real x)

theorem isNegative_value_iff {x : Float} (hx : number? x = some p) :
    (value x).isNegative = true ↔ p < 0 := by
  cases hv : value x with
  | infinite negative => rw [number?, hv] at hx; cases hx
  | notANumber => rw [number?, hv] at hx; cases hx
  | finite negative m e =>
    rw [number?, hv] at hx
    cases hx
    cases negative with
    | false =>
      have hnonneg : (0 : ℚ) ≤ signed .positive m e :=
        mul_nonneg (Nat.cast_nonneg m) (two_zpow_pos e).le
      exact iff_of_false Bool.false_ne_true (not_lt.mpr hnonneg)
    | true =>
      change (m != 0) = true ↔ signed .negative m e < 0
      rw [signed_negative, neg_neg_iff_pos, mul_pos_iff_of_pos_right (two_zpow_pos e),
        Nat.cast_pos, bne_iff_ne, Nat.pos_iff_ne_zero]

theorem Elapsed.isNegative_iff {elapsed : Elapsed} :
    elapsed.isNegative = true ↔ elapsed.BelowZero := by
  cases elapsed with
  | whole n =>
    rw [Elapsed.isNegative, decide_eq_true_iff]
    constructor
    · intro hn
      exact .finite rfl (Int.cast_lt_zero.mpr hn)
    · intro h
      cases h with
      | finite hseconds hp =>
        cases hseconds
        exact Int.cast_lt_zero.mp hp
  | real x =>
    rw [Elapsed.isNegative]
    constructor
    · intro h
      cases hx : number? x with
      | some p => exact .finite hx ((isNegative_value_iff hx).mp h)
      | none =>
        cases hv : value x with
        | finite negative m e => rw [number?, hv] at hx; cases hx
        | notANumber => rw [hv] at h; cases h
        | infinite negative =>
          rw [hv] at h
          exact .infinite (hv.trans (congrArg Value.infinite h))
    · intro h
      cases h with
      | finite hseconds hp => exact (isNegative_value_iff hseconds).mpr hp
      | infinite hx => rw [hx]; rfl

namespace FrameClock

variable {clock next : FrameClock} {elapsed : Elapsed} {err : Error} {ticks : Int}

/-! ### Refusals -/

/-- The time that a clock of a given rate refuses, with the reason. -/
inductive Refuses (hz : Nat) : Elapsed → Error → Prop
  | belowZero {elapsed : Elapsed} (h : elapsed.BelowZero) :
      Refuses hz elapsed (.negativeTime elapsed)
  /-- So many seconds make too many ticks for a double. -/
  | whole {seconds : Int} (h : limit ≤ (seconds * hz : ℚ)) : Refuses hz (.whole seconds) .tooLarge
  /-- The rate itself is too large for a double. -/
  | rate {x : Float} (h : ¬ (Elapsed.real x).BelowZero) (hhz : limit ≤ hz) :
      Refuses hz (.real x) .tooLarge
  | notANumber {x : Float} (h : value x = .notANumber) (hhz : hz < limit) :
      Refuses hz (.real x) .notANumber
  | infinite {x : Float} (h : value x = .infinite false) (hhz : hz < limit) :
      Refuses hz (.real x) .infiniteTime
  /-- The double of the seconds and that of the rate have an infinite product. -/
  | product {x : Float} {seconds rate : ℚ} (hx : number? x = some seconds) (hnonneg : 0 ≤ seconds)
      (hrate : number? (Float.ofNat hz) = some rate) (h : limit ≤ seconds * rate) :
      Refuses hz (.real x) .infiniteTime

/-! ### Whole numbers and doubles -/

theorem toDouble_of_limit_le {n : Nat} (hn : limit ≤ n) : toDouble n = .error .tooLarge := by
  obtain ⟨negative, hvalue⟩ := isInfinite_ofNat hn
  have hcast : Float.ofInt n = Float.ofNat n := rfl
  unfold toDouble ofInt?
  rw [hcast, hvalue]

theorem exists_rate (clock : FrameClock) (hhz : (clock.hz : ℚ) < limit) :
    ∃ rate, number? (Float.ofNat clock.hz) = some rate ∧ 1 ≤ rate := by
  obtain ⟨rate, hrate, hrounded⟩ := exists_number?_ofNat hhz
  exact ⟨rate, hrate, hrounded.ge_of_short .one (by exact_mod_cast clock.hz_pos)⟩

theorem wholePart_congr {x y : Float} (h : value x = value y) : wholePart x = wholePart y := by
  rw [wholePart, wholePart, h]

theorem wholePart_of_notANumber {x : Float} (h : value x = .notANumber) :
    wholePart x = .error .notANumber := by
  rw [wholePart, h]

theorem wholePart_of_isInfinite {x : Float} (h : IsInfinite x) :
    wholePart x = .error .infiniteTime := by
  obtain ⟨negative, h⟩ := h
  rw [wholePart, h]

/-! ### What is left over -/

/-- A double between zero and one. -/
def IsPart (x : Float) : Prop := ∃ c, number? x = some c ∧ 0 ≤ c ∧ c ≤ 1

theorem isPart_zero : IsPart 0 := ⟨0, number?_zero, le_rfl, zero_le_one⟩

/-- Counts the ticks of some time that is scaled already, and keeps what is left over. -/
def count (clock : FrameClock) (scaled : Float) : Except Error (Int × FrameClock) := do
  let total := clock.remainder + scaled
  let ticks ← wholePart (total + 1e-9)
  let spent ← toDouble ticks
  return (ticks, { clock with remainder := leftOver total spent })

theorem advance_eq_count (hsign : elapsed.isNegative = false) :
    clock.advance elapsed = clock.scale elapsed >>= clock.count := by
  rw [advance, if_neg (Bool.eq_false_iff.mp hsign)]
  rfl

section count

variable {scaled spent : Float}

theorem count_of_wholePart_error
    (hwhole : wholePart (clock.remainder + scaled + 1e-9) = .error err) :
    clock.count scaled = .error err := by
  rw [count, hwhole]
  rfl

theorem count_of_toDouble_error
    (hwhole : wholePart (clock.remainder + scaled + 1e-9) = .ok ticks)
    (hdouble : toDouble ticks = .error err) : clock.count scaled = .error err := by
  rw [count, hwhole]
  change (toDouble ticks >>= _) = _
  rw [hdouble]
  rfl

theorem count_of_ok (hwhole : wholePart (clock.remainder + scaled + 1e-9) = .ok ticks)
    (hdouble : toDouble ticks = .ok spent) : clock.count scaled =
      .ok (ticks, { clock with remainder := leftOver (clock.remainder + scaled) spent }) := by
  rw [count, hwhole]
  change (toDouble ticks >>= _) = _
  rw [hdouble]
  rfl

end count

theorem tolerance_nonneg : 0 ≤ tolerance := mul_nonneg (by norm_num) (two_zpow_pos _).le

theorem tolerance_le_one : tolerance ≤ 1 := by norm_num [tolerance]

theorem exists_number?_add_of_le_one {x y : Float} {p q : ℚ} (hx : number? x = some p)
    (hy : number? y = some q) (hp : 0 ≤ p) (hq : 0 ≤ q) (hone : p ≤ 1 ∨ q ≤ 1) :
    ∃ r, number? (x + y) = some r ∧ Rounded (p + q) r := by
  have hp_le := le_largest hx
  have hq_le := le_largest hy
  have hlimit := largest_add_two_lt
  refine exists_number?_add hx hy ?_
  rw [abs_of_nonneg (add_nonneg hp hq)]
  rcases hone with hone | hone <;> linarith

/-- At most one is left over, as long as the ticks are at most one short of the total. -/
theorem isPart_leftOver {total spent : Float} {t k : ℚ} (ht : number? total = some t)
    (hk : number? spent = some k) (ht_nonneg : 0 ≤ t) (hk_nonneg : 0 ≤ k) (hle : t ≤ k + 1) :
    IsPart (leftOver total spent) := by
  have ht_le := le_largest ht
  have hk_le := le_largest hk
  have hlimit := largest_add_two_lt
  obtain ⟨d, hd, hrounded⟩ :=
    exists_number?_sub ht hk (abs_lt.mpr ⟨by linarith, by linarith⟩)
  unfold leftOver
  split
  · next hpos =>
    exact ⟨d, hd, ((zero_lt_iff hd).mp hpos).le, hrounded.le_of_short .one (by linarith)⟩
  · exact isPart_zero

theorem number?_ofNat_of_short {n : Nat} (hshort : Short n) (hn : (n : ℚ) < limit) :
    number? (Float.ofNat n) = some (n : ℚ) := by
  obtain ⟨k, hk, hrounded⟩ := exists_number?_ofNat hn
  rw [hk, hrounded.eq_of_short hshort]

/-- **A finite amount of time is counted**: nothing is refused after it is scaled, and at most one
tick is left over. -/
theorem exists_count {scaled : Float} {s : ℚ} (hclock : IsPart clock.remainder)
    (hs : number? scaled = some s) (hnonneg : 0 ≤ s) :
    ∃ ticks next, clock.count scaled = .ok (ticks, next) ∧ IsPart next.remainder := by
  obtain ⟨c, hc, hc_nonneg, hc_le⟩ := hclock
  obtain ⟨t, ht, ht_rounded⟩ :=
    exists_number?_add_of_le_one hc hs hc_nonneg hnonneg (.inl hc_le)
  have ht_nonneg : 0 ≤ t := ht_rounded.ge_of_short .zero (add_nonneg hc_nonneg hnonneg)
  obtain ⟨r, hr, hr_rounded⟩ := exists_number?_add_of_le_one ht number?_tolerance ht_nonneg
    tolerance_nonneg (.inr tolerance_le_one)
  -- the tolerance may be lost in a large total, but it never makes it smaller
  have htr : t ≤ r :=
    hr_rounded.ge_of_short (short_of_number? ht) (le_add_of_nonneg_right tolerance_nonneg)
  have hr_nonneg : 0 ≤ r := ht_nonneg.trans htr
  obtain ⟨n, hn⟩ : ∃ n : ℕ, ⌊r⌋ = n := Int.eq_ofNat_of_zero_le (Int.floor_nonneg.mpr hr_nonneg)
  have hfloor : ((⌊r⌋ : ℤ) : ℚ) = n := by rw [hn, Int.cast_natCast]
  have hn_le : (n : ℚ) ≤ r := hfloor ▸ Int.floor_le r
  have hn_gt : r < n + 1 := hfloor ▸ Int.lt_floor_add_one r
  have hn_limit : (n : ℚ) < limit := by
    linarith [le_largest hr, largest_add_two_lt]
  have hn_short : Short n := hfloor ▸ (short_of_number? hr).floor hr_nonneg
  have hspent := number?_ofNat_of_short hn_short hn_limit
  have hwhole : wholePart (clock.remainder + scaled + 1e-9) = .ok (n : ℤ) :=
    hn ▸ wholePart_eq hr hr_nonneg
  exact ⟨n, _, count_of_ok hwhole (toDouble_of_number? hspent),
    isPart_leftOver ht hspent ht_nonneg (Nat.cast_nonneg n) (htr.trans hn_gt.le)⟩

/-! ### Time that is refused and time that is not -/

theorem advance_of_isNegative (hsign : elapsed.isNegative = true) :
    clock.advance elapsed = .error (.negativeTime elapsed) := by
  rw [advance, if_pos hsign]

theorem advance_of_scale_error (hsign : elapsed.isNegative = false)
    (hscale : clock.scale elapsed = .error err) : clock.advance elapsed = .error err := by
  rw [advance_eq_count hsign, hscale]
  rfl

theorem advance_of_scale (hsign : elapsed.isNegative = false) {scaled : Float}
    (hscale : clock.scale elapsed = .ok scaled) : clock.advance elapsed = clock.count scaled := by
  rw [advance_eq_count hsign, hscale]
  rfl

theorem scale_real_of_limit_le {x : Float} (hhz : limit ≤ clock.hz) :
    clock.scale (.real x) = .error .tooLarge := by
  rw [scale, toDouble_of_limit_le hhz]
  rfl

theorem scale_real {x : Float} {rate : ℚ} (hrate : number? (Float.ofNat clock.hz) = some rate) :
    clock.scale (.real x) = (wholePart x).map fun _ => x * Float.ofNat clock.hz := by
  rw [scale, toDouble_of_number? hrate]
  change (wholePart x >>= fun _ => pure (x * Float.ofNat clock.hz)) = _
  cases wholePart x <;> rfl

/-- What is not finite is not made so by what is left over, nor by the tolerance. -/
theorem wholePart_total {scaled : Float} (hclock : IsPart clock.remainder)
    (hscaled : number? scaled = none) :
    wholePart (clock.remainder + scaled + 1e-9) = wholePart scaled := by
  obtain ⟨c, hc, -, -⟩ := hclock
  have htotal := value_add_right hc hscaled
  have hnone : number? (clock.remainder + scaled) = none := by
    rw [number?, htotal]
    exact hscaled
  exact wholePart_congr ((value_add_left hnone number?_tolerance).trans htotal)

theorem isNegative_eq_false_of_nonneg {x : Float} (hx : number? x = some p) (hp : 0 ≤ p) :
    (Elapsed.real x).isNegative = false := by
  apply Bool.eq_false_iff.mpr
  intro h
  exact absurd ((isNegative_value_iff hx).mp h) (not_lt.mpr hp)

/-- **What is to be refused is refused.** -/
theorem Refuses.advance_eq (h : Refuses clock.hz elapsed err) (hclock : IsPart clock.remainder) :
    clock.advance elapsed = .error err := by
  cases h with
  | belowZero h => exact advance_of_isNegative (Elapsed.isNegative_iff.mpr h)
  | @whole seconds h =>
    have hpos : 0 < seconds * clock.hz := by
      have hlimit : 0 < limit := (two_zpow_pos 1023).trans_le two_zpow_le_limit
      exact_mod_cast hlimit.trans_le h
    obtain ⟨n, hn⟩ : ∃ n : ℕ, seconds * clock.hz = n := Int.eq_ofNat_of_zero_le hpos.le
    have hsign : (Elapsed.whole seconds).isNegative = false :=
      decide_eq_false (not_lt.mpr (pos_of_mul_pos_left hpos (Int.natCast_nonneg _)).le)
    have hcast : (seconds * clock.hz : ℚ) = n := by exact_mod_cast hn
    refine advance_of_scale_error hsign ?_
    rw [scale, hn]
    exact toDouble_of_limit_le (h.trans_eq hcast)
  | rate h hhz =>
    exact advance_of_scale_error (Bool.eq_false_iff.mpr (mt Elapsed.isNegative_iff.mp h))
      (scale_real_of_limit_le hhz)
  -- from here on the rate is a double, and what is refused is a whole part
  | notANumber h hhz =>
    obtain ⟨rate, hrate, -⟩ := clock.exists_rate hhz
    refine advance_of_scale_error (by rw [Elapsed.isNegative, h]; rfl) ?_
    rw [scale_real hrate, wholePart_of_notANumber h]
    rfl
  | infinite h hhz =>
    obtain ⟨rate, hrate, -⟩ := clock.exists_rate hhz
    refine advance_of_scale_error (by rw [Elapsed.isNegative, h]; rfl) ?_
    rw [scale_real hrate, wholePart_of_isInfinite ⟨_, h⟩]
    rfl
  | @product x seconds rate hx hnonneg hrate h =>
    have hbig := isInfinite_mul hx hrate (h.trans (le_abs_self _))
    have hscale : clock.scale (.real x) = .ok (x * Float.ofNat clock.hz) := by
      rw [scale_real hrate, wholePart_eq hx hnonneg]
      rfl
    rw [advance_of_scale (isNegative_eq_false_of_nonneg hx hnonneg) hscale]
    exact count_of_wholePart_error
      ((wholePart_total hclock hbig.number?).trans (wholePart_of_isInfinite hbig))

/-- What is not to be refused can be scaled. -/
structure Scales (clock : FrameClock) (elapsed : Elapsed) (scaled : Float) : Prop where
  sign : elapsed.isNegative = false
  scale : clock.scale elapsed = .ok scaled
  nonneg : ∃ s, number? scaled = some s ∧ 0 ≤ s

theorem refuses_or_scales_whole (clock : FrameClock) (seconds : Int) :
    (∃ err, Refuses clock.hz (.whole seconds) err) ∨
      ∃ scaled, Scales clock (.whole seconds) scaled := by
  rcases lt_or_ge seconds 0 with hneg | hnonneg
  · exact .inl ⟨_, .belowZero (.finite rfl (Int.cast_lt_zero.mpr hneg))⟩
  · obtain ⟨n, rfl⟩ := Int.eq_ofNat_of_zero_le hnonneg
    rcases le_or_gt limit ((n * clock.hz : ℕ) : ℚ) with hlarge | hsmall
    · exact .inl ⟨_, .whole (by exact_mod_cast hlarge)⟩
    · obtain ⟨r, hr, hrounded⟩ := exists_number?_ofNat hsmall
      refine .inr ⟨_, decide_eq_false (not_lt.mpr hnonneg), ?_, r, hr,
        hrounded.ge_of_short .zero (Nat.cast_nonneg _)⟩
      exact toDouble_of_number? hr

theorem refuses_or_scales_real (clock : FrameClock) (x : Float) :
    (∃ err, Refuses clock.hz (.real x) err) ∨ ∃ scaled, Scales clock (.real x) scaled := by
  by_cases hsign : (Elapsed.real x).BelowZero
  · exact .inl ⟨_, .belowZero hsign⟩
  -- a rate that is no double is refused whatever the time, even before a time that is no number
  rcases le_or_gt limit (clock.hz : ℚ) with hlarge | hhz
  · exact .inl ⟨_, .rate hsign hlarge⟩
  obtain ⟨rate, hrate, hrate_one⟩ := clock.exists_rate hhz
  cases hx : number? x with
  | none =>
    cases hv : value x with
    | finite negative m e => rw [number?, hv] at hx; cases hx
    | notANumber => exact .inl ⟨_, .notANumber hv hhz⟩
    | infinite negative =>
      cases negative with
      | false => exact .inl ⟨_, .infinite hv hhz⟩
      | true => exact absurd (.infinite hv) hsign
  | some seconds =>
    have hnonneg : 0 ≤ seconds := by
      by_contra hneg
      exact hsign (.finite hx (not_le.mp hneg))
    have hprod_nonneg : 0 ≤ seconds * rate := mul_nonneg hnonneg (zero_le_one.trans hrate_one)
    rcases le_or_gt limit (seconds * rate) with hlarge | hsmall
    · exact .inl ⟨_, .product hx hnonneg hrate hlarge⟩
    · obtain ⟨r, hr, hrounded⟩ :=
        exists_number?_mul hx hrate ((abs_of_nonneg hprod_nonneg).trans_lt hsmall)
      refine .inr ⟨_, isNegative_eq_false_of_nonneg hx hnonneg, ?_, r, hr,
        hrounded.ge_of_short .zero hprod_nonneg⟩
      rw [scale_real hrate, wholePart_eq hx hnonneg]
      rfl

theorem refuses_or_scales (clock : FrameClock) (elapsed : Elapsed) :
    (∃ err, Refuses clock.hz elapsed err) ∨ ∃ scaled, Scales clock elapsed scaled := by
  cases elapsed with
  | whole seconds => exact clock.refuses_or_scales_whole seconds
  | real x => exact clock.refuses_or_scales_real x

/-- **A clock refuses nothing else.** -/
theorem advance_eq_error_iff (hclock : IsPart clock.remainder) :
    clock.advance elapsed = .error err ↔ Refuses clock.hz elapsed err := by
  constructor
  · intro h
    rcases clock.refuses_or_scales elapsed with ⟨err', hrefuses⟩ | ⟨scaled, hscales⟩
    · obtain rfl : err' = err := Except.error.inj ((hrefuses.advance_eq hclock).symm.trans h)
      exact hrefuses
    · obtain ⟨hsign, hscale, s, hs, hnonneg⟩ := hscales
      obtain ⟨ticks, next, hcount, -⟩ := exists_count hclock hs hnonneg
      rw [advance_of_scale hsign hscale, hcount] at h
      cases h
  · intro h
    exact h.advance_eq hclock

/-- **A call that is not refused leaves a part of a tick again.** -/
theorem isPart_of_advance (hclock : IsPart clock.remainder)
    (h : clock.advance elapsed = .ok (ticks, next)) : IsPart next.remainder := by
  rcases clock.refuses_or_scales elapsed with ⟨err, hrefuses⟩ | ⟨scaled, hscales⟩
  · rw [hrefuses.advance_eq hclock] at h
    cases h
  · obtain ⟨hsign, hscale, s, hs, hnonneg⟩ := hscales
    obtain ⟨ticks', next', hcount, hpart⟩ := exists_count hclock hs hnonneg
    rw [advance_of_scale hsign hscale, hcount] at h
    cases h
    exact hpart

/-! ### Clocks that are changed in place -/

/-- Operations on one clock, which keeps the changes made so far when it refuses. -/
abbrev InPlace : Type → Type := ExceptT Error (StateM FrameClock)

def answer {α : Type} (a : Except Error α) : InPlace α := ExceptT.mk (pure a)

/-- Time times the rate, as a double; nothing asks whether the time is a finite number. -/
def multiply (clock : FrameClock) : Elapsed → Except Error Float
  | .whole seconds => toDouble (seconds * clock.hz)
  | .real seconds => (toDouble clock.hz).map (seconds * ·)

/-- Accounts for some time in place, statement by statement. -/
def accountFor (elapsed : Elapsed) : InPlace Int :=
  if elapsed.isNegative then throw (.negativeTime elapsed)
  else do
    let scaled ← answer ((← get).multiply elapsed)
    let total := (← get).remainder + scaled
    let ticks ← answer (wholePart (total + 1e-9))
    let spent ← answer (toDouble ticks)
    modify fun clock => { clock with remainder := leftOver total spent }
    return ticks

/-- What a call in place answers, and the clock that it leaves. -/
def advanceInPlace (clock : FrameClock) (elapsed : Elapsed) : Except Error Int × FrameClock :=
  (accountFor elapsed).run.run clock

theorem run_answer_bind_of_ok {α β : Type} {a : Except Error α} {x : α} (h : a = .ok x)
    (rest : α → InPlace β) : (answer a >>= rest).run.run clock = (rest x).run.run clock := by
  rw [h]
  rfl

theorem run_answer_bind_of_error {α β : Type} {a : Except Error α} (h : a = .error err)
    (rest : α → InPlace β) : (answer a >>= rest).run.run clock = (.error err, clock) := by
  rw [h]
  rfl

theorem run_get_bind {β : Type} (rest : FrameClock → InPlace β) :
    (get >>= rest).run.run clock = (rest clock).run.run clock := rfl

theorem run_modify_bind {β : Type} (f : FrameClock → FrameClock) (rest : Unit → InPlace β) :
    (modify f >>= rest).run.run clock = (rest ()).run.run (f clock) := rfl

theorem run_pure {β : Type} (x : β) :
    (pure x : InPlace β).run.run clock = (.ok x, clock) := rfl

theorem run_throw {β : Type} : (throw err : InPlace β).run.run clock = (.error err, clock) := rfl

/-- A clock is kept where it refuses. -/
def orKept (clock : FrameClock) : Except Error (Int × FrameClock) → Except Error Int × FrameClock
  | .ok (ticks, next) => (.ok ticks, next)
  | .error err => (.error err, clock)

theorem advanceInPlace_of_isNegative (hsign : elapsed.isNegative = true) :
    clock.advanceInPlace elapsed = (.error (.negativeTime elapsed), clock) := by
  rw [advanceInPlace, accountFor, if_pos hsign, run_throw]

/-- Every statement that may refuse comes before the only one that changes the clock. -/
theorem advanceInPlace_eq_count (hsign : elapsed.isNegative = false) :
    clock.advanceInPlace elapsed = clock.orKept (clock.multiply elapsed >>= clock.count) := by
  rw [advanceInPlace, accountFor, if_neg (Bool.eq_false_iff.mp hsign), run_get_bind]
  cases hmultiply : clock.multiply elapsed with
  | error err =>
    rw [run_answer_bind_of_error rfl]
    rfl
  | ok scaled =>
    change _ = clock.orKept (clock.count scaled)
    rw [run_answer_bind_of_ok rfl, run_get_bind]
    cases hwhole : wholePart (clock.remainder + scaled + 1e-9) with
    | error err =>
      rw [run_answer_bind_of_error hwhole, count_of_wholePart_error hwhole, orKept]
    | ok ticks =>
      rw [run_answer_bind_of_ok hwhole]
      cases hdouble : toDouble ticks with
      | error err =>
        rw [run_answer_bind_of_error rfl, count_of_toDouble_error hwhole hdouble, orKept]
      | ok spent =>
        rw [run_answer_bind_of_ok rfl, run_modify_bind, run_pure, count_of_ok hwhole hdouble, orKept]

theorem multiply_real_of_limit_le {x : Float} (hhz : limit ≤ clock.hz) :
    clock.multiply (.real x) = .error .tooLarge := by
  rw [multiply, toDouble_of_limit_le hhz]
  rfl

theorem multiply_real {x : Float} {rate : ℚ}
    (hrate : number? (Float.ofNat clock.hz) = some rate) :
    clock.multiply (.real x) = .ok (x * Float.ofNat clock.hz) := by
  rw [multiply, toDouble_of_number? hrate]
  rfl

theorem exists_wholePart_eq_error {x : Float} (hx : number? x = none) :
    ∃ err, wholePart x = .error err := by
  cases hv : value x with
  | finite negative m e => rw [number?, hv] at hx; cases hx
  | notANumber => exact ⟨_, wholePart_of_notANumber hv⟩
  | infinite negative => exact ⟨_, wholePart_of_isInfinite ⟨negative, hv⟩⟩

/-- Time that is not finite is refused later in place, but for the same reason. -/
theorem multiply_bind_count (hclock : IsPart clock.remainder)
    (hsign : elapsed.isNegative = false) :
    clock.multiply elapsed >>= clock.count = clock.scale elapsed >>= clock.count := by
  cases elapsed with
  | whole seconds => rfl
  | real x =>
    rcases le_or_gt limit (clock.hz : ℚ) with hlarge | hhz
    · rw [multiply_real_of_limit_le hlarge, scale_real_of_limit_le hlarge]
    obtain ⟨rate, hrate, hrate_one⟩ := clock.exists_rate hhz
    rw [scale_real hrate, multiply_real hrate]
    cases hx : number? x with
    | some p =>
      have hp : 0 ≤ p := by
        by_contra hneg
        exact Bool.eq_false_iff.mp hsign ((isNegative_value_iff hx).mpr (not_le.mp hneg))
      rw [wholePart_eq hx hp]
      rfl
    -- neither the product nor the total is finite, so the error comes with the total at the latest
    | none =>
      have hvalue := value_mul_left hx hrate (zero_lt_one.trans_le hrate_one)
      have hprod : number? (x * Float.ofNat clock.hz) = none := by
        rw [number?, hvalue]
        exact hx
      obtain ⟨err, herr⟩ := exists_wholePart_eq_error hx
      have hwhole := (wholePart_total hclock hprod).trans ((wholePart_congr hvalue).trans herr)
      rw [herr]
      exact count_of_wholePart_error hwhole

/-- **A call in place does what `advance` does**, and one that is refused leaves the clock alone. -/
theorem advanceInPlace_eq (hclock : IsPart clock.remainder) (elapsed : Elapsed) :
    clock.advanceInPlace elapsed = clock.orKept (clock.advance elapsed) := by
  cases hsign : elapsed.isNegative with
  | true => rw [advanceInPlace_of_isNegative hsign, advance_of_isNegative hsign, orKept]
  | false =>
    rw [advanceInPlace_eq_count hsign, advance_eq_count hsign, multiply_bind_count hclock hsign]

end FrameClock

end Chip8
