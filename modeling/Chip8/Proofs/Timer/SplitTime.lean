import Chip8.Timer.FrameClock
import Chip8.Proofs.Decimal.Exact

/-!
# Splitting time

The frame clock carries what is left of a tick, so ticks should depend on the total time and not on
how it is split.  The clock works on doubles and counts a tick that is nearly reached, so this is a
matter of rounding.  Where every call is given a multiple of `2 ^ (-29)` seconds, nothing is rounded
for the first `2 ^ 23` ticks except by the tolerance, and the tolerance, a thousand-millionth, is
more than half a step of this grid and less than a whole one: it reaches no tick.  With steps half
as wide it does.  A tick that is counted early is not taken from what is carried, so each call can
gain some time.

* `FrameClock.Carries`: a clock with so much of a tick left over.
* `FrameClock.exists_advance`: **one call counts the whole ticks and carries the rest.**
* `FrameClock.advanceAll`: one call after the other.  `FrameClock.exists_advanceAll`: by induction,
  all calls together count the whole ticks of their total.
* `FrameClock.ticks_of_total`: **ticks depend on the total time only.**
* `FrameClock.ticks_gained_by_split`: steps of `2 ^ (-30)` seconds are too fine.
-/

namespace Chip8

open Double

/-- An amount of time in seconds; what is infinite or no number is none. -/
def Elapsed.seconds? : Elapsed → Option ℚ
  | whole seconds => some seconds
  | real seconds => number? seconds

/-- Time that is a multiple of `2 ^ (-29)` seconds. -/
structure Elapsed.Lasts (elapsed : Elapsed) (p : ℚ) : Prop where
  seconds : elapsed.seconds? = some p
  nonneg : 0 ≤ p
  onGrid : OnGrid (-29) p

namespace FrameClock

theorem toDouble_of_number? {n : Nat} {q : ℚ} (h : number? (Float.ofNat n) = some q) :
    toDouble n = .ok (Float.ofNat n) := by
  have hofInt : ofInt? n = some (Float.ofNat n) := by
    have hcast : Float.ofInt n = Float.ofNat n := rfl
    unfold ofInt?
    rw [hcast]
    cases hv : value (Float.ofNat n) with
    | finite negative m e => rfl
    | infinite negative => rw [number?, hv] at h; cases h
    | notANumber => rw [number?, hv] at h; cases h
  unfold toDouble
  rw [hofInt]

theorem toDouble_natCast {n : Nat} (hn : n < 2 ^ 53) :
    ∃ x, toDouble n = .ok x ∧ number? x = some (n : ℚ) :=
  ⟨Float.ofNat n, toDouble_of_number? (number?_ofNat hn), number?_ofNat hn⟩

theorem wholePart_eq {x : Float} {p : ℚ} (hx : number? x = some p) (hp : 0 ≤ p) :
    wholePart x = .ok ⌊p⌋ := by
  obtain ⟨negative, m, e, hvalue, rfl, hneg⟩ := exists_value hx hp
  unfold wholePart
  rw [hvalue]
  dsimp only
  rw [wholePart_eq_floor]
  split
  · next h =>
    rw [hneg h, Nat.cast_zero, zero_mul, Int.floor_zero, neg_zero]
  · rfl

theorem isNegative_eq_false {elapsed : Elapsed} {p : ℚ} (he : elapsed.Lasts p) :
    elapsed.isNegative = false := by
  obtain ⟨hseconds, hp, -⟩ := he
  cases elapsed with
  | whole n =>
    cases hseconds
    exact decide_eq_false (not_lt.mpr (Int.cast_nonneg_iff.mp hp))
  | real x =>
    obtain ⟨negative, m, e, hvalue, -, hneg⟩ := exists_value hseconds hp
    rw [Elapsed.isNegative, hvalue, Value.isNegative]
    cases negative
    · rfl
    · rw [hneg rfl]
      rfl

/-- A number of ticks that is counted without rounding. -/
structure Unrounded (q : ℚ) : Prop where
  onGrid : OnGrid (-29) q
  nonneg : 0 ≤ q
  short : q < 2 ^ 23

theorem Unrounded.number?_eq {x : Float} {q : ℚ} (hq : Unrounded q)
    (h : |q| < limit → ∃ r, number? x = some r ∧ Rounded q r) : number? x = some q := by
  refine number?_of_onGrid h (by decide) (by decide) hq.onGrid ?_
  rw [abs_of_nonneg hq.nonneg]
  exact hq.short.trans (by norm_num)

theorem exists_scale {clock : FrameClock} {elapsed : Elapsed} {p : ℚ} (he : elapsed.Lasts p)
    (hhz : clock.hz < 2 ^ 53) (hshort : p * clock.hz < 2 ^ 23) :
    ∃ x, clock.scale elapsed = .ok x ∧ number? x = some (p * clock.hz) := by
  obtain ⟨hseconds, hp, hgrid⟩ := he
  cases elapsed with
  | whole n =>
    cases hseconds
    obtain ⟨k, rfl⟩ : ∃ k : ℕ, n = k := Int.eq_ofNat_of_zero_le (Int.cast_nonneg_iff.mp hp)
    have hlt : k * clock.hz < 2 ^ 23 := by exact_mod_cast hshort
    obtain ⟨x, hx, hnumber⟩ := toDouble_natCast (hlt.trans (by decide))
    exact ⟨x, by exact_mod_cast hx, by exact_mod_cast hnumber⟩
  | real y =>
    obtain ⟨x, hx, hnumber⟩ := toDouble_natCast hhz
    have hwhole := wholePart_eq hseconds hp
    have hprod : Unrounded (p * clock.hz) :=
      ⟨hgrid.mul_int clock.hz, mul_nonneg hp (Nat.cast_nonneg _), hshort⟩
    refine ⟨y * x, ?_, hprod.number?_eq (exists_number?_mul hseconds hnumber)⟩
    simp only [scale, hx, hwhole]
    rfl

/-- The double nearest to a thousand-millionth. -/
def tolerance : ℚ := 4835703278458517 * 2 ^ (-82 : ℤ)

theorem number?_tolerance : number? 1e-9 = some tolerance :=
  number?_of_value (m := 4835703278458517) (e := -82) (by decide)

/-- Less than one step of the grid does not reach the next whole number. -/
theorem floor_eq_of_onGrid {q r : ℚ} (hgrid : OnGrid (-29) q) (hlow : q ≤ r)
    (hhigh : r < q + 2 ^ (-29 : ℤ)) : ⌊r⌋ = ⌊q⌋ := by
  have hnext : q + 2 ^ (-29 : ℤ) ≤ (⌊q⌋ + 1 : ℤ) :=
    hgrid.add_le (.int (by decide) _) (by exact_mod_cast Int.lt_floor_add_one q)
  exact Int.floor_eq_iff.mpr ⟨(Int.floor_le q).trans hlow,
    hhigh.trans_le (by exact_mod_cast hnext)⟩

/-- **The tolerance adds no tick on the grid.** -/
theorem wholePart_tolerance {total : Float} {q : ℚ} (htotal : number? total = some q)
    (hq : Unrounded q) : wholePart (total + 1e-9) = .ok ⌊q⌋ := by
  have hnonneg := hq.nonneg
  have hpos : (0 : ℚ) < 2 ^ (-31 : ℤ) := two_zpow_pos _
  have hlow : 2 ^ (-31 : ℤ) ≤ tolerance := by norm_num [tolerance]
  have hhigh : tolerance + 2 ^ (-31 : ℤ) < 2 ^ (-29 : ℤ) := by norm_num [tolerance]
  have hsum : |q + tolerance| < 2 ^ (23 : ℤ) := by
    have hstep : q + 2 ^ (-29 : ℤ) ≤ (2 ^ 23 : ℤ) :=
      hq.onGrid.add_le (.int (by decide) _) (by exact_mod_cast hq.short)
    have hpow : ((2 ^ 23 : ℤ) : ℚ) = 2 ^ (23 : ℤ) := by norm_num
    rw [abs_of_nonneg (by linarith), ← hpow]
    linarith
  have hlimit : (2 : ℚ) ^ (23 : ℤ) ≤ limit :=
    (zpow_le_zpow_right₀ one_le_two (by decide)).trans two_zpow_le_limit
  obtain ⟨r, hr, hrounded⟩ :=
    exists_number?_add htotal number?_tolerance (hsum.trans_le hlimit)
  -- below `2 ^ 23` the sum is rounded by a quarter of a step at most
  have hclose : |r - (q + tolerance)| ≤ 2 ^ (-31 : ℤ) := by
    have hunit : (2 : ℚ) ^ (23 - 53 : ℤ) = 2 * 2 ^ (-31 : ℤ) := by norm_num
    have := hrounded.close (by decide) hsum
    linarith
  obtain ⟨hr_low, hr_high⟩ := abs_le.mp hclose
  rw [wholePart_eq hr (by linarith), floor_eq_of_onGrid hq.onGrid (by linarith) (by linarith)]

theorem number?_leftOver {total ticks : Float} {p q : ℚ} (htotal : number? total = some p)
    (hticks : number? ticks = some q) (hrest : Unrounded (p - q)) :
    number? (leftOver total ticks) = some (p - q) := by
  have hdiff : number? (total - ticks) = some (p - q) :=
    hrest.number?_eq (exists_number?_sub htotal hticks)
  unfold leftOver
  split
  · exact hdiff
  · next hpos =>
    rw [zero_lt_iff hdiff] at hpos
    rw [le_antisymm (not_lt.mp hpos) hrest.nonneg]
    exact number?_zero

theorem advance_eq {clock : FrameClock} {elapsed : Elapsed} {scaled spent : Float} {ticks : Int}
    (hsign : elapsed.isNegative = false) (hscaled : clock.scale elapsed = .ok scaled)
    (hticks : wholePart (clock.remainder + scaled + 1e-9) = .ok ticks)
    (hspent : toDouble ticks = .ok spent) :
    clock.advance elapsed =
      .ok (ticks, { clock with remainder := leftOver (clock.remainder + scaled) spent }) := by
  unfold advance
  rw [hsign, hscaled]
  change (wholePart (clock.remainder + scaled + 1e-9) >>= fun ticks => toDouble ticks >>=
    fun spent => pure (ticks,
      { clock with remainder := leftOver (clock.remainder + scaled) spent })) = _
  rw [hticks]
  change (toDouble ticks >>= _) = _
  rw [hspent]
  rfl

/-- A clock with so much of a tick left over. -/
structure Carries (clock : FrameClock) (carried : ℚ) : Prop where
  number : number? clock.remainder = some carried
  nonneg : 0 ≤ carried
  lt_one : carried < 1
  onGrid : OnGrid (-29) carried

/-- **One call counts the whole ticks and carries the rest**, without rounding. -/
theorem exists_advance {clock : FrameClock} {elapsed : Elapsed} {carried p : ℚ}
    (hclock : clock.Carries carried) (he : elapsed.Lasts p) (hhz : clock.hz < 2 ^ 53)
    (hshort : carried + p * clock.hz < 2 ^ 23) :
    ∃ next, clock.advance elapsed = .ok (⌊carried + p * clock.hz⌋, next) ∧ next.hz = clock.hz ∧
      next.Carries (Int.fract (carried + p * clock.hz)) := by
  obtain ⟨hcarried, hnonneg, -, hgrid⟩ := hclock
  have hscaled : 0 ≤ p * clock.hz := mul_nonneg he.nonneg (Nat.cast_nonneg _)
  obtain ⟨scaled, hscale, hnumber⟩ := exists_scale he hhz (by linarith)
  have hq : Unrounded (carried + p * clock.hz) :=
    ⟨hgrid.add (he.onGrid.mul_int clock.hz), add_nonneg hnonneg hscaled, hshort⟩
  have htotal := hq.number?_eq (exists_number?_add hcarried hnumber)
  have hticks := wholePart_tolerance htotal hq
  generalize carried + p * clock.hz = q at *
  obtain ⟨n, hn⟩ : ∃ n : ℕ, ⌊q⌋ = n :=
    Int.eq_ofNat_of_zero_le (Int.floor_nonneg.mpr hq.nonneg)
  have hfloor : (⌊q⌋ : ℚ) = n := by rw [hn, Int.cast_natCast]
  have hn_lt : n < 2 ^ 23 := by
    have : (n : ℚ) < 2 ^ 23 := hfloor ▸ (Int.floor_le q).trans_lt hshort
    exact_mod_cast this
  obtain ⟨spent, hspent, hspent_number⟩ := toDouble_natCast (hn_lt.trans (by decide))
  have hfract : q - n = Int.fract q := by rw [← hfloor, Int.self_sub_floor]
  have hrest : Unrounded (q - n) :=
    ⟨hq.onGrid.sub (.int (by decide) n), hfract ▸ Int.fract_nonneg q,
      hfract ▸ (Int.fract_lt_one q).trans (by norm_num)⟩
  exact ⟨{ clock with remainder := leftOver (clock.remainder + scaled) spent },
    hn ▸ advance_eq (isNegative_eq_false he) hscale (hn ▸ hticks) hspent, rfl,
    hfract ▸ number?_leftOver htotal hspent_number hrest, Int.fract_nonneg q,
    Int.fract_lt_one q, hfract ▸ hrest.onGrid⟩

/-- One call after the other, with all their ticks. -/
def advanceAll (clock : FrameClock) : List Elapsed → Except Error (Int × FrameClock)
  | [] => .ok (0, clock)
  | elapsed :: rest => do
    let (ticks, next) ← clock.advance elapsed
    let (more, last) ← next.advanceAll rest
    return (ticks + more, last)

theorem nonneg_of_lasts {times : List Elapsed} {seconds : List ℚ}
    (htimes : List.Forall₂ Elapsed.Lasts times seconds) : ∀ p ∈ seconds, 0 ≤ p := by
  induction htimes with
  | nil => exact fun p hp => absurd hp List.not_mem_nil
  | cons he _ ih => exact List.forall_mem_cons.mpr ⟨he.nonneg, ih⟩

theorem exists_advanceAll {clock : FrameClock} {carried : ℚ} {times : List Elapsed}
    {seconds : List ℚ} (hclock : clock.Carries carried)
    (htimes : List.Forall₂ Elapsed.Lasts times seconds) (hhz : clock.hz < 2 ^ 53)
    (hshort : carried + seconds.sum * clock.hz < 2 ^ 23) :
    ∃ last, clock.advanceAll times = .ok (⌊carried + seconds.sum * clock.hz⌋, last) ∧
      last.Carries (Int.fract (carried + seconds.sum * clock.hz)) := by
  induction htimes generalizing clock carried with
  | nil =>
    have hsum : carried + ([] : List ℚ).sum * clock.hz = carried := by
      rw [List.sum_nil, zero_mul, add_zero]
    have hpart : 0 ≤ carried ∧ carried < 1 := ⟨hclock.nonneg, hclock.lt_one⟩
    rw [hsum, Int.floor_eq_zero_iff.mpr hpart, Int.fract_eq_self.mpr hpart]
    exact ⟨clock, rfl, hclock⟩
  | @cons elapsed p rest seconds he hrest ih =>
    rw [List.sum_cons, add_mul, ← add_assoc] at hshort ⊢
    have hrest_nonneg : 0 ≤ seconds.sum * clock.hz :=
      mul_nonneg (List.sum_nonneg (nonneg_of_lasts hrest)) (Nat.cast_nonneg _)
    obtain ⟨next, hnext, hhz', hcarries⟩ := exists_advance hclock he hhz (by linarith)
    have hq : 0 ≤ carried + p * clock.hz :=
      add_nonneg hclock.nonneg (mul_nonneg he.nonneg (Nat.cast_nonneg _))
    generalize carried + p * clock.hz = q at *
    have hfract_le : Int.fract q ≤ q := by
      have : (0 : ℚ) ≤ ⌊q⌋ := by exact_mod_cast Int.floor_nonneg.mpr hq
      have := Int.self_sub_floor q
      linarith
    rw [← hhz'] at hhz hshort ⊢
    obtain ⟨last, hlast, hcarries'⟩ := ih hcarries hhz (by linarith)
    -- the whole ticks of the first call are due whatever follows
    have hsplit : q + seconds.sum * next.hz =
        ⌊q⌋ + (Int.fract q + seconds.sum * next.hz) := by
      rw [← add_assoc, Int.floor_add_fract]
    rw [hsplit, Int.floor_intCast_add, Int.fract_intCast_add]
    refine ⟨last, ?_, hcarries'⟩
    rw [advanceAll, hnext]
    change (next.advanceAll rest >>= _) = _
    rw [hlast]
    rfl

theorem carries_of_ofHz {hz : Int} {clock : FrameClock} (h : ofHz hz = .ok clock) :
    (clock.hz : ℤ) = hz ∧ clock.Carries 0 := by
  unfold ofHz at h
  split at h
  · next hpos =>
    cases h
    exact ⟨Int.toNat_of_nonneg hpos.le, number?_zero, le_rfl, zero_lt_one, .zero _⟩
  · cases h

/-- **Ticks depend on the total time only, however it is split**: if every call is given a multiple
of `2 ^ (-29)` seconds and fewer than `2 ^ 23` ticks are due altogether, then the ticks of all calls
are the whole ticks in the total. -/
theorem ticks_of_total {hz : Int} {clock : FrameClock} {times : List Elapsed} {seconds : List ℚ}
    (hclock : ofHz hz = .ok clock) (hhz : hz < 2 ^ 53)
    (htimes : List.Forall₂ Elapsed.Lasts times seconds) (hshort : seconds.sum * hz < 2 ^ 23) :
    (clock.advanceAll times).map Prod.fst = .ok ⌊seconds.sum * hz⌋ := by
  obtain ⟨hhz', hcarries⟩ := carries_of_ofHz hclock
  have hcast : (hz : ℚ) = clock.hz := by rw [← hhz', Int.cast_natCast]
  rw [hcast] at hshort ⊢
  obtain ⟨last, hlast, -⟩ := exists_advanceAll hcarries htimes (by exact_mod_cast hhz' ▸ hhz)
    (by rwa [zero_add])
  rw [hlast, zero_add]
  rfl

theorem ticks_of_total_three_pieces :
    ∃ clock, ofHz 60 = .ok clock ∧
      List.Forall₂ Elapsed.Lasts [.real 0.25, .whole 1, .real 0.5] [1 / 4, 1, 1 / 2] ∧
      (clock.advanceAll [.real 0.25, .whole 1, .real 0.5]).map Prod.fst = .ok 105 := by
  have hquarter : number? 0.25 = some (1 / 4) := by
    rw [number?_of_value (m := 2 ^ 52) (e := -54) (by decide)]
    norm_num
  have hhalf : number? 0.5 = some (1 / 2) := by
    rw [number?_of_value (m := 2 ^ 52) (e := -53) (by decide)]
    norm_num
  have hpieces : List.Forall₂ Elapsed.Lasts [.real 0.25, .whole 1, .real 0.5] [1 / 4, 1, 1 / 2] :=
    .cons ⟨hquarter, by norm_num, 2 ^ 27, by norm_num⟩
      (.cons ⟨by norm_num [Elapsed.seconds?], zero_le_one, 2 ^ 29, by norm_num⟩
        (.cons ⟨hhalf, by norm_num, 2 ^ 28, by norm_num⟩ .nil))
  have hclock : ofHz 60 = .ok ⟨60, 0, by decide⟩ := rfl
  refine ⟨_, hclock, hpieces, ?_⟩
  rw [ticks_of_total hclock (by decide) hpieces (by norm_num)]
  norm_num

/-- **A finer split counts a tick too many**: at one tick a second, two calls with `1 - 2 ^ (-30)`
seconds give two ticks, and one call with their sum gives one. -/
theorem ticks_gained_by_split :
    ∃ clock once twice, ofHz 1 = .ok clock ∧
      value once = .finite false (2 ^ 53 - 2 ^ 23) (-53) ∧
      value twice = .finite false (2 ^ 53 - 2 ^ 23) (-52) ∧
      (clock.advanceAll [.real once, .real once]).map Prod.fst = .ok 2 ∧
      (clock.advanceAll [.real twice]).map Prod.fst = .ok 1 := by
  refine ⟨⟨1, 0, Nat.one_pos⟩, .ofBits 0x3fefffffff800000, .ofBits 0x3fffffffff800000, rfl,
    ?_, ?_, ?_, ?_⟩
  · decide
  · decide
  · rfl
  · rfl

end FrameClock

end Chip8
