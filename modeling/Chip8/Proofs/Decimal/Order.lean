import Chip8.Proofs.Decimal.Exact

/-!
# Rounding and the order of numbers

Rounding never crosses a double: a double that is not above some number is not above what the number
is rounded to, and likewise from the other side.  So what is added to a double shows in the sum, or
it is lost, but it never turns into a loss.

* `Short`: numbers of at most fifty-three binary digits, `short_of_number?`: every double is one.
* `Rounded.ge_of_short`, `Rounded.le_of_short`: **rounding never crosses a double.**
* `Short.floor`: the whole part of a double is a double.
* `le_largest`, `largest_add_two_lt`: how far below the limit all doubles stay.
-/

namespace Chip8.Double

open Float.Model Float.Model.UnpackedFloat

variable {p q r : ℚ}

/-- A number of at most fifty-three binary digits, none of them behind the last place of all. -/
def Short (p : ℚ) : Prop := ∃ s : ℤ, -1074 ≤ s ∧ OnGrid s p ∧ |p| < 2 ^ (s + 53)

theorem Short.intCast {n : ℤ} (hn : |(n : ℚ)| < 2 ^ (53 : ℤ)) : Short n :=
  ⟨0, by decide, .int le_rfl n, hn⟩

theorem Short.zero : Short 0 := ⟨0, by decide, .zero 0, by rw [abs_zero]; exact two_zpow_pos _⟩

theorem Short.one : Short 1 := ⟨0, by decide, ⟨1, by norm_num⟩, by norm_num⟩

theorem OnGrid.neg {s : ℤ} (h : OnGrid s p) : OnGrid s (-p) := by
  have hneg := (OnGrid.zero s).sub h
  rwa [zero_sub] at hneg

theorem Short.neg (h : Short p) : Short (-p) := by
  obtain ⟨s, hs, hgrid, hsize⟩ := h
  exact ⟨s, hs, hgrid.neg, (abs_neg p).symm ▸ hsize⟩

theorem Rounded.neg (h : Rounded q r) : Rounded (-q) (-r) := by
  obtain ⟨t, hgrid, hclose, hplace⟩ := h
  have hdist : |(-r) - (-q)| = |r - q| := by rw [neg_sub_neg, abs_sub_comm]
  refine ⟨t, hgrid.neg, hdist.symm ▸ hclose, ?_⟩
  intro N hN hlt
  exact hplace N hN (abs_neg q ▸ hlt)

/-- Numbers short enough for a place are rounded to the place or a finer one. -/
theorem Rounded.eq_of_short (h : Rounded q r) (hq : Short q) : r = q := by
  obtain ⟨s, hs, hgrid, hsize⟩ := hq
  exact h.eq_of_onGrid hs hgrid hsize

/-- What lies on the grid to which a number is rounded is not crossed. -/
theorem le_of_onGrid {t : ℤ} (hr : OnGrid t r) (hclose : 2 * |r - q| ≤ 2 ^ t) (hp : OnGrid t p)
    (hpq : p ≤ q) : p ≤ r := by
  by_contra hlt
  have hstep := hr.add_le hp (not_le.mp hlt)
  have hback : q - r ≤ |r - q| := abs_sub_comm r q ▸ le_abs_self (q - r)
  linarith [two_zpow_pos t]

/-- **Rounding never crosses a double from above.** -/
theorem Rounded.ge_of_short (h : Rounded q r) (hp : Short p) (hpq : p ≤ q) : p ≤ r := by
  obtain ⟨s, hs, hgrid, hsize⟩ := hp
  obtain ⟨t, hr, hclose, hplace⟩ := h
  rcases le_or_gt t s with hts | hst
  · exact le_of_onGrid hr hclose (hgrid.of_le hts) hpq
  · -- a coarser grid means that `q` is large, and so a power of two lies between the two
    have hpow : (2 : ℚ) ^ (s + 53) ≤ 2 ^ (t + 52) := zpow_le_zpow_right₀ one_le_two (by omega)
    have hmid : OnGrid t (2 ^ (t + 52)) :=
      ⟨2 ^ 52, by rw [zpow_add₀ two_ne_zero]; push_cast; ring⟩
    have hlarge : (2 : ℚ) ^ (t + 52) ≤ |q| := by
      by_contra hlt
      have := hplace (t + 52) (by omega) (not_le.mp hlt)
      omega
    have hp_lt : p < 2 ^ (t + 52) := (le_abs_self p).trans_lt (hsize.trans_le hpow)
    rcases abs_cases q with ⟨habs, -⟩ | ⟨habs, hq⟩
    · exact hp_lt.le.trans (le_of_onGrid hr hclose hmid (habs ▸ hlarge))
    · -- below zero `p` would be larger still
      have hp_abs : |q| ≤ |p| := by
        rw [abs_of_neg hq, abs_of_neg (hpq.trans_lt hq)]
        exact neg_le_neg hpq
      exact absurd (hlarge.trans hp_abs) (not_le.mpr (hsize.trans_le hpow))

/-- **Rounding never crosses a double from below.** -/
theorem Rounded.le_of_short (h : Rounded q r) (hp : Short p) (hqp : q ≤ p) : r ≤ p :=
  neg_le_neg_iff.mp (h.neg.ge_of_short hp.neg (neg_le_neg hqp))

/-! ### Doubles -/

theorem short_of_fits {u : UnpackedFloat} (hfits : Fits u) (hu : unpacked? u = some p) :
    Short p := by
  cases u with
  | notANumber => cases hu
  | infinity s => cases hu
  | zero s =>
    cases hu
    exact .zero
  | finite s m e hm =>
    cases hu
    obtain ⟨hdigits, hlow, -, -⟩ := hfits
    refine ⟨e, hlow, ⟨s.apply m, rfl⟩, ?_⟩
    rw [abs_signed, add_comm, zpow_add₀ two_ne_zero]
    exact mul_lt_mul_of_pos_right (by exact_mod_cast hdigits) (two_zpow_pos e)

theorem short_of_number? {x : Float} (hx : number? x = some p) : Short p := by
  rw [number?_eq] at hx
  exact short_of_fits (fits_unpack _ hx) hx

/-- The largest double. -/
def largest : ℚ := 2 ^ (1024 : ℤ) - 2 ^ (971 : ℤ)

theorem largest_eq : largest = (2 ^ 53 - 1) * 2 ^ (971 : ℤ) := by
  have hpow : (2 : ℚ) ^ (1024 : ℤ) = 2 ^ 53 * 2 ^ (971 : ℤ) := by
    rw [← zpow_natCast, ← zpow_add₀ two_ne_zero]
    norm_num only
  rw [largest, hpow]
  ring

theorem abs_le_largest_of_fits {u : UnpackedFloat} (hfits : Fits u) (hu : unpacked? u = some p) :
    |p| ≤ largest := by
  cases u with
  | notANumber => cases hu
  | infinity s => cases hu
  | zero s =>
    cases hu
    rw [abs_zero, largest_eq]
    exact mul_nonneg (by norm_num) (two_zpow_pos 971).le
  | finite s m e hm =>
    cases hu
    obtain ⟨hdigits, -, hhigh, -⟩ := hfits
    have hm_le : (m : ℚ) ≤ 2 ^ 53 - 1 := by
      have : (m : ℚ) + 1 ≤ 2 ^ 53 := by exact_mod_cast hdigits
      linarith
    rw [abs_signed, largest_eq]
    exact mul_le_mul hm_le (zpow_le_zpow_right₀ one_le_two hhigh) (two_zpow_pos e).le (by norm_num)

theorem abs_le_largest {x : Float} (hx : number? x = some p) : |p| ≤ largest := by
  rw [number?_eq] at hx
  exact abs_le_largest_of_fits (fits_unpack _ hx) hx

theorem le_largest {x : Float} (hx : number? x = some p) : p ≤ largest :=
  (le_abs_self p).trans (abs_le_largest hx)

theorem largest_add_two_lt : largest + 2 < limit := by
  have hhalf : (2 : ℚ) ^ (971 : ℤ) = 2 ^ (970 : ℤ) * 2 := zpow_add_one₀ two_ne_zero 970
  have htwo : (2 : ℚ) < 2 ^ (970 : ℤ) := by
    calc (2 : ℚ) = 2 ^ (1 : ℤ) := (zpow_one 2).symm
      _ < 2 ^ (970 : ℤ) := zpow_lt_zpow_right₀ one_lt_two (by decide)
  rw [largest, limit, hhalf]
  generalize (2 : ℚ) ^ (970 : ℤ) = unit at htwo
  linarith

theorem Short.floor (h : Short p) (hp : 0 ≤ p) : Short (⌊p⌋ : ℤ) := by
  obtain ⟨s, hs, hgrid, hsize⟩ := h
  rcases le_or_gt 0 s with hwhole | hbroken
  · obtain ⟨j, hj⟩ := hgrid.of_le hwhole
    have hfloor : ((⌊p⌋ : ℤ) : ℚ) = p := by
      rw [hj, zpow_zero, mul_one, Int.floor_intCast]
    exact ⟨s, hs, hfloor.symm ▸ hgrid, hfloor.symm ▸ hsize⟩
  · have hpow : (2 : ℚ) ^ (s + 53) ≤ 2 ^ (53 : ℤ) := zpow_le_zpow_right₀ one_le_two (by omega)
    refine .intCast ?_
    rw [abs_of_nonneg (by exact_mod_cast Int.floor_nonneg.mpr hp)]
    exact (Int.floor_le p).trans_lt ((le_abs_self p).trans_lt (hsize.trans_le hpow))

end Chip8.Double
