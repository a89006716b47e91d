import Chip8.Decimal.Double
import Mathlib

/-!
# How doubles are rounded

A sum or a product of doubles is computed exactly and then cut down to fifty-three binary digits, or
to fewer if the last place of all, `2 ^ (-1074)`, comes first.  Two bits remember of what is cut off
whether it is nothing, less than half a unit, half a unit or more, and by them the digits are
rounded.  Here the numbers are rational numbers, and all questions about rounding are answered by
three facts: the result is a multiple of the last place that is kept, it lies within half a unit of
that place, and a number below `2 ^ N` is kept down to the place `N - 53`.

* `Tells`: what the two bits say of the rest that is cut off.
* `lastPlace`: the place of the last digit that is kept.
* `OnGrid`: multiples of a power of two.
* `Rounded`: the three facts.  `Rounded.eq_of_onGrid`: **a number of at most fifty-three digits is
  not changed**, and `Rounded.close` bounds the error otherwise.
* `Fits`: the parts that a double can have, and `IsRounding`: such parts that stand for a number
  after rounding.
* `isRounding_add`, `isRounding_sub`, `isRounding_mul`: **sums, differences and products are rounded
  once**, as long as they are below the `limit`.
* `Exceeds`: parts beyond all doubles.  `exceeds_roundWithAccuracy`: what reaches the limit is rounded
  to such parts.
-/

namespace Chip8.Double

open Float.Model Float.Model.UnpackedFloat

/-! ### Bits that are cut off -/

/-- What the two extra bits of a mantissa tell about the rest that was cut off below it, against the
unit of its last place. -/
def Tells (em : ExtendedMantissa) (rest unit : Nat) : Prop :=
  match em.roundBit, em.stickyBit with
  | false, false => rest = 0
  | false, true => 0 < rest ∧ 2 * rest < unit
  | true, false => 2 * rest = unit
  | true, true => unit < 2 * rest ∧ rest < unit

theorem Tells.shiftRightOne {em : ExtendedMantissa} {rest unit : Nat} (h : Tells em rest unit)
    (hunit : 0 < unit) :
    Tells em.shiftRightOne (em.mantissa % 2 * unit + rest) (unit * 2) := by
  obtain ⟨m, roundBit, stickyBit⟩ := em
  rcases Nat.mod_two_eq_zero_or_one m with hm | hm <;> cases roundBit <;> cases stickyBit <;>
    simp only [Tells, ExtendedMantissa.shiftRightOne, hm] at h ⊢ <;>
    simp <;> omega

theorem exists_tells_shiftRight (m k : Nat) :
    ∃ rest < 2 ^ k, m = ((ExtendedMantissa.mk m false false) >>> k).mantissa * 2 ^ k + rest ∧
      Tells ((ExtendedMantissa.mk m false false) >>> k) rest (2 ^ k) := by
  induction k with
  | zero => exact ⟨0, by decide, (Nat.mul_one m).symm, rfl⟩
  | succ k ih =>
    obtain ⟨rest, hrest, hm, htells⟩ := ih
    generalize hem : (ExtendedMantissa.mk m false false) >>> k = em at hm htells
    have hnext : (ExtendedMantissa.mk m false false) >>> (k + 1) = em.shiftRightOne := by
      rw [← hem]
      rfl
    rw [hnext]
    refine ⟨em.mantissa % 2 * 2 ^ k + rest, ?_, ?_, htells.shiftRightOne (Nat.two_pow_pos k)⟩
    · rcases Nat.mod_two_eq_zero_or_one em.mantissa with h | h <;> rw [h] <;> omega
    · have hdiv := Nat.div_add_mod em.mantissa 2
      calc m = (2 * (em.mantissa / 2) + em.mantissa % 2) * 2 ^ k + rest := by rw [hdiv, ← hm]
        _ = em.mantissa / 2 * 2 ^ (k + 1) + (em.mantissa % 2 * 2 ^ k + rest) := by ring

/-- To round by the two bits moves a number by at most half a unit. -/
theorem Tells.roundedMantissa {em : ExtendedMantissa} {rest unit : Nat} (h : Tells em rest unit) :
    2 * (em.roundedMantissa * unit) ≤ 2 * (em.mantissa * unit + rest) + unit ∧
      2 * (em.mantissa * unit + rest) ≤ 2 * (em.roundedMantissa * unit) + unit := by
  obtain ⟨m, roundBit, stickyBit⟩ := em
  cases roundBit <;> cases stickyBit <;>
    simp only [Tells] at h <;>
    simp only [ExtendedMantissa.roundedMantissa, ExtendedMantissa.accuracy,
      Accuracy.roundToNearestEven]
  · omega
  · omega
  · rcases Nat.mod_two_eq_zero_or_one m with hm | hm <;> rw [hm] <;> simp only [Nat.add_mul] <;>
      omega
  · simp only [Nat.add_mul]
    omega

theorem Tells.roundedMantissa_of_half {em : ExtendedMantissa} {rest unit : Nat}
    (h : Tells em rest unit) (hunit : 0 < unit) (hhalf : 2 * rest = unit) :
    em.roundedMantissa = em.mantissa + em.mantissa % 2 := by
  obtain ⟨m, roundBit, stickyBit⟩ := em
  cases roundBit <;> cases stickyBit <;> simp only [Tells] at h
  · omega
  · omega
  · rfl
  · omega

theorem roundedMantissa_bounds (em : ExtendedMantissa) :
    em.mantissa ≤ em.roundedMantissa ∧ em.roundedMantissa ≤ em.mantissa + 1 := by
  obtain ⟨m, roundBit, stickyBit⟩ := em
  cases roundBit <;> cases stickyBit <;>
    simp only [ExtendedMantissa.roundedMantissa, ExtendedMantissa.accuracy,
      Accuracy.roundToNearestEven] <;>
    omega

/-! ### The place of the last digit -/

/-- The place of the last digit that is kept of a number: the fifty-third digit of it, but never one
behind the last place of all. -/
def lastPlace (m : Nat) (e : Int) : Int := max (m.log2 + e - 52) (-1074)

theorem targetExponent_eq (m : Nat) (e : Int) :
    Format.binary64.targetExponent (totalExponent m e) = lastPlace m e := by
  simp only [Format.targetExponent, totalExponent, Format.mantissaBits, Format.minExponent,
    lastPlace]
  norm_num
  omega

/-- Digits as they are kept with the place of the last one.  One digit too many comes from rounding
up, and then it ends in zeros. -/
def kept (s : Sign) (r : Nat) (t : Int) : UnpackedFloat :=
  if h : r = 0 then .zero s
  else if r < 2 ^ 53 then .finite s r t (Nat.pos_of_ne_zero h)
  else .finite s (2 ^ 52) (t + 1) (by decide)

theorem log2_le_of_lt {m k : Nat} (h : m < 2 ^ (k + 1)) : m.log2 ≤ k := by
  by_cases hm : m = 0
  · rw [hm, Nat.log2_zero]
    exact Nat.zero_le k
  · exact Nat.le_of_lt_succ ((Nat.log2_lt hm).mpr h)

theorem shiftToTargetExponent_eq (m : Nat) (e : Int) :
    shiftToTargetExponent Format.binary64 m e .exact =
      ((ExtendedMantissa.mk m false false) >>> (lastPlace m e - e).toNat,
        e + (lastPlace m e - e).toNat) := by
  simp only [shiftToTargetExponent, targetExponent_eq, shiftToExponent,
    ExtendedMantissa.ofMantissaAndAccuracy]

/-- Digits that were rounded are cut down once more, and then they are as they are kept. -/
theorem roundWithAccuracy_eq {s : Sign} {m k : Nat} {e : Int} {em : ExtendedMantissa}
    (hem : (ExtendedMantissa.mk m false false) >>> k = em) (hk : lastPlace m e = e + k)
    (hr : em.roundedMantissa ≤ 2 ^ 53) :
    roundWithAccuracy Format.binary64 s m e .exact =
      kept s em.roundedMantissa (lastPlace m e) := by
  have hlow : -1074 ≤ lastPlace m e := le_max_right _ _
  have hshift : (lastPlace m e - e).toNat = k := by omega
  unfold roundWithAccuracy
  rw [shiftToTargetExponent_eq, hshift, hem, ← hk]
  dsimp only
  rw [shiftToTargetExponent_eq]
  generalize lastPlace m e = t at hlow
  generalize em.roundedMantissa = r at hr
  -- rounding up may have carried the digits to the next power of two, which has one place more
  rcases Nat.lt_or_ge r (2 ^ 53) with hlt | hge
  · have hnone : (lastPlace r t - t).toNat = 0 := by
      have := log2_le_of_lt hlt
      unfold lastPlace
      omega
    rw [hnone]
    change (if h : r = 0 then UnpackedFloat.zero s
      else .finite s r (t + 0) (Nat.pos_of_ne_zero h)) = _
    unfold kept
    simp only [hlt, if_true, add_zero]
  · obtain rfl : r = 2 ^ 53 := Nat.le_antisymm hr hge
    have hone : (lastPlace (2 ^ 53) t - t).toNat = 1 := by
      unfold lastPlace
      rw [Nat.log2_two_pow]
      omega
    rw [hone]
    rfl

/-! ### Numbers and their parts -/

/-- Digits with a sign, as many places before or behind the point as the exponent says. -/
def signed (s : Sign) (m : Nat) (e : Int) : ℚ := ((s.apply m : Int) : ℚ) * 2 ^ e

/-- The number that the parts of a double make up; there is none for an infinity. -/
def unpacked? : UnpackedFloat → Option ℚ
  | .zero _ => some 0
  | .finite s m e _ => some (signed s m e)
  | .infinity _ => none
  | .notANumber => none

/-- Numbers are rounded to doubles as long as they are less than half a unit of the last place beyond
the largest double. -/
def limit : ℚ := 2 ^ (1024 : ℤ) - 2 ^ (970 : ℤ)

/-- The parts that a double can have: fifty-three digits, or fewer at the last place of all. -/
def Fits : UnpackedFloat → Prop
  | .zero _ => True
  | .finite _ m e _ => m < 2 ^ 53 ∧ -1074 ≤ e ∧ e ≤ 971 ∧ (2 ^ 52 ≤ m ∨ e = -1074)
  | .infinity _ => False
  | .notANumber => False

/-! ### Grids -/

theorem two_zpow_pos (t : ℤ) : (0 : ℚ) < 2 ^ t := zpow_pos two_pos t

/-- A multiple of a power of two. -/
def OnGrid (s : ℤ) (q : ℚ) : Prop := ∃ j : ℤ, q = j * 2 ^ s

namespace OnGrid

variable {s : ℤ} {p q : ℚ}

theorem zero (s : ℤ) : OnGrid s 0 := ⟨0, by simp⟩

theorem add (hp : OnGrid s p) (hq : OnGrid s q) : OnGrid s (p + q) := by
  obtain ⟨j, rfl⟩ := hp
  obtain ⟨k, rfl⟩ := hq
  exact ⟨j + k, by push_cast; ring⟩

theorem sub (hp : OnGrid s p) (hq : OnGrid s q) : OnGrid s (p - q) := by
  obtain ⟨j, rfl⟩ := hp
  obtain ⟨k, rfl⟩ := hq
  exact ⟨j - k, by push_cast; ring⟩

theorem mul_int (hp : OnGrid s p) (n : ℤ) : OnGrid s (p * n) := by
  obtain ⟨j, rfl⟩ := hp
  exact ⟨j * n, by push_cast; ring⟩

theorem int (hs : s ≤ 0) (n : ℤ) : OnGrid s n := by
  obtain ⟨d, rfl⟩ : ∃ d : ℕ, s = -d := ⟨(-s).toNat, by omega⟩
  refine ⟨n * 2 ^ d, ?_⟩
  rw [zpow_neg, zpow_natCast]
  push_cast
  rw [mul_assoc, mul_inv_cancel₀ (pow_ne_zero d two_ne_zero), mul_one]

theorem add_le (hp : OnGrid s p) (hq : OnGrid s q) (hlt : p < q) : p + 2 ^ s ≤ q := by
  obtain ⟨j, rfl⟩ := hp
  obtain ⟨k, rfl⟩ := hq
  have hjk : j + 1 ≤ k := by exact_mod_cast lt_of_mul_lt_mul_right hlt (two_zpow_pos s).le
  calc (j : ℚ) * 2 ^ s + 2 ^ s = ((j + 1 : ℤ) : ℚ) * 2 ^ s := by push_cast; ring
    _ ≤ k * 2 ^ s := mul_le_mul_of_nonneg_right (Int.cast_le.mpr hjk) (two_zpow_pos s).le

theorem of_le {t : ℤ} (hp : OnGrid s p) (hts : t ≤ s) : OnGrid t p := by
  obtain ⟨j, rfl⟩ := hp
  obtain ⟨d, rfl⟩ : ∃ d : ℕ, s = t + d := ⟨(s - t).toNat, by omega⟩
  refine ⟨j * 2 ^ d, ?_⟩
  rw [zpow_add₀ two_ne_zero, zpow_natCast]
  push_cast
  ring

theorem abs (hp : OnGrid s p) : OnGrid s |p| := by
  obtain ⟨j, rfl⟩ := hp
  refine ⟨|j|, ?_⟩
  rw [abs_mul, abs_of_pos (two_zpow_pos s), Int.cast_abs]

theorem eq_zero (hp : OnGrid s p) (hsmall : |p| < 2 ^ s) : p = 0 := by
  by_contra hne
  have hstep := (zero s).add_le hp.abs (abs_pos.mpr hne)
  rw [zero_add] at hstep
  exact absurd hsmall (not_lt.mpr hstep)

end OnGrid

/-- `r` is what rounding makes of `q`: a multiple of the last place that is kept, and no other is
nearer.  How far behind the point that place is depends on how large `q` is. -/
def Rounded (q r : ℚ) : Prop :=
  ∃ t : ℤ, OnGrid t r ∧ 2 * |r - q| ≤ 2 ^ t ∧ ∀ N : ℤ, -1021 ≤ N → |q| < 2 ^ N → t ≤ N - 53

theorem Rounded.close {q r : ℚ} (h : Rounded q r) {N : ℤ} (hN : -1021 ≤ N) (hq : |q| < 2 ^ N) :
    2 * |r - q| ≤ 2 ^ (N - 53) := by
  obtain ⟨t, -, hclose, hplace⟩ := h
  exact hclose.trans (zpow_le_zpow_right₀ one_le_two (hplace N hN hq))

/-- **A number of at most fifty-three digits is not changed.** -/
theorem Rounded.eq_of_onGrid {q r : ℚ} (h : Rounded q r) {s : ℤ} (hs : -1074 ≤ s)
    (hgrid : OnGrid s q) (hq : |q| < 2 ^ (s + 53)) : r = q := by
  obtain ⟨t, hr, hclose, hplace⟩ := h
  have hts : t ≤ s := by
    have := hplace (s + 53) (by omega) hq
    omega
  have hsmall : |r - q| < 2 ^ t := by linarith [two_zpow_pos t]
  exact sub_eq_zero.mp ((hr.sub (hgrid.of_le hts)).eq_zero hsmall)

/-! ### What rounding keeps -/

theorem signed_zero (s : Sign) (e : Int) : signed s 0 e = 0 := by
  cases s <;> simp [signed, Sign.apply]

theorem signed_negative (m : Nat) (e : Int) : signed .negative m e = -(m * 2 ^ e) := by
  simp only [signed, Sign.apply, Int.cast_neg, Int.cast_natCast, neg_mul]

theorem unpacked?_kept (s : Sign) {r : Nat} (t : Int) (hr : r ≤ 2 ^ 53) :
    unpacked? (kept s r t) = some (signed s r t) := by
  unfold kept
  split
  · next h => rw [h, signed_zero, unpacked?]
  · split
    · rfl
    · next hge =>
      obtain rfl : r = 2 ^ 53 := by omega
      have htwice : (2 : ℚ) ^ (t + 1) = 2 ^ t * 2 := zpow_add_one₀ two_ne_zero t
      cases s <;> simp only [unpacked?, signed, Sign.apply, htwice] <;> push_cast <;> congr 1 <;>
        ring

theorem fits_kept (s : Sign) {r : Nat} {t : Int} (ht : t = -1074 ∨ 2 ^ 52 ≤ r)
    (hlow : -1074 ≤ t) (hhigh : t ≤ 971) (hr : 2 ^ 53 ≤ r → t ≤ 970) : Fits (kept s r t) := by
  unfold kept
  split
  · trivial
  · split
    · next hlt => exact ⟨hlt, hlow, hhigh, ht.symm⟩
    · next hge => exact ⟨by decide, by omega, by have := hr (by omega); omega, .inl le_rfl⟩

theorem lastPlace_le {m : Nat} {e : Int} (hm : 0 < m) {N : ℤ} (hN : -1021 ≤ N)
    (h : (m : ℚ) * 2 ^ e < 2 ^ N) : lastPlace m e ≤ N - 53 := by
  have hlog : (2 : ℚ) ^ (m.log2 + e) < 2 ^ N := by
    calc (2 : ℚ) ^ (m.log2 + e) = 2 ^ m.log2 * 2 ^ e := by
          rw [zpow_add₀ two_ne_zero, zpow_natCast]
      _ ≤ m * 2 ^ e :=
          mul_le_mul_of_nonneg_right (by exact_mod_cast Nat.log2_self_le hm.ne')
            (two_zpow_pos e).le
      _ < 2 ^ N := h
  have := (zpow_lt_zpow_iff_right₀ one_lt_two).mp hlog
  unfold lastPlace
  omega

/-- What stands before the last place are at most fifty-three digits. -/
theorem digits_lt {m k : Nat} {e : Int} (hk : lastPlace m e = e + k) : m < 2 ^ 53 * 2 ^ k := by
  have hlog : m.log2 + 1 ≤ 53 + k := by
    unfold lastPlace at hk
    omega
  calc m < 2 ^ (m.log2 + 1) := Nat.lt_log2_self
    _ ≤ 2 ^ (53 + k) := Nat.pow_le_pow_right two_pos hlog
    _ = 2 ^ 53 * 2 ^ k := pow_add 2 53 k

/-- There are as many, unless the last place of all stops them. -/
theorem le_digits {m k : Nat} {e : Int} (hm : 0 < m) (hk : lastPlace m e = e + k)
    (hlast : lastPlace m e ≠ -1074) : 2 ^ 52 * 2 ^ k ≤ m := by
  have hlog : m.log2 = 52 + k := by
    unfold lastPlace at hk hlast
    omega
  rw [← pow_add, ← hlog]
  exact Nat.log2_self_le hm.ne'

theorem abs_signed_sub (s : Sign) (m m' : Nat) (e e' : Int) :
    |signed s m e - signed s m' e'| = |(m : ℚ) * 2 ^ e - m' * 2 ^ e'| := by
  cases s
  · rw [abs_sub_comm]
    simp only [signed, Sign.apply]
    push_cast
    congr 1
    ring
  · rfl

theorem abs_signed (s : Sign) (m : Nat) (e : Int) : |signed s m e| = m * 2 ^ e := by
  have hpos : (0 : ℚ) ≤ m * 2 ^ e := mul_nonneg (Nat.cast_nonneg m) (two_zpow_pos e).le
  cases s
  · rw [signed_negative, abs_neg, abs_of_nonneg hpos]
  · exact abs_of_nonneg hpos

theorem two_mul_abs_sub_le {m r k : Nat} (e : Int) (hup : 2 * (r * 2 ^ k) ≤ 2 * m + 2 ^ k)
    (hdown : 2 * m ≤ 2 * (r * 2 ^ k) + 2 ^ k) :
    2 * |(r : ℚ) * 2 ^ (e + (k : ℤ)) - m * 2 ^ e| ≤ 2 ^ (e + (k : ℤ)) := by
  have hup' : (2 * (r * 2 ^ k) : ℚ) ≤ 2 * m + 2 ^ k := by exact_mod_cast hup
  have hdown' : (2 * m : ℚ) ≤ 2 * (r * 2 ^ k) + 2 ^ k := by exact_mod_cast hdown
  have hhalf : |(r * 2 ^ k - m : ℚ)| ≤ 2 ^ k / 2 := abs_le.mpr ⟨by linarith, by linarith⟩
  calc 2 * |(r : ℚ) * 2 ^ (e + (k : ℤ)) - m * 2 ^ e|
      = 2 * |(r * 2 ^ k - m : ℚ) * 2 ^ e| := by
        rw [zpow_add₀ two_ne_zero, zpow_natCast]
        congr 2
        ring
    _ = 2 * |(r * 2 ^ k - m : ℚ)| * 2 ^ e := by
        rw [abs_mul, abs_of_pos (two_zpow_pos e), mul_assoc]
    _ ≤ 2 ^ k * 2 ^ e := mul_le_mul_of_nonneg_right (by linarith) (two_zpow_pos e).le
    _ = 2 ^ (e + (k : ℤ)) := by rw [add_comm e, zpow_add₀ two_ne_zero, zpow_natCast]

/-- Unpacked parts that stand for a number after rounding. -/
structure IsRounding (u : UnpackedFloat) (q : ℚ) : Prop where
  fits : Fits u
  exists_number : ∃ r, unpacked? u = some r ∧ Rounded q r

theorem limit_lt_two_zpow : limit < 2 ^ (1024 : ℤ) := sub_lt_self _ (two_zpow_pos 970)

theorem two_zpow_le_limit : (2 : ℚ) ^ (1023 : ℤ) ≤ limit := by
  have hhigh : (2 : ℚ) ^ (1024 : ℤ) = 2 ^ (1023 : ℤ) * 2 := zpow_add_one₀ two_ne_zero 1023
  have hlow : (2 : ℚ) ^ (970 : ℤ) ≤ 2 ^ (1023 : ℤ) := zpow_le_zpow_right₀ one_le_two (by decide)
  rw [limit, hhigh, mul_two, add_sub_assoc]
  exact le_add_of_nonneg_right (sub_nonneg.mpr hlow)

/-- The limit, told from digits of which `k` places are cut off if the largest doubles are not to be
exceeded. -/
theorem limit_le_iff {m k : Nat} {e : Int} (hk : e + k = 971) :
    limit ≤ m * 2 ^ e ↔ (2 ^ 54 - 1) * 2 ^ k ≤ 2 * m := by
  have htwice : 2 * limit = ((2 ^ 54 - 1) * 2 ^ k : ℕ) * 2 ^ e := by
    have hpow : (2 : ℚ) ^ (971 : ℤ) = 2 ^ k * 2 ^ e := by
      rw [← hk, add_comm, zpow_add₀ two_ne_zero, zpow_natCast]
    have hlimit : 2 * limit = (2 ^ 54 - 1) * 2 ^ (971 : ℤ) := by
      have hhigh : (2 : ℚ) ^ (1024 : ℤ) = 2 ^ (53 : ℤ) * 2 ^ (971 : ℤ) :=
        zpow_add₀ two_ne_zero 53 971
      have hlow : (2 : ℚ) ^ (971 : ℤ) = 2 ^ (970 : ℤ) * 2 := zpow_add_one₀ two_ne_zero 970
      rw [limit, hhigh, mul_sub, mul_comm 2 ((2 : ℚ) ^ (970 : ℤ)), ← hlow]
      ring
    rw [hlimit, hpow, ← mul_assoc]
    norm_num
  rw [← mul_le_mul_iff_right₀ (two_pos (α := ℚ)), htwice, ← mul_assoc,
    mul_le_mul_iff_left₀ (two_zpow_pos e)]
  exact_mod_cast Iff.rfl

/-- Digits `m` are cut down by `k` places and rounded to `r`. -/
structure RoundsTo (m k r : Nat) : Prop where
  le : r ≤ 2 ^ 53
  up : 2 * (r * 2 ^ k) ≤ 2 * m + 2 ^ k
  down : 2 * m ≤ 2 * (r * 2 ^ k) + 2 ^ k
  /-- From half a unit below the next power of two on, the digits are rounded up to it. -/
  top : (2 ^ 54 - 1) * 2 ^ k ≤ 2 * m → r = 2 ^ 53

theorem roundWithAccuracy_eq_kept (s : Sign) {m : Nat} {e : Int} (hm : 0 < m)
    (he : e ≤ lastPlace m e) :
    ∃ r k : ℕ, lastPlace m e = e + k ∧ RoundsTo m k r ∧ (lastPlace m e = -1074 ∨ 2 ^ 52 ≤ r) ∧
      roundWithAccuracy Format.binary64 s m e .exact = kept s r (lastPlace m e) := by
  obtain ⟨k, hk⟩ : ∃ k : ℕ, lastPlace m e = e + k := ⟨(lastPlace m e - e).toNat, by omega⟩
  obtain ⟨rest, hrest, hsplit, htells⟩ := exists_tells_shiftRight m k
  generalize hem : (ExtendedMantissa.mk m false false) >>> k = em at hsplit htells
  have hbounds := roundedMantissa_bounds em
  have hnear := htells.roundedMantissa
  have hunit : 0 < 2 ^ k := Nat.two_pow_pos k
  have hem_lt : em.mantissa < 2 ^ 53 :=
    lt_of_mul_lt_mul_right ((Nat.le_add_right _ rest).trans_lt (hsplit ▸ digits_lt hk))
      (Nat.zero_le (2 ^ k))
  -- the digits fill their places, except below the normal numbers
  have hem_ge : lastPlace m e = -1074 ∨ 2 ^ 52 ≤ em.mantissa := by
    refine or_iff_not_imp_left.mpr fun hlast => ?_
    have hm_ge := le_digits hm hk hlast
    refine Nat.le_of_lt_succ (lt_of_mul_lt_mul_right ?_ (Nat.zero_le (2 ^ k)))
    rw [Nat.succ_mul]
    omega
  have htop : (2 ^ 54 - 1) * 2 ^ k ≤ 2 * m → em.roundedMantissa = 2 ^ 53 := by
    intro hbig
    have hlast : em.mantissa = 2 ^ 53 - 1 := by
      have hle : (2 ^ 53 - 1) * 2 ^ k < (em.mantissa + 1) * 2 ^ k := by
        rw [Nat.succ_mul]
        omega
      have := lt_of_mul_lt_mul_right hle (Nat.zero_le (2 ^ k))
      omega
    rw [hlast] at hsplit hnear
    -- all digits are ones, so a tie is odd and goes up as well
    by_cases hhalf : 2 * rest = 2 ^ k
    · rw [htells.roundedMantissa_of_half hunit hhalf, hlast]
      rfl
    · have hmore : (2 ^ 53 - 1) * 2 ^ k < em.roundedMantissa * 2 ^ k := by omega
      have := lt_of_mul_lt_mul_right hmore (Nat.zero_le (2 ^ k))
      omega
  exact ⟨_, k, hk, ⟨by omega, hsplit ▸ hnear.1, hsplit ▸ hnear.2, htop⟩, by omega,
    roundWithAccuracy_eq hem hk (by omega)⟩

/-- **Rounding keeps the nearest multiple of the last place.** -/
theorem isRounding_roundWithAccuracy (s : Sign) {m : Nat} {e : Int} (hm : 0 < m)
    (he : e ≤ lastPlace m e) (hbound : |signed s m e| < limit) :
    IsRounding (roundWithAccuracy Format.binary64 s m e .exact) (signed s m e) := by
  obtain ⟨r, k, hk, hr, hfull, hkept⟩ := roundWithAccuracy_eq_kept s hm he
  have hhigh : lastPlace m e ≤ 971 := by
    have hlt : |signed s m e| < 2 ^ (1024 : ℤ) :=
      hbound.trans limit_lt_two_zpow
    rw [abs_signed] at hlt
    exact lastPlace_le hm (by decide) hlt
  have hlow : -1074 ≤ lastPlace m e := le_max_right _ _
  -- a carry at the last exponent of all would make the number too large to be a double
  have hroom : 2 ^ 53 ≤ r → lastPlace m e ≤ 970 := by
    intro hge
    by_contra hlast
    have hbig : limit ≤ m * 2 ^ e := by
      have hup := hr.up
      rw [Nat.le_antisymm hr.le hge] at hup
      rw [limit_le_iff (k := k) (by omega)]
      omega
    rw [abs_signed] at hbound
    exact absurd hbound (not_lt.mpr hbig)
  rw [hkept]
  refine ⟨fits_kept s hfull hlow hhigh hroom, _, unpacked?_kept s _ hr.le,
    lastPlace m e, ⟨_, rfl⟩, ?_, fun N hN hlt => ?_⟩
  · rw [abs_signed_sub, hk]
    exact two_mul_abs_sub_le e hr.up hr.down
  · rw [abs_signed] at hlt
    exact lastPlace_le hm hN hlt

/-- Parts that are beyond all doubles. -/
inductive Exceeds : UnpackedFloat → Prop
  | finite (s : Sign) {m : Nat} {e : Int} (hm : 0 < m) (he : 972 ≤ e) : Exceeds (.finite s m e hm)
  | infinity (s : Sign) : Exceeds (.infinity s)

theorem exceeds_kept (s : Sign) {r : Nat} {t : Int} (hr : 2 ^ 52 ≤ r)
    (ht : 972 ≤ t ∨ 2 ^ 53 ≤ r ∧ 971 ≤ t) : Exceeds (kept s r t) := by
  unfold kept
  rw [dif_neg (by omega)]
  split
  · exact .finite s _ (by omega)
  · exact .finite s _ (by omega)

theorem le_lastPlace {m : Nat} {e : Int} {N : ℤ} (h : (2 : ℚ) ^ N ≤ m * 2 ^ e) :
    N - 52 ≤ lastPlace m e := by
  have hlog : (2 : ℚ) ^ N < 2 ^ ((m.log2 : ℤ) + 1 + e) := by
    calc (2 : ℚ) ^ N ≤ m * 2 ^ e := h
      _ < 2 ^ (m.log2 + 1) * 2 ^ e :=
          mul_lt_mul_of_pos_right (by exact_mod_cast Nat.lt_log2_self) (two_zpow_pos e)
      _ = 2 ^ ((m.log2 : ℤ) + 1 + e) := by
          rw [zpow_add₀ two_ne_zero]
          norm_cast
  have := (zpow_lt_zpow_iff_right₀ one_lt_two).mp hlog
  unfold lastPlace
  omega

/-- **What reaches the limit is rounded to more than the largest double.** -/
theorem exceeds_roundWithAccuracy (s : Sign) {m : Nat} {e : Int} (hm : 0 < m)
    (he : e ≤ lastPlace m e) (hbig : limit ≤ m * 2 ^ e) :
    Exceeds (roundWithAccuracy Format.binary64 s m e .exact) := by
  obtain ⟨r, k, hk, hr, hfull, hkept⟩ := roundWithAccuracy_eq_kept s hm he
  have hplace := le_lastPlace (two_zpow_le_limit.trans hbig)
  rw [hkept]
  refine exceeds_kept s (by omega) ?_
  by_cases hlast : lastPlace m e = 971
  · exact .inr ⟨(hr.top ((limit_le_iff (hk.symm.trans hlast)).mp hbig)).ge, hlast.ge⟩
  · exact .inl (by omega)

theorem log2_shiftLeft {m : Nat} (hm : 0 < m) (k : Nat) : (m <<< k).log2 = m.log2 + k := by
  rw [Nat.shiftLeft_eq]
  have hpos : 0 < 2 ^ k := Nat.two_pow_pos k
  refine (Nat.log2_eq_iff (Nat.mul_pos hm hpos).ne').mpr ⟨?_, ?_⟩
  · rw [pow_add]
    exact Nat.mul_le_mul_right _ (Nat.log2_self_le hm.ne')
  · rw [show m.log2 + k + 1 = m.log2 + 1 + k by omega, pow_add]
    exact Nat.mul_lt_mul_of_pos_right Nat.lt_log2_self hpos

theorem shiftLeft_mul_zpow (m k : Nat) (e : Int) :
    ((m <<< k : Nat) : ℚ) * 2 ^ (e - k) = m * 2 ^ e := by
  rw [Nat.shiftLeft_eq, zpow_sub₀ two_ne_zero, zpow_natCast]
  push_cast
  rw [mul_assoc, mul_div_cancel₀ _ (pow_ne_zero k two_ne_zero)]

theorem signed_shiftLeft (s : Sign) (m k : Nat) (e : Int) :
    signed s (m <<< k) (e - k) = signed s m e := by
  have h := abs_signed_sub s (m <<< k) m (e - k) e
  rw [shiftLeft_mul_zpow, sub_self, abs_zero] at h
  exact sub_eq_zero.mp (abs_eq_zero.mp h)

theorem lastPlace_shiftLeft {m : Nat} (hm : 0 < m) (k : Nat) (e : Int) :
    lastPlace (m <<< k) (e - k) = lastPlace m e := by
  unfold lastPlace
  rw [log2_shiftLeft hm]
  omega

theorem isRounding_round (s : Sign) {m : Nat} {e : Int} (hm : 0 < m)
    (hbound : |signed s m e| < limit) :
    IsRounding (UnpackedFloat.round Format.binary64 s m e) (signed s m e) := by
  unfold UnpackedFloat.round decreaseExponent
  rw [targetExponent_eq]
  have hplace := lastPlace_shiftLeft hm (e - lastPlace m e).toNat e
  have hsigned := signed_shiftLeft s m (e - lastPlace m e).toNat e
  rw [← hsigned]
  refine isRounding_roundWithAccuracy s ?_ (by omega) (hsigned.symm ▸ hbound)
  rw [Nat.shiftLeft_eq]
  exact Nat.mul_pos hm (Nat.two_pow_pos _)

theorem rounded_zero : Rounded 0 0 :=
  ⟨-1074, ⟨0, by simp⟩, by simp, fun N hN _ => by omega⟩

theorem isRounding_zero (s : Sign) : IsRounding (.zero s) 0 := ⟨trivial, 0, rfl, rounded_zero⟩

theorem isRounding_normalize (z e : Int) (s : Sign) (hbound : |(z : ℚ) * 2 ^ e| < limit) :
    IsRounding (UnpackedFloat.normalize Format.binary64 z e s) (z * 2 ^ e) := by
  unfold UnpackedFloat.normalize
  rcases lt_trichotomy z 0 with hz | rfl | hz
  · have hsigned : signed .negative (-z).toNat e = z * 2 ^ e := by
      have hcast : (((-z).toNat : Int)) = -z := Int.toNat_of_nonneg (by omega)
      simp only [signed, Sign.apply, hcast, neg_neg]
    rw [compare_lt_iff_lt.mpr hz, ← hsigned]
    exact isRounding_round .negative (by omega) (hsigned.symm ▸ hbound)
  · simpa using isRounding_zero s
  · have hsigned : signed .positive z.toNat e = z * 2 ^ e := by
      have hcast : ((z.toNat : Int)) = z := Int.toNat_of_nonneg hz.le
      simp only [signed, Sign.apply, hcast]
    rw [compare_gt_iff_gt.mpr hz, ← hsigned]
    exact isRounding_round .positive (by omega) (hsigned.symm ▸ hbound)

theorem Fits.isRounding {u : UnpackedFloat} {q : ℚ} (hfits : Fits u) (hu : unpacked? u = some q) :
    IsRounding u q := by
  refine ⟨hfits, q, hu, ?_⟩
  cases u with
  | notANumber => cases hu
  | infinity s => cases hu
  | zero s =>
    cases hu
    exact rounded_zero
  | finite s m e hm =>
    cases hu
    refine ⟨e, ⟨s.apply m, rfl⟩, ?_, fun N hN hlt => ?_⟩
    · rw [sub_self, abs_zero, mul_zero]
      exact (two_zpow_pos e).le
    · obtain ⟨-, -, -, hdigits | rfl⟩ := hfits
      · rw [abs_signed] at hlt
        have hpow : (2 : ℚ) ^ (52 + e) < 2 ^ N := by
          refine lt_of_le_of_lt ?_ hlt
          rw [zpow_add₀ two_ne_zero]
          exact mul_le_mul_of_nonneg_right (by exact_mod_cast hdigits) (two_zpow_pos e).le
        have := (zpow_lt_zpow_iff_right₀ one_lt_two).mp hpow
        omega
      · omega

/-! ### Sums and products -/

theorem isRounding_add {x y : UnpackedFloat} {p q : ℚ} (hfx : Fits x) (hfy : Fits y)
    (hx : unpacked? x = some p) (hy : unpacked? y = some q) (hbound : |p + q| < limit) :
    IsRounding (UnpackedFloat.add Format.binary64 x y) (p + q) := by
  cases x with
  | notANumber => cases hx
  | infinity s => cases hx
  | zero s =>
    cases hx
    rw [zero_add]
    cases y with
    | notANumber => cases hy
    | infinity s => cases hy
    | zero s' =>
      cases hy
      change IsRounding (if s == s' then .zero s else .zero .positive) 0
      split <;> exact isRounding_zero _
    | finite s' m' e' hm' => exact hfy.isRounding hy
  | finite s m e hm =>
    cases y with
    | notANumber => cases hy
    | infinity s => cases hy
    | zero s' =>
      cases hy
      rw [add_zero]
      exact hfx.isRounding hx
    | finite s' m' e' hm' =>
      cases hx
      cases hy
      -- both are brought to the smaller exponent, so that their digits are added exactly
      have hsum : ((s.apply (m <<< (e - min e e').toNat : Nat) +
          s'.apply (m' <<< (e' - min e e').toNat : Nat) : Int) : ℚ) * 2 ^ min e e' =
          signed s m e + signed s' m' e' := by
        rw [← signed_shiftLeft s m (e - min e e').toNat,
          ← signed_shiftLeft s' m' (e' - min e e').toNat]
        have he : e - (e - min e e').toNat = min e e' := by omega
        have he' : e' - (e' - min e e').toNat = min e e' := by omega
        rw [he, he', signed, signed, Int.cast_add, add_mul]
      unfold UnpackedFloat.add decreaseExponent
      rw [← hsum] at hbound ⊢
      exact isRounding_normalize _ _ _ hbound

theorem apply_neg (s : Sign) (n : Int) : (-s).apply n = -s.apply n := by
  cases s
  · exact (Int.neg_neg n).symm
  · rfl

theorem fits_neg {u : UnpackedFloat} (h : Fits u) : Fits u.neg := by
  cases u <;> exact h

theorem unpacked?_neg {u : UnpackedFloat} {q : ℚ} (h : unpacked? u = some q) :
    unpacked? u.neg = some (-q) := by
  cases u with
  | notANumber => cases h
  | infinity s => cases h
  | zero s =>
    cases h
    rw [neg_zero]
    rfl
  | finite s m e hm =>
    cases h
    rw [UnpackedFloat.neg, unpacked?, signed, apply_neg, Int.cast_neg, neg_mul]
    rfl

theorem unpacked_sub_eq (x y : UnpackedFloat) :
    UnpackedFloat.sub Format.binary64 x y = UnpackedFloat.add Format.binary64 x y.neg := by
  cases x with
  | notANumber => rfl
  | infinity s => cases y <;> rfl
  | zero s => cases y <;> rfl
  | finite s m e hm =>
    cases y with
    | notANumber => rfl
    | infinity s' => rfl
    | zero s' => rfl
    | finite s' m' e' hm' =>
      simp only [UnpackedFloat.sub, UnpackedFloat.add, UnpackedFloat.neg, apply_neg,
        Int.sub_eq_add_neg]

theorem isRounding_sub {x y : UnpackedFloat} {p q : ℚ} (hfx : Fits x) (hfy : Fits y)
    (hx : unpacked? x = some p) (hy : unpacked? y = some q) (hbound : |p - q| < limit) :
    IsRounding (UnpackedFloat.sub Format.binary64 x y) (p - q) := by
  rw [unpacked_sub_eq, sub_eq_add_neg]
  rw [sub_eq_add_neg] at hbound
  exact isRounding_add hfx (fits_neg hfy) hx (unpacked?_neg hy) hbound

theorem apply_mul (s s' : Sign) (m m' : Nat) :
    (s * s').apply (m * m' : Nat) = s.apply m * s'.apply m' := by
  rw [Nat.cast_mul]
  cases s <;> cases s'
  · exact (Int.neg_mul_neg _ _).symm
  · exact (Int.neg_mul _ _).symm
  · exact (Int.mul_neg _ _).symm
  · rfl

theorem signed_mul (s s' : Sign) (m m' : Nat) (e e' : Int) :
    signed (s * s') (m * m') (e + e') = signed s m e * signed s' m' e' := by
  rw [signed, signed, signed, apply_mul, zpow_add₀ two_ne_zero]
  push_cast
  ring

/-- A product has as many digits as either factor, so none of them has to be filled up. -/
theorem le_lastPlace_mul {m m' : Nat} {e e' : Int} (hm : 0 < m) (hm' : 0 < m')
    (h : 2 ^ 52 ≤ m ∨ e = -1074) (h' : 2 ^ 52 ≤ m' ∨ e' = -1074) :
    e + e' ≤ lastPlace (m * m') (e + e') := by
  have hlog (hbig : 2 ^ 52 ≤ m * m') : e + e' ≤ lastPlace (m * m') (e + e') := by
    have := (Nat.le_log2 (Nat.mul_pos hm hm').ne').mpr hbig
    unfold lastPlace
    omega
  rcases h with h | h
  · exact hlog (h.trans (Nat.le_mul_of_pos_right m hm'))
  · rcases h' with h' | h'
    · exact hlog (h'.trans (Nat.le_mul_of_pos_left m' hm))
    · unfold lastPlace
      omega

theorem isRounding_mul {x y : UnpackedFloat} {p q : ℚ} (hfx : Fits x) (hfy : Fits y)
    (hx : unpacked? x = some p) (hy : unpacked? y = some q) (hbound : |p * q| < limit) :
    IsRounding (UnpackedFloat.mul Format.binary64 x y) (p * q) := by
  cases x with
  | notANumber => cases hx
  | infinity s => cases hx
  | zero s =>
    cases hx
    rw [zero_mul]
    cases y with
    | notANumber => cases hy
    | infinity s' => cases hy
    | zero s' => exact isRounding_zero _
    | finite s' m' e' hm' => exact isRounding_zero _
  | finite s m e hm =>
    cases y with
    | notANumber => cases hy
    | infinity s' => cases hy
    | zero s' =>
      cases hy
      rw [mul_zero]
      exact isRounding_zero _
    | finite s' m' e' hm' =>
      cases hx
      cases hy
      rw [← signed_mul] at hbound ⊢
      exact isRounding_roundWithAccuracy _ (Nat.mul_pos hm hm')
        (le_lastPlace_mul hm hm' hfx.2.2.2 hfy.2.2.2) hbound

theorem exceeds_mul {x y : UnpackedFloat} {p q : ℚ} (hfx : Fits x) (hfy : Fits y)
    (hx : unpacked? x = some p) (hy : unpacked? y = some q) (hbig : limit ≤ |p * q|) :
    Exceeds (UnpackedFloat.mul Format.binary64 x y) := by
  have hpos : ¬ limit ≤ |(0 : ℚ)| := by
    rw [abs_zero, not_le]
    exact (two_zpow_pos 1023).trans_le two_zpow_le_limit
  cases x with
  | notANumber => cases hx
  | infinity s => cases hx
  | zero s =>
    cases hx
    rw [zero_mul] at hbig
    exact absurd hbig hpos
  | finite s m e hm =>
    cases y with
    | notANumber => cases hy
    | infinity s' => cases hy
    | zero s' =>
      cases hy
      rw [mul_zero] at hbig
      exact absurd hbig hpos
    | finite s' m' e' hm' =>
      cases hx
      cases hy
      rw [← signed_mul, abs_signed] at hbig
      exact exceeds_roundWithAccuracy _ (Nat.mul_pos hm hm')
        (le_lastPlace_mul hm hm' hfx.2.2.2 hfy.2.2.2) hbig

end Chip8.Double
