import Chip8.Proofs.Decimal.Exact

/-!
# Doubles beyond the largest one

A number that reaches the limit, half a unit of the last place beyond the largest double, is rounded
to an infinity.  So a product may be infinite although its factors are not, and a natural number may
be too large for a double.  What is infinite or no number stays so: to add a finite double does not
change it, and neither does to multiply it by a positive one.

* `isInfinite_pack`: **parts beyond all doubles are packed as an infinity.**
* `value_add_left`, `value_add_right`, `value_mul_left`: what is not finite stays as it is.
* `isInfinite_mul`: the product that reaches the limit.
* `exists_number?_ofNat`, `isInfinite_ofNat`: natural numbers, below the limit and from it on.
-/

namespace Chip8.Double

open Float.Model Float.Model.UnpackedFloat

variable {x y : Float} {p q : ℚ}

/-! ### What is not finite -/

theorem ofUnpacked_infinity (s : Sign) :
    ofUnpacked (UnpackedFloat.unpack Format.binary64 (packedInfinity Format.binary64 s)) =
      .infinite (s == .negative) := by
  unfold packedInfinity
  rw [ofUnpacked_packComponents]
  rfl

/-- Parts that are not finite survive to be packed. -/
theorem ofUnpacked_pack_of_none {u : UnpackedFloat} (h : unpacked? u = none) :
    ofUnpacked (UnpackedFloat.unpack Format.binary64 (UnpackedFloat.pack Format.binary64 u)) =
      ofUnpacked u := by
  cases u with
  | zero s => cases h
  | finite s m e hm => cases h
  | infinity s => exact ofUnpacked_infinity s
  | notANumber =>
    change ofUnpacked (UnpackedFloat.unpack Format.binary64 (packedNaN Format.binary64)) = _
    unfold packedNaN
    rw [ofUnpacked_packComponents]
    rfl

theorem value_pack {u : UnpackedFloat} (h : unpacked? u = none) :
    value (Float.ofModel (Float.Model.pack u)) = ofUnpacked u :=
  (value_eq _).trans (ofUnpacked_pack_of_none h)

section parts

variable {u v : UnpackedFloat}

theorem add_of_none_right (hu : unpacked? u = some p) (hv : unpacked? v = none) :
    UnpackedFloat.add Format.binary64 u v = v := by
  cases v with
  | zero s => cases hv
  | finite s m e hm => cases hv
  | notANumber => cases u <;> rfl
  | infinity s =>
    cases u with
    | notANumber => cases hu
    | infinity s' => cases hu
    | zero s' => rfl
    | finite s' m e hm => rfl

theorem add_of_none_left (hu : unpacked? u = none) (hv : unpacked? v = some q) :
    UnpackedFloat.add Format.binary64 u v = u := by
  cases u with
  | zero s => cases hu
  | finite s m e hm => cases hu
  | notANumber => rfl
  | infinity s =>
    cases v with
    | notANumber => cases hv
    | infinity s' => cases hv
    | zero s' => rfl
    | finite s' m e hm => rfl

/-- A positive factor keeps the sign of an infinity. -/
theorem mul_of_none_left (hu : unpacked? u = none) (hv : unpacked? v = some q) (hq : 0 < q) :
    UnpackedFloat.mul Format.binary64 u v = u := by
  cases v with
  | notANumber => cases hv
  | infinity s => cases hv
  | zero s =>
    cases hv
    exact absurd hq (lt_irrefl 0)
  | finite s m e hm =>
    cases hv
    have hpos : (0 : ℚ) ≤ m * 2 ^ e := mul_nonneg (Nat.cast_nonneg m) (two_zpow_pos e).le
    have hs : s = .positive := by
      cases s with
      | positive => rfl
      | negative =>
        rw [signed_negative] at hq
        linarith
    subst hs
    cases u with
    | zero s => cases hu
    | finite s m e hm => cases hu
    | notANumber => rfl
    | infinity s => cases s <;> rfl

end parts

theorem value_add_right (hx : number? x = some p) (hy : number? y = none) :
    value (x + y) = value y := by
  rw [number?_eq] at hx hy
  have hsum := add_of_none_right hx hy
  rw [value_eq y, ← hsum]
  exact value_pack (hsum.symm ▸ hy)

theorem value_add_left (hx : number? x = none) (hy : number? y = some q) :
    value (x + y) = value x := by
  rw [number?_eq] at hx hy
  have hsum := add_of_none_left hx hy
  rw [value_eq x, ← hsum]
  exact value_pack (hsum.symm ▸ hx)

theorem value_mul_left (hx : number? x = none) (hy : number? y = some q) (hq : 0 < q) :
    value (x * y) = value x := by
  rw [number?_eq] at hx hy
  have hprod := mul_of_none_left hx hy hq
  rw [value_eq x, ← hprod]
  exact value_pack (hprod.symm ▸ hx)

/-! ### Infinities -/

/-- The double is one of the two infinities. -/
def IsInfinite (x : Float) : Prop := ∃ negative, value x = .infinite negative

theorem IsInfinite.number? (h : IsInfinite x) : Double.number? x = none := by
  obtain ⟨negative, hx⟩ := h
  rw [Double.number?, hx]
  rfl

/-- **Parts beyond all doubles are packed as an infinity.** -/
theorem isInfinite_pack {u : UnpackedFloat} (h : Exceeds u) :
    IsInfinite (Float.ofModel (Float.Model.pack u)) := by
  cases h with
  | infinity s => exact ⟨s == .negative, value_pack rfl⟩
  | @finite s m e hm he =>
    have hlarge : 2 ^ Format.binary64.exponentBits ≤ (e + 1075).toNat + 1 := by
      change 2048 ≤ (e + 1075).toNat + 1
      omega
    have hpack : UnpackedFloat.pack Format.binary64 (.finite s m e hm) =
        packedInfinity Format.binary64 s := by
      unfold UnpackedFloat.pack
      dsimp only
      rw [biasedExponent_eq, if_pos hlarge]
    refine ⟨s == .negative, (value_eq _).trans ?_⟩
    rw [← ofUnpacked_infinity s, ← hpack]
    rfl

/-- **A product that reaches the limit is infinite.** -/
theorem isInfinite_mul (hx : number? x = some p) (hy : number? y = some q)
    (hbig : limit ≤ |p * q|) : IsInfinite (x * y) := by
  rw [number?_eq] at hx hy
  exact isInfinite_pack (exceeds_mul (fits_unpack _ hx) (fits_unpack _ hy) hx hy hbig)

/-! ### Natural numbers -/

/-- Fifty-three zeros are put behind the digits of a number before it is rounded. -/
theorem ofScientific_eq {n : Nat} (hn : 0 < n) :
    UnpackedFloat.ofScientific Format.binary64 n 0 =
      roundWithAccuracy Format.binary64 .positive (n <<< 53) (-53) .exact := by
  have hlow : ¬ (0 : Int) < -((2 ^ Format.binary64.exponentBits : Int) + n.log2) := by
    have hpow : (0 : Int) < 2 ^ Format.binary64.exponentBits := Int.pow_pos (by decide)
    omega
  unfold UnpackedFloat.ofScientific
  rw [dif_neg hn.ne', if_neg (by decide), if_neg hlow, if_pos le_rfl]
  change roundWithAccuracy Format.binary64 .positive ((n <<< 53) * 1) (-53) .exact = _
  rw [Nat.mul_one]

theorem ofNat_eq {n : Nat} (hn : 2 ^ 53 ≤ n) :
    Float.ofNat n = Float.ofModel (Float.Model.pack
      (roundWithAccuracy Format.binary64 .positive (n <<< 53) (-53) .exact)) := by
  have hslow : Float.ofNat n = Float.ofModel (Float.Model.ofScientific n 0) :=
    dif_neg fun h => absurd h.1 (not_lt.mpr hn)
  rw [hslow, Float.Model.ofScientific, ofScientific_eq (by omega)]

theorem shiftLeft_pos {n : Nat} (hn : 0 < n) (k : Nat) : 0 < n <<< k := by
  rw [Nat.shiftLeft_eq]
  exact Nat.mul_pos hn (Nat.two_pow_pos k)

theorem signed_natCast (n : Nat) : signed .positive (n <<< 53) (-53) = n := by
  have h := signed_shiftLeft .positive n 53 0
  rw [signed.eq_def _ n 0, zpow_zero, mul_one] at h
  exact h

theorem le_lastPlace_shiftLeft {n : Nat} (hn : 0 < n) :
    (-53 : Int) ≤ lastPlace (n <<< 53) (-53) := by
  have h := lastPlace_shiftLeft hn 53 0
  have hlast : (-53 : Int) ≤ lastPlace n 0 := by
    unfold lastPlace
    omega
  exact hlast.trans h.ge

/-- **A natural number below the limit is rounded to a double.** -/
theorem exists_number?_ofNat {n : Nat} (hn : (n : ℚ) < limit) :
    ∃ r, number? (Float.ofNat n) = some r ∧ Rounded n r := by
  rcases Nat.lt_or_ge n (2 ^ 53) with hsmall | hlarge
  · have hnumber := number?_ofNat hsmall
    exact ⟨n, hnumber, rounded_self hnumber⟩
  · have hpos : 0 < n := (Nat.two_pow_pos 53).trans_le hlarge
    have hbound : |signed .positive (n <<< 53) (-53)| < limit := by
      rwa [signed_natCast, abs_of_nonneg (Nat.cast_nonneg n)]
    have hrounding := isRounding_roundWithAccuracy .positive (shiftLeft_pos hpos 53)
      (le_lastPlace_shiftLeft hpos) hbound
    rw [signed_natCast] at hrounding
    rw [ofNat_eq hlarge]
    exact exists_number?_pack hrounding

theorem two_pow_le_of_limit_le {n : Nat} (hn : limit ≤ n) : 2 ^ 53 ≤ n := by
  have hpow : (2 : ℚ) ^ (53 : ℤ) ≤ 2 ^ (1023 : ℤ) := zpow_le_zpow_right₀ one_le_two (by decide)
  have hcast : ((2 ^ 53 : ℕ) : ℚ) = 2 ^ (53 : ℤ) := by norm_num
  exact Nat.cast_le.mp (hcast.le.trans ((hpow.trans two_zpow_le_limit).trans hn))

theorem exceeds_shiftLeft {n : Nat} (hn : limit ≤ n) (hpos : 0 < n) :
    Exceeds (roundWithAccuracy Format.binary64 .positive (n <<< 53) (-53) .exact) := by
  apply exceeds_roundWithAccuracy .positive (shiftLeft_pos hpos 53) (le_lastPlace_shiftLeft hpos)
  rwa [← abs_signed .positive, signed_natCast, abs_of_nonneg (Nat.cast_nonneg n)]

/-- **A natural number from the limit on is infinite as a double.** -/
theorem isInfinite_ofNat {n : Nat} (hn : limit ≤ n) : IsInfinite (Float.ofNat n) := by
  have hlarge := two_pow_le_of_limit_le hn
  rw [ofNat_eq hlarge]
  exact isInfinite_pack (exceeds_shiftLeft hn ((Nat.two_pow_pos 53).trans_le hlarge))

end Chip8.Double
