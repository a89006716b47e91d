import Chip8.Proofs.Decimal.Rounding

/-!
# Doubles as numbers

Every finite double is a rational number, and the sum, the difference and the product of two doubles
are theirs, rounded once.  So as long as all numbers are multiples of one power of two and have no
more than fifty-three binary digits, doubles are computed with exactly.

* `value_eq`: **the parts by which a double is computed with are those that its bits say**, and
  `ofUnpacked_pack`: parts that fit survive to be packed.
* `number?`: the number that a double is, and `exists_number?_add`, `exists_number?_sub`,
  `exists_number?_mul`: sums, differences and products.
* `number?_of_onGrid`: **what is on a grid is not rounded.**
* `number?_ofNat`: **a natural number of at most fifty-three digits is a double.**
* `zero_lt_iff`, `wholePart_eq_floor`: comparing with zero and cutting down to a whole number.
-/

namespace Chip8.Double

open Float.Model Float.Model.UnpackedFloat

/-! ### The bits of a double -/

theorem toNat_unpackMantissa (b : BitVec 64) :
    (@unpackMantissa Format.binary64 b).toNat = b.toNat % 2 ^ 52 := by
  simp [unpackMantissa]

theorem toNat_unpackExponent (b : BitVec 64) :
    (@unpackExponent Format.binary64 b).toNat = b.toNat / 2 ^ 52 % 2048 := by
  simp [unpackExponent, Nat.shiftRight_eq_div_pow]

theorem toNat_unpackSign (b : BitVec 64) :
    (@unpackSign Format.binary64 b).toNat = b.toNat / 2 ^ 63 % 2 := by
  simp [unpackSign, Nat.shiftRight_eq_div_pow]

/-- What the three fields of the bits stand for. -/
def ofFields (negative : Bool) (exponent fraction : Nat) : Value :=
  if exponent = 2047 then
    if fraction = 0 then .infinite negative else .notANumber
  else if exponent = 0 then .finite negative fraction (-1074)
  else .finite negative (0x10000000000000 + fraction) ((exponent : Int) - 1075)

/-- What unpacked parts stand for. -/
def ofUnpacked : UnpackedFloat → Value
  | .zero s => .finite (s == .negative) 0 (-1074)
  | .finite s m e _ => .finite (s == .negative) m e
  | .infinity s => .infinite (s == .negative)
  | .notANumber => .notANumber

theorem ofUnpacked_unpack (b : BitVec 64) :
    ofUnpacked (UnpackedFloat.unpack Format.binary64 b) =
      ofFields (Sign.ofBitVec (@unpackSign Format.binary64 b) == .negative)
        (@unpackExponent Format.binary64 b).toNat
        (@unpackMantissa Format.binary64 b).toNat := by
  unfold UnpackedFloat.unpack ofFields
  dsimp only
  -- the exponents of all ones and of all zeros are the special ones
  by_cases hmax : @unpackExponent Format.binary64 b = -1#_
  · have hmax' : (@unpackExponent Format.binary64 b).toNat = 2047 := by rw [hmax]; rfl
    rw [if_pos hmax, if_pos hmax']
    by_cases hm : @unpackMantissa Format.binary64 b = 0#_
    · rw [if_pos hm, if_pos (by rw [hm]; rfl)]
      rfl
    · have hm' : (@unpackMantissa Format.binary64 b).toNat ≠ 0 :=
        fun h => hm (BitVec.eq_of_toNat_eq h)
      rw [if_neg hm, if_neg hm']
      rfl
  · have hmax' : (@unpackExponent Format.binary64 b).toNat ≠ 2047 :=
      fun h => hmax (BitVec.eq_of_toNat_eq h)
    rw [if_neg hmax, if_neg hmax']
    by_cases hzero : @unpackExponent Format.binary64 b = 0#_
    · rw [if_pos hzero, if_pos (by rw [hzero]; rfl)]
      by_cases hm : @unpackMantissa Format.binary64 b = 0#_
      · rw [dif_pos hm, hm]
        rfl
      · rw [dif_neg hm, hzero]
        rfl
    · have hzero' : (@unpackExponent Format.binary64 b).toNat ≠ 0 :=
        fun h => hzero (BitVec.eq_of_toNat_eq h)
      have happend : (1#1 ++ @unpackMantissa Format.binary64 b).toNat =
          0x10000000000000 + (@unpackMantissa Format.binary64 b).toNat := by
        rw [BitVec.toNat_append,
          ← Nat.shiftLeft_add_eq_or_of_lt (@unpackMantissa Format.binary64 b).isLt]
        rfl
      rw [if_neg hzero, if_neg hzero']
      simp only [ofUnpacked, happend]
      rfl

theorem ofBitVec_beq (b : BitVec 1) : (Sign.ofBitVec b == Sign.negative) = (b.toNat == 1) := by
  rcases BitVec.eq_zero_or_eq_one b with rfl | rfl <;> rfl

/-- **The parts by which a double is computed with are those that its bits say.** -/
theorem value_eq (x : Float) : value x = ofUnpacked x.toModel.unpack := by
  unfold Float.Model.unpack
  rw [ofUnpacked_unpack, ofBitVec_beq, toNat_unpackSign, toNat_unpackExponent,
    toNat_unpackMantissa]
  rfl

/-- The number that a value is; an infinite one is none. -/
def Value.number? : Value → Option ℚ
  | .finite negative m e => some (signed (if negative then .negative else .positive) m e)
  | .infinite _ => none
  | .notANumber => none

theorem number?_ofUnpacked (u : UnpackedFloat) : (ofUnpacked u).number? = unpacked? u := by
  cases u with
  | notANumber => rfl
  | infinity s => rfl
  | zero s => exact congrArg some (signed_zero _ _)
  | finite s m e hm => cases s <;> rfl

theorem fits_unpack (b : BitVec 64) {q : ℚ}
    (h : unpacked? (UnpackedFloat.unpack Format.binary64 b) = some q) :
    Fits (UnpackedFloat.unpack Format.binary64 b) := by
  have hfields := ofUnpacked_unpack b
  have hm : (@unpackMantissa Format.binary64 b).toNat < 2 ^ 52 := BitVec.isLt _
  have he : (@unpackExponent Format.binary64 b).toNat < 2048 := BitVec.isLt _
  cases hu : UnpackedFloat.unpack Format.binary64 b with
  | notANumber => rw [hu] at h; cases h
  | infinity s => rw [hu] at h; cases h
  | zero s => trivial
  | finite s m e hpos =>
    rw [hu, ofUnpacked, ofFields] at hfields
    split at hfields
    · split at hfields <;> cases hfields
    · split at hfields <;> injection hfields with _ hmant hexp <;>
        exact ⟨by omega, by omega, by omega, by omega⟩

theorem ofUnpacked_packComponents (s : Sign) (e : BitVec 11) (m : BitVec 52) :
    ofUnpacked (UnpackedFloat.unpack Format.binary64 (packComponents Format.binary64 s e m)) =
      ofFields (s == .negative) e.toNat m.toNat := by
  rw [ofUnpacked_unpack, unpackSign_packComponents, unpackExponent_packComponents,
    unpackMantissa_packComponents, Sign.ofBitVec_toBitVec]

theorem biasedExponent_eq (e : Int) :
    (e + Format.binary64.exponentBias +
      Format.binary64.mantissaBitsWithoutImplicit).toNat = (e + 1075).toNat := by
  simp only [Format.exponentBias]
  omega

/-- **Parts that fit survive to be packed.** -/
theorem ofUnpacked_pack {u : UnpackedFloat} (h : Fits u) :
    ofUnpacked (UnpackedFloat.unpack Format.binary64 (UnpackedFloat.pack Format.binary64 u)) =
      ofUnpacked u := by
  cases u with
  | notANumber => cases h
  | infinity s => cases h
  | zero s => exact ofUnpacked_packComponents s 0 0
  | finite s m e hpos =>
    obtain ⟨hm, hlow, hhigh, hdigits⟩ := h
    have hfinite : ¬ 2 ^ Format.binary64.exponentBits ≤ (e + 1075).toNat + 1 := by
      change ¬ 2048 ≤ (e + 1075).toNat + 1
      omega
    unfold UnpackedFloat.pack
    dsimp only
    rw [biasedExponent_eq, if_neg hfinite]
    have hpos' := Nat.ne_of_gt hpos
    -- the first digit of a normal number is not stored, but told by the exponent
    by_cases hnormal : 2 ^ 52 ≤ m
    · have hlog : m.log2 + 1 = Format.binary64.mantissaBits :=
        congrArg (· + 1) ((Nat.log2_eq_iff hpos').mpr ⟨hnormal, hm⟩)
      have hexp : (BitVec.ofNat 11 (e + 1075).toNat).toNat = (e + 1075).toNat := by
        rw [BitVec.toNat_ofNat]
        omega
      have hmant : (BitVec.ofNat 52 m).toNat = m - 2 ^ 52 := by
        rw [BitVec.toNat_ofNat]
        omega
      rw [if_pos hlog, ofUnpacked_packComponents, ofUnpacked, ofFields, hexp, hmant,
        if_neg (by omega), if_neg (by omega)]
      have hmant' : 0x10000000000000 + (m - 2 ^ 52) = m := by omega
      have hexp' : ((e + 1075).toNat : Int) - 1075 = e := by omega
      rw [hmant', hexp']
    · have hlog : ¬ m.log2 + 1 = Format.binary64.mantissaBits := fun h =>
        hnormal ((Nat.log2_eq_iff hpos').mp (Nat.succ.inj h)).1
      have hmant : (BitVec.ofNat 52 m).toNat = m := by
        rw [BitVec.toNat_ofNat]
        omega
      obtain rfl : e = -1074 := hdigits.resolve_left hnormal
      rw [if_neg hlog, ofUnpacked_packComponents, ofUnpacked, hmant, ofFields, if_neg (by decide),
        if_pos (by decide)]

/-! ### Computing with numbers -/

/-- The number that a double stands for. -/
def number? (x : Float) : Option ℚ := (value x).number?

theorem number?_eq (x : Float) : number? x = unpacked? x.toModel.unpack := by
  rw [number?, value_eq, number?_ofUnpacked]

theorem rounded_self {x : Float} {p : ℚ} (hx : number? x = some p) : Rounded p p := by
  rw [number?_eq] at hx
  obtain ⟨r, hr, hrounded⟩ := ((fits_unpack _ hx).isRounding hx).exists_number
  obtain rfl : p = r := Option.some.inj (hx.symm.trans hr)
  exact hrounded

theorem exists_number?_pack {u : UnpackedFloat} {q : ℚ} (h : IsRounding u q) :
    ∃ r, number? (Float.ofModel (Float.Model.pack u)) = some r ∧ Rounded q r := by
  obtain ⟨r, hr, hrounded⟩ := h.exists_number
  refine ⟨r, ?_, hrounded⟩
  rw [number?, value_eq, ← hr, ← number?_ofUnpacked u, ← ofUnpacked_pack h.fits]
  rfl

variable {x y : Float} {p q : ℚ}

theorem exists_number?_add (hx : number? x = some p) (hy : number? y = some q)
    (hbound : |p + q| < limit) :
    ∃ r, number? (x + y) = some r ∧ Rounded (p + q) r := by
  rw [number?_eq] at hx hy
  exact exists_number?_pack (isRounding_add (fits_unpack _ hx) (fits_unpack _ hy) hx hy hbound)

theorem exists_number?_mul (hx : number? x = some p) (hy : number? y = some q)
    (hbound : |p * q| < limit) :
    ∃ r, number? (x * y) = some r ∧ Rounded (p * q) r := by
  rw [number?_eq] at hx hy
  exact exists_number?_pack (isRounding_mul (fits_unpack _ hx) (fits_unpack _ hy) hx hy hbound)

theorem exists_number?_sub (hx : number? x = some p) (hy : number? y = some q)
    (hbound : |p - q| < limit) :
    ∃ r, number? (x - y) = some r ∧ Rounded (p - q) r := by
  rw [number?_eq] at hx hy
  exact exists_number?_pack (isRounding_sub (fits_unpack _ hx) (fits_unpack _ hy) hx hy hbound)

/-- **What is on a grid is not rounded**, as long as fifty-three digits reach that far. -/
theorem number?_of_onGrid {z : Float} {s : ℤ} {q : ℚ}
    (h : |q| < limit → ∃ r, number? z = some r ∧ Rounded q r) (hlow : -1074 ≤ s)
    (hhigh : s ≤ 970) (hgrid : OnGrid s q) (hq : |q| < 2 ^ (s + 53)) : number? z = some q := by
  have hpow : (2 : ℚ) ^ (s + 53) ≤ limit :=
    (zpow_le_zpow_right₀ one_le_two (by omega)).trans two_zpow_le_limit
  obtain ⟨r, hr, hrounded⟩ := h (hq.trans_le hpow)
  rw [hr, hrounded.eq_of_onGrid hlow hgrid hq]

/-! ### Whole numbers and zero -/

theorem exists_number?_toFloat (w : UInt64) :
    ∃ r, number? w.toFloat = some r ∧ Rounded w.toNat r := by
  have hz : ((w.toNat : ℤ) : ℚ) * 2 ^ (0 : ℤ) = w.toNat := by simp
  have hlt : |(w.toNat : ℚ)| < limit := by
    rw [abs_of_nonneg (Nat.cast_nonneg _)]
    calc (w.toNat : ℚ) < 2 ^ (64 : ℤ) := by exact_mod_cast w.toNat_lt
      _ ≤ 2 ^ (1023 : ℤ) := zpow_le_zpow_right₀ one_le_two (by decide)
      _ ≤ limit := two_zpow_le_limit
  have h := exists_number?_pack (isRounding_normalize w.toNat 0 .positive (hz.symm ▸ hlt))
  rw [hz] at h
  exact h

theorem number?_of_value {x : Float} {m : Nat} {e : Int} (h : value x = .finite false m e) :
    number? x = some ((m : ℚ) * 2 ^ e) := by
  rw [number?, h]
  rfl

theorem number?_zero : number? 0 = some 0 := by
  rw [number?_of_value (m := 0) (e := -1074) (by decide), Nat.cast_zero, zero_mul]

theorem number?_one : number? Float.exactlyRepresentablePowersOfTen[0] = some 1 := by
  rw [number?_of_value (m := 2 ^ 52) (e := -52) (by decide)]
  norm_num

/-- **A natural number of at most fifty-three digits is a double.** -/
theorem number?_ofNat {n : Nat} (hn : n < 2 ^ 53) : number? (Float.ofNat n) = some (n : ℚ) := by
  have hlt : |(n : ℚ)| < 2 ^ (0 + 53 : ℤ) := by
    rw [abs_of_nonneg (Nat.cast_nonneg n)]
    exact_mod_cast hn
  have hgrid : OnGrid 0 (n : ℚ) := .int le_rfl n
  have hword : number? n.toUInt64.toFloat = some (n : ℚ) := by
    have h := exists_number?_toFloat n.toUInt64
    have htoNat : n.toUInt64.toNat = n := Nat.mod_eq_of_lt (hn.trans (by decide))
    rw [htoNat] at h
    exact number?_of_onGrid (fun _ => h) (by decide) (by decide) hgrid hlt
  -- a number as small as this is read as a word and then multiplied by the zeroth power of ten
  have hprod := exists_number?_mul hword number?_one
  rw [mul_one] at hprod
  have heq : Float.ofNat n = n.toUInt64.toFloat * Float.exactlyRepresentablePowersOfTen[0] :=
    dif_pos ⟨hn, by decide⟩
  rw [heq]
  exact number?_of_onGrid hprod (by decide) (by decide) hgrid hlt

/-- **The order of doubles is that of their numbers**, against zero. -/
theorem zero_lt_iff {x : Float} {p : ℚ} (hx : number? x = some p) : 0 < x ↔ 0 < p := by
  have hzero : (0 : Float).toModel.unpack = .zero .positive := by rfl
  have hiff : 0 < x ↔ (0 : Float).toModel < x.toModel := decide_eq_true_iff
  have hiff' : (0 : Float).toModel < x.toModel ↔
      UnpackedFloat.lt (0 : Float).toModel.unpack x.toModel.unpack = true := Iff.rfl
  rw [hiff, hiff', hzero]
  rw [number?_eq] at hx
  cases hu : x.toModel.unpack with
  | notANumber => rw [hu] at hx; cases hx
  | infinity s => rw [hu] at hx; cases hx
  | zero s =>
    rw [hu] at hx
    cases hx
    exact iff_of_false Bool.false_ne_true (lt_irrefl 0)
  | finite s m e hm =>
    rw [hu] at hx
    cases hx
    have hpos : (0 : ℚ) < m * 2 ^ e := mul_pos (by exact_mod_cast hm) (two_zpow_pos e)
    cases s
    · rw [signed_negative]
      exact iff_of_false Bool.false_ne_true (by linarith)
    · exact iff_of_true rfl hpos

/-- **Cutting down to a whole number is rounding down.** -/
theorem wholePart_eq_floor (m : Nat) (e : Int) : (wholePart m e : ℤ) = ⌊(m : ℚ) * 2 ^ e⌋ := by
  unfold wholePart
  split
  · next hneg =>
    obtain ⟨k, rfl⟩ : ∃ k : ℕ, e = -k := ⟨e.natAbs, by omega⟩
    have hquot : (m : ℚ) * 2 ^ (-(k : ℤ)) = (m : ℚ) / (2 ^ k : ℕ) := by
      rw [zpow_neg, zpow_natCast, div_eq_mul_inv, Nat.cast_pow, Nat.cast_two]
    rw [hquot, Rat.floor_natCast_div_natCast, Int.natAbs_neg, Int.natAbs_natCast]
    rfl
  · next hpos =>
    obtain ⟨k, rfl⟩ : ∃ k : ℕ, e = k := ⟨e.natAbs, by omega⟩
    have hprod : (m : ℚ) * 2 ^ (k : ℤ) = ((m * 2 ^ k : ℤ) : ℚ) := by
      rw [zpow_natCast]
      push_cast
      rfl
    rw [hprod, Int.floor_intCast, Int.natAbs_natCast]
    push_cast
    rfl

theorem exists_value {x : Float} {p : ℚ} (hx : number? x = some p) (hp : 0 ≤ p) :
    ∃ negative m e, value x = .finite negative m e ∧ p = m * 2 ^ e ∧
      (negative = true → m = 0) := by
  unfold number? at hx
  cases hv : value x with
  | infinite negative => rw [hv] at hx; cases hx
  | notANumber => rw [hv] at hx; cases hx
  | finite negative m e =>
    rw [hv] at hx
    cases hx
    refine ⟨negative, m, e, rfl, ?_, ?_⟩
    · rw [← abs_of_nonneg hp, abs_signed]
    · rintro rfl
      rw [if_pos rfl, signed_negative] at hp
      have hzero : (m : ℚ) = 0 :=
        (nonpos_of_mul_nonpos_left (by linarith) (two_zpow_pos e)).antisymm (Nat.cast_nonneg m)
      exact_mod_cast hzero

end Chip8.Double
