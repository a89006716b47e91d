import Chip8.Proofs.Display.Toggling
import Chip8.Word
import Mathlib.Algebra.BigOperators.Fin
import Mathlib.Data.Int.Bitwise

/-!
# The set bits of a sprite

A sprite that a host gives is a list of integers of any size, of which each contributes its low
eight bits.  A set bit is named by its row and its column, and it falls on the pixel that is so many
rows below and so many columns to the right of the upper left corner, around both edges.  The cells
that a drawing toggles are those of the set bits, row by row.

* `spriteBits rows`: the set bits, and `bitsOn x y rows px py`: those that fall on one pixel.
* `countP_spriteCells`: **the toggled cells are those of the set bits, each as often as bits fall on
  it.**
* `nodup_spriteCells`: a sprite of at most 32 rows toggles no cell twice.
-/

namespace Chip8

namespace Display

/-- The set bits of a sprite, each by its row and its column; the leftmost column has the highest of
the eight bits. -/
def spriteBits (rows : List Int) : Finset (Fin rows.length × Fin 8) :=
  {b | rows[b.1].testBit (7 - b.2)}

/-- The set bits that fall on a pixel, if the upper left corner is in column `x` and row `y`. -/
def bitsOn (x y : Int) (rows : List Int) (px : Fin 64) (py : Fin 32) :
    Finset (Fin rows.length × Fin 8) :=
  {b ∈ spriteBits rows | (x + b.2.val) % 64 = px.val ∧ (y + b.1.val) % 32 = py.val}

variable {x y : Int} {rows : List Int} {px : Fin 64} {py : Fin 32}

/-! ### Pixels and cells -/

theorem cellAt_eq_iff :
    cellAt x y = cellAt px.val py.val ↔ x % 64 = px.val ∧ y % 32 = py.val := by
  have hpx := px.isLt
  have hpy := py.isLt
  rw [cellAt, cellAt, Fin.mk.injEq]
  omega

theorem exists_cellAt_eq (p : Cell) : ∃ (px : Fin 64) (py : Fin 32), cellAt px.val py.val = p := by
  refine ⟨⟨p.val % 64, by omega⟩, ⟨p.val / 64, by omega⟩, Fin.ext ?_⟩
  show ((p.val / 64 : Nat) % 32 : Int).toNat * 64 + ((p.val % 64 : Nat) % 64 : Int).toNat = p.val
  omega

theorem lit_eq (d : Display) (px : Fin 64) (py : Fin 32) :
    d.lit px py = d.cells.get (cellAt px.val py.val) := by
  have hcell : (⟨py.val * 64 + px.val, by omega⟩ : Cell) = cellAt px.val py.val := by
    refine Fin.ext ?_
    show py.val * 64 + px.val = ((py.val : Int) % 32).toNat * 64 + ((px.val : Int) % 64).toNat
    omega
  exact congrArg d.cells.get hcell

/-! ### Bits and toggled cells -/

theorem testBit_ofInt (n : Int) {k : Nat} (hk : k < 8) :
    (UInt8.ofInt n).toNat.testBit k = n.testBit k := by
  have hbyte : (UInt8.ofInt n).toNat = (n % 256).toNat := by
    rw [← Word.toNat_ofInt, Int.toNat_natCast]
  rw [hbyte]
  cases n with
  | ofNat m =>
    have hrest : (Int.ofNat m % 256).toNat = m % 2 ^ 8 := by
      show ((m : Int) % 256).toNat = m % 256
      omega
    rw [hrest, Nat.testBit_mod_two_pow, decide_eq_true hk]
    rfl
  | negSucc m =>
    have hrest : (Int.negSucc m % 256).toNat = 2 ^ 8 - (m % 2 ^ 8 + 1) := by
      rw [Int.negSucc_emod m (by decide)]
      omega
    rw [hrest, Nat.testBit_two_pow_sub_succ (Nat.mod_lt _ (by decide)), Nat.testBit_mod_two_pow,
      decide_eq_true hk]
    rfl

theorem countP_range (q : Nat → Bool) (k : Nat) :
    (List.range k).countP q = ∑ c : Fin k, if q c then 1 else 0 := by
  induction k with
  | zero => rfl
  | succ k ih =>
    rw [List.range_succ, List.countP_append, ih, Fin.sum_univ_castSucc, List.countP_singleton]
    rfl

theorem countP_rowCells (q : Cell → Bool) (x y n : Int) :
    (rowCells x y (UInt8.ofInt n)).countP q =
      ∑ c : Fin 8, if n.testBit (7 - c) ∧ q (cellAt (x + c.val) y) then 1 else 0 := by
  rw [rowCells, List.countP_filterMap, countP_range]
  refine Finset.sum_congr rfl fun c _ => ?_
  rw [testBit_ofInt n (by omega)]
  by_cases hbit : n.testBit (7 - c.val) = true
  · simp [hbit]
  · simp [hbit]

/-- **The toggled cells are those of the set bits, each as often as bits fall on it.** -/
theorem countP_spriteCells (q : Cell → Bool) (x y : Int) (rows : List Int) :
    (spriteCells x y (rows.map UInt8.ofInt)).countP q =
      {b ∈ spriteBits rows | q (cellAt (x + b.2.val) (y + b.1.val))}.card := by
  rw [spriteBits, Finset.filter_filter, Finset.card_filter, Fintype.sum_prod_type]
  induction rows generalizing y with
  | nil => rfl
  | cons n rows ih =>
    rw [List.map_cons, spriteCells, List.countP_append, countP_rowCells, ih]
    refine Eq.trans ?_ (Fin.sum_univ_succ _).symm
    congr 1
    · refine Finset.sum_congr rfl fun c _ => ?_
      simp
    · refine Finset.sum_congr rfl fun r _ => Finset.sum_congr rfl fun c _ => ?_
      have hrow : y + 1 + (r.val : Int) = y + (r.succ.val : Int) := by
        rw [Fin.val_succ]
        omega
      rw [hrow]
      rfl

theorem length_spriteCells (x y : Int) (rows : List Int) :
    (spriteCells x y (rows.map UInt8.ofInt)).length = (spriteBits rows).card := by
  rw [← List.countP_true, countP_spriteCells, Finset.filter_true_of_mem fun _ _ => rfl]

/-- A pixel is toggled once for each set bit that falls on it. -/
theorem count_spriteCells (x y : Int) (rows : List Int) (px : Fin 64) (py : Fin 32) :
    (spriteCells x y (rows.map UInt8.ofInt)).count (cellAt px.val py.val) =
      (bitsOn x y rows px py).card := by
  rw [List.count, countP_spriteCells, bitsOn]
  congr 1
  refine Finset.filter_congr fun b _ => ?_
  rw [beq_iff_eq, cellAt_eq_iff]

theorem mem_spriteCells_iff :
    cellAt px.val py.val ∈ spriteCells x y (rows.map UInt8.ofInt) ↔
      (bitsOn x y rows px py).Nonempty := by
  rw [← List.count_pos_iff, count_spriteCells, Finset.card_pos]

/-- On each pixel there falls at most one bit of a sprite that is no longer than the display is
high: its rows and columns are closer together than the period of their axis. -/
theorem card_bitsOn_le_one (x y : Int) (h : rows.length ≤ 32) (px : Fin 64) (py : Fin 32) :
    (bitsOn x y rows px py).card ≤ 1 := by
  rw [Finset.card_le_one]
  intro a ha b hb
  obtain ⟨-, hax, hay⟩ := Finset.mem_filter.mp ha
  obtain ⟨-, hbx, hby⟩ := Finset.mem_filter.mp hb
  have hrow : a.1.val = b.1.val := by omega
  have hcolumn : a.2.val = b.2.val := by omega
  exact Prod.ext (Fin.ext hrow) (Fin.ext hcolumn)

/-- The 33rd row of a longer sprite falls on the first one. -/
example : (bitsOn 0 0 (List.replicate 33 0x80) 0 0).card = 2 := by decide +kernel

/-- **A sprite that is no longer than the display is high toggles no cell twice.** -/
theorem nodup_spriteCells (x y : Int) (h : rows.length ≤ 32) :
    (spriteCells x y (rows.map UInt8.ofInt)).Nodup := by
  refine List.nodup_iff_count_le_one.mpr fun p => ?_
  obtain ⟨px, py, rfl⟩ := exists_cellAt_eq p
  rw [count_spriteCells]
  exact card_bitsOn_le_one x y h px py

theorem exists_bitsOn_nonempty (x y : Int) (h : (spriteBits rows).Nonempty) :
    ∃ (px : Fin 64) (py : Fin 32), (bitsOn x y rows px py).Nonempty := by
  obtain ⟨b, hb⟩ := h
  obtain ⟨px, py, hcell⟩ := exists_cellAt_eq (cellAt (x + b.2.val) (y + b.1.val))
  exact ⟨px, py, b, Finset.mem_filter.mpr ⟨hb, cellAt_eq_iff.mp hcell.symm⟩⟩

theorem exists_mem_spriteCells_iff (q : Cell → Prop) :
    (∃ p ∈ spriteCells x y (rows.map UInt8.ofInt), q p) ↔
      ∃ (px : Fin 64) (py : Fin 32),
        (bitsOn x y rows px py).Nonempty ∧ q (cellAt px.val py.val) := by
  constructor
  · rintro ⟨p, hp, hq⟩
    obtain ⟨px, py, rfl⟩ := exists_cellAt_eq p
    exact ⟨px, py, mem_spriteCells_iff.mp hp, hq⟩
  · rintro ⟨px, py, hbits, hq⟩
    exact ⟨_, mem_spriteCells_iff.mpr hbits, hq⟩

end Display

end Chip8
