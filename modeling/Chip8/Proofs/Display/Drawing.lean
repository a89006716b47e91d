import Chip8.Proofs.Display.SpriteBits

/-!
# Drawing sprites

What a drawing leaves on the display, what it tells about collisions, and how many pixels are lit
after it, all in terms of the set bits of the sprite.

* `lit_blit`: **a pixel ends lit when it was lit or an odd number of set bits fall on it, but not
  both.**
* `collides_iff`: a sprite of at most 32 rows collides exactly where one of its bits falls on a lit
  pixel.
* `lost_light`: **the lit pixels fall short of one more for each set bit exactly when there was a
  collision**, for sprites of any length.
* `cells_drawAll`: a list of drawings toggles the cells of them all.
* `drawings_commute_and_cancel`: **so their order does not matter, and two equal ones cancel.**
-/

namespace Chip8

namespace Display

variable {d : Display} {x y : Int} {rows : List Int} {px : Fin 64} {py : Fin 32}

/-! ### One drawing -/

/-- **A pixel ends lit when it was lit or an odd number of set bits fall on it, but not both.** -/
theorem lit_blit (d : Display) (x y : Int) (rows : List Int) (px : Fin 64) (py : Fin 32) :
    (d.blit x y rows).1.lit px py =
      (d.lit px py ^^ decide (Odd (bitsOn x y rows px py).card)) := by
  rw [lit_eq, lit_eq]
  refine (getElem_toggleAll d.cells false _ (cellAt px.val py.val)).trans ?_
  rw [count_spriteCells]
  simp only [Nat.odd_iff]
  rfl

theorem collides_iff (x y : Int) (h : rows.length ≤ 32) :
    (d.blit x y rows).2 = true ↔
      ∃ (px : Fin 64) (py : Fin 32),
        (bitsOn x y rows px py).Nonempty ∧ d.lit px py = true := by
  simp only [lit_eq]
  rw [← exists_mem_spriteCells_iff fun p => d.cells.get p = true]
  exact collides_iff_of_nodup (nodup_spriteCells x y h)

/-- Each set bit lights one more pixel, except for those that turn a pixel off. -/
theorem litCount_blit (d : Display) (x y : Int) (rows : List Int) :
    (d.blit x y rows).1.litCount +
        2 * turnedOff d.cells (spriteCells x y (rows.map UInt8.ofInt)) =
      d.litCount + (spriteBits rows).card := by
  rw [← length_spriteCells x y rows]
  exact count_toggleAll d.cells false _

/-- **Collision is exactly lost light.**  There are at most as many lit pixels as there were, and
one more for each set bit; the two numbers are both odd or both even; and they are equal exactly
when there was no collision. -/
theorem lost_light (d : Display) (x y : Int) (rows : List Int) :
    (d.blit x y rows).1.litCount ≤ d.litCount + (spriteBits rows).card ∧
    (d.blit x y rows).1.litCount % 2 = (d.litCount + (spriteBits rows).card) % 2 ∧
    ((d.blit x y rows).1.litCount = d.litCount + (spriteBits rows).card ↔
      (d.blit x y rows).2 = false) := by
  have hcount := litCount_blit d x y rows
  have hcollides : (d.blit x y rows).2 =
      decide (0 < turnedOff d.cells (spriteCells x y (rows.map UInt8.ofInt))) :=
    (toggleAll_snd _ _ _).trans (Bool.false_or _)
  refine ⟨by omega, by omega, ?_⟩
  rw [hcollides, decide_eq_false_iff_not]
  omega

/-! ### Many drawings -/

/-- A sprite and the place of its upper left corner. -/
structure Drawing where
  x : Int
  y : Int
  rows : List Int

/-- The cells that a drawing toggles. -/
def Drawing.cells (s : Drawing) : List Cell := spriteCells s.x s.y (s.rows.map UInt8.ofInt)

/-- The display after some drawings, made one after the other. -/
def drawAll (d : Display) (drawings : List Drawing) : Display :=
  drawings.foldl (fun d s => (d.blit s.x s.y s.rows).1) d

theorem cells_drawAll (d : Display) (drawings : List Drawing) :
    (d.drawAll drawings).cells =
      (toggleAll d.cells false (drawings.flatMap Drawing.cells)).1 := by
  induction drawings generalizing d with
  | nil => rfl
  | cons s drawings ih =>
    rw [drawAll, List.foldl_cons, ← drawAll, ih, List.flatMap_cons, toggleAll_append]
    exact toggleAll_congr (fun _ => rfl) _ _

/-- What is on the display depends on how often each cell is toggled, odd or even. -/
theorem cells_drawAll_congr {drawings drawings' : List Drawing}
    (h : ∀ p, (drawings.flatMap Drawing.cells).count p % 2 =
      (drawings'.flatMap Drawing.cells).count p % 2) :
    (d.drawAll drawings).cells = (d.drawAll drawings').cells := by
  rw [cells_drawAll, cells_drawAll, toggleAll_congr h]

theorem cells_drawAll_perm (d : Display) {drawings drawings' : List Drawing}
    (h : drawings.Perm drawings') : (d.drawAll drawings).cells = (d.drawAll drawings').cells := by
  refine cells_drawAll_congr fun p => ?_
  rw [(h.flatMap_right Drawing.cells).count_eq]

/-- Two equal drawings cancel, whatever is drawn before, between and after them. -/
theorem cells_drawAll_cancel (d : Display) (s : Drawing) (before between after : List Drawing) :
    (d.drawAll (before ++ s :: (between ++ s :: after))).cells =
      (d.drawAll (before ++ (between ++ after))).cells := by
  refine cells_drawAll_congr fun p => ?_
  simp only [List.flatMap_append, List.flatMap_cons, List.count_append]
  omega

/-- A pixel that some bit of a sprite of at most 32 rows falls on changes. -/
theorem lit_blit_of_nonempty (d : Display) (h : rows.length ≤ 32)
    (hbits : (bitsOn x y rows px py).Nonempty) :
    (d.blit x y rows).1.lit px py = !d.lit px py := by
  have hone : (bitsOn x y rows px py).card = 1 := by
    have hle := card_bitsOn_le_one x y h px py
    have hpos := Finset.card_pos.mpr hbits
    omega
  rw [lit_blit, hone]
  simp

/-- The second of two equal drawings collides exactly where a bit falls on a pixel that was dark at
the start. -/
theorem collides_again_iff (d : Display) (x y : Int) (h : rows.length ≤ 32) :
    ((d.blit x y rows).1.blit x y rows).2 = true ↔
      ∃ (px : Fin 64) (py : Fin 32),
        (bitsOn x y rows px py).Nonempty ∧ d.lit px py = false := by
  rw [collides_iff x y h]
  refine exists_congr fun px => exists_congr fun py => and_congr_right fun hbits => ?_
  rw [lit_blit_of_nonempty d h hbits, Bool.not_eq_true']

/-- **Drawings commute, and two equal ones cancel.**  For what is on the display, the order of
drawings does not matter, and one that occurs twice can be left out twice.  Of two equal drawings in
a row, with at most 32 rows, the first collides where a bit falls on a lit pixel and the second
where one falls on a dark one. -/
theorem drawings_commute_and_cancel (d : Display) :
    (∀ drawings drawings' : List Drawing, drawings.Perm drawings' →
      (d.drawAll drawings).cells = (d.drawAll drawings').cells) ∧
    (∀ (s : Drawing) (before between after : List Drawing),
      (d.drawAll (before ++ s :: (between ++ s :: after))).cells =
        (d.drawAll (before ++ (between ++ after))).cells) ∧
    (∀ (x y : Int) (rows : List Int), ((d.blit x y rows).1.blit x y rows).1.cells = d.cells) ∧
    (∀ (x y : Int) (rows : List Int), rows.length ≤ 32 →
      ((d.blit x y rows).2 = true ↔ ∃ (px : Fin 64) (py : Fin 32),
        (bitsOn x y rows px py).Nonempty ∧ d.lit px py = true) ∧
      (((d.blit x y rows).1.blit x y rows).2 = true ↔ ∃ (px : Fin 64) (py : Fin 32),
        (bitsOn x y rows px py).Nonempty ∧ d.lit px py = false) ∧
      ((spriteBits rows).Nonempty →
        (d.blit x y rows).2 = true ∨ ((d.blit x y rows).1.blit x y rows).2 = true)) := by
  refine ⟨fun _ _ => d.cells_drawAll_perm, d.cells_drawAll_cancel, ?_, ?_⟩
  · intro x y rows
    exact d.cells_drawAll_cancel ⟨x, y, rows⟩ [] [] []
  · intro x y rows h
    refine ⟨collides_iff x y h, collides_again_iff d x y h, fun hbits => ?_⟩
    obtain ⟨px, py, hon⟩ := exists_bitsOn_nonempty x y hbits
    cases hlit : d.lit px py with
    | true => exact .inl ((collides_iff x y h).mpr ⟨px, py, hon, hlit⟩)
    | false => exact .inr ((collides_again_iff d x y h).mpr ⟨px, py, hon, hlit⟩)

/-- A sprite that is drawn twice over the lower right corner of the dark display collides the second
time only, and it does not matter whether another one that it shares pixels with comes first. -/
theorem drawings_commute_and_cancel_corner :
    (blank.drawAll [⟨60, 31, [0xFF, 0x81]⟩, ⟨-3, 0, [0xF0]⟩]).cells =
      (blank.drawAll [⟨-3, 0, [0xF0]⟩, ⟨60, 31, [0xFF, 0x81]⟩]).cells ∧
    ([0xFF, 0x81] : List Int).length ≤ 32 ∧ (spriteBits [0xFF, 0x81]).Nonempty ∧
    (blank.blit 60 31 [0xFF, 0x81]).2 = false ∧
    ((blank.blit 60 31 [0xFF, 0x81]).1.blit 60 31 [0xFF, 0x81]).2 = true := by
  obtain ⟨hperm, -, -, htwice⟩ := drawings_commute_and_cancel blank
  obtain ⟨hfirst, -, hone⟩ := htwice 60 31 [0xFF, 0x81] (by decide)
  have hdark : ∀ px py, blank.lit px py = false := fun _ _ => Vector.getElem_replicate _
  have hbits : (spriteBits [0xFF, 0x81]).Nonempty := ⟨(1, 7), by decide⟩
  have hquiet : ¬ (blank.blit 60 31 [0xFF, 0x81]).2 = true := by
    intro hcollides
    obtain ⟨px, py, -, hlit⟩ := hfirst.mp hcollides
    rw [hdark] at hlit
    cases hlit
  exact ⟨hperm _ _ (.swap _ _ _), by decide, hbits, Bool.eq_false_iff.mpr hquiet,
    (hone hbits).resolve_left hquiet⟩

end Display

end Chip8
