import Chip8.Display.Canvas
import Chip8.Proofs.Display.SpriteBits
import Mathlib.Tactic.Ring

/-!
# Painting the display square by square

What a canvas does with colors and rectangles is assumed, and what the squares of a display add up to
is proved.  The canvas that is at hand keeps to the assumptions.

* `Canvas.Lawful`: what is assumed of a canvas.
* `Canvas.exists_paintCell`: **one cell paints its own square and leaves the others.**
* `Canvas.paint_of_fresh`: **the squares add up to the display.**
* `Image.lawful_canvas`: the canvas whose pictures are made of squares is lawful.
* `Display.exists_render`: it has room for a display at any scale that is not huge.
-/

namespace Chip8

open Display

/-- A color as it is asked for. -/
def Color.tint (c : Color) : Tint := ⟨c.red.toNat, c.green.toNat, c.blue.toNat⟩

/-- A picture of some width and height, all of it in one color. -/
structure Image.IsPlain (p : Image) (width height : Nat) (paper : Color) : Prop where
  width_eq : p.width = width
  height_eq : p.height = height
  color_eq {i j : Nat} : i < width → j < height → p.color i j = paper

/-- A picture that differs from another in a filled rectangle, whose corners both belong to it. -/
structure Image.IsFilled (p p' : Image) (left upper right lower : Nat) (ink : Color) : Prop where
  width_eq : p'.width = p.width
  height_eq : p'.height = p.height
  color_eq {i j : Nat} : i < p.width → j < p.height → p'.color i j =
    if (left ≤ i ∧ i ≤ right) ∧ upper ≤ j ∧ j ≤ lower then ink else p.color i j

namespace Canvas

variable {α : Type} {canvas : Canvas α} {d : Display} {scale : Nat} {ink paper : Color} {a : α}
  {p q : Cell} {i j : Nat}

/-- A canvas that paints as it is told, if it has room for a picture at all. -/
structure Lawful (canvas : Canvas α) : Prop where
  isPlain_fresh {width height : Nat} {paper : Color} {a : α} :
    canvas.fresh width height paper.tint = .ok a →
    (canvas.shown a).IsPlain width height paper
  exists_fill {a : α} {left upper right lower : Nat} (ink : Color) :
    left ≤ right → right < (canvas.shown a).width →
    upper ≤ lower → lower < (canvas.shown a).height →
    ∃ b, canvas.fill a left upper right lower ink.tint = .ok b ∧
      (canvas.shown a).IsFilled (canvas.shown b) left upper right lower ink

/-- The picture has the size of the display at some scale. -/
structure Fits (canvas : Canvas α) (scale : Nat) (a : α) : Prop where
  width_eq : (canvas.shown a).width = 64 * scale
  height_eq : (canvas.shown a).height = 32 * scale

/-- The pixel in column `i` and row `j` is one of those that show a cell. -/
def InSquare (scale : Nat) (p : Cell) (i j : Nat) : Prop :=
  i / scale = p.val % 64 ∧ j / scale = p.val / 64

/-! ### One cell -/

theorem mem_square_iff (hscale : 0 < scale) (k i : Nat) :
    k * scale ≤ i ∧ i ≤ k * scale + scale - 1 ↔ i / scale = k := by
  rw [Nat.div_eq_iff hscale, Nat.mul_comm]

theorem mul_scale_lt {k n : Nat} (hscale : 0 < scale) (h : k < n) :
    k * scale + scale - 1 < n * scale := by
  have hle : (k + 1) * scale ≤ n * scale := Nat.mul_le_mul_right scale h
  rw [Nat.succ_mul] at hle
  omega

theorem InSquare.lt (hscale : 0 < scale) (h : InSquare scale p i j) :
    i < 64 * scale ∧ j < 32 * scale := by
  obtain ⟨hi, hj⟩ := h
  rw [← Nat.div_lt_iff_lt_mul hscale, ← Nat.div_lt_iff_lt_mul hscale]
  omega

theorem mem_cell_iff (hscale : 0 < scale) (h : InSquare scale q i j) (p : Cell) :
    (p.val % Display.width * scale ≤ i ∧ i ≤ p.val % Display.width * scale + scale - 1) ∧
        p.val / Display.width * scale ≤ j ∧ j ≤ p.val / Display.width * scale + scale - 1 ↔
      q = p := by
  rw [mem_square_iff hscale, mem_square_iff hscale, h.1, h.2, Fin.ext_iff, Display.width]
  omega

/-- **One cell paints its own square and leaves the others.** -/
theorem exists_paintCell (hlawful : canvas.Lawful) (hscale : 0 < scale)
    (hfits : canvas.Fits scale a) (d : Display) (ink : Color) (p : Cell) :
    ∃ b, canvas.paintCell d scale ink.tint a p = .ok b ∧ canvas.Fits scale b ∧
      ∀ {q i j}, InSquare scale q i j → (canvas.shown b).color i j =
        if q = p ∧ d.cells.get p = true then ink else (canvas.shown a).color i j := by
  cases hlit : d.cells.get p with
  | false =>
    refine ⟨a, by rw [paintCell, hlit, if_neg Bool.false_ne_true], hfits, fun _ => ?_⟩
    exact (if_neg fun h => Bool.false_ne_true h.2).symm
  | true =>
    have hright : p.val % Display.width * scale + scale - 1 < 64 * scale :=
      mul_scale_lt hscale (Nat.mod_lt p.val (by decide))
    have hlower : p.val / Display.width * scale + scale - 1 < 32 * scale :=
      mul_scale_lt hscale (Nat.div_lt_of_lt_mul p.isLt)
    rw [← hfits.width_eq] at hright
    rw [← hfits.height_eq] at hlower
    obtain ⟨b, hb, hfilled⟩ :=
      hlawful.exists_fill ink (Nat.le_sub_one_of_lt (Nat.lt_add_of_pos_right hscale)) hright
        (Nat.le_sub_one_of_lt (Nat.lt_add_of_pos_right hscale)) hlower
    refine ⟨b, by rw [paintCell, hlit, if_pos rfl, hb], ?_, fun {q i j} h => ?_⟩
    · exact ⟨hfilled.width_eq.trans hfits.width_eq, hfilled.height_eq.trans hfits.height_eq⟩
    · obtain ⟨hi, hj⟩ := h.lt hscale
      rw [← hfits.width_eq] at hi
      rw [← hfits.height_eq] at hj
      rw [hfilled.color_eq hi hj]
      exact if_congr ((mem_cell_iff hscale h p).trans (and_iff_left rfl).symm) rfl rfl

/-! ### All cells -/

theorem exists_foldlM_paintCell (hlawful : canvas.Lawful) (hscale : 0 < scale)
    (hfits : canvas.Fits scale a) (d : Display) (ink : Color) (ps : List Cell) :
    ∃ b, ps.foldlM (canvas.paintCell d scale ink.tint) a = .ok b ∧ canvas.Fits scale b ∧
      ∀ {q i j}, InSquare scale q i j → (canvas.shown b).color i j =
        if q ∈ ps ∧ d.cells.get q = true then ink else (canvas.shown a).color i j := by
  induction ps generalizing a with
  | nil => exact ⟨a, rfl, hfits, fun _ => (if_neg fun h => List.not_mem_nil h.1).symm⟩
  | cons p ps ih =>
    obtain ⟨b, hb, hfits', hcell⟩ := exists_paintCell hlawful hscale hfits d ink p
    obtain ⟨c, hc, hfits'', hcells⟩ := ih hfits'
    refine ⟨c, ?_, hfits'', fun {q i j} h => ?_⟩
    · rw [List.foldlM_cons, hb]
      exact hc
    · rw [hcells h, hcell h]
      by_cases hp : q = p
      · subst hp
        simp only [List.mem_cons, true_or, true_and]
        split
        · next hq => rw [if_pos hq.2]
        · rfl
      · simp only [List.mem_cons, hp, false_or, false_and, if_false]

end Canvas

/-! ### Whole pictures -/

namespace Display

variable {d : Display} {scale : Nat} {ink paper : Color} {p : Image} {i j : Nat}

/-- A picture has the size of the display at a scale, and each pixel of the display is a square of
so many pixels. -/
structure ShownBy (d : Display) (scale : Nat) (ink paper : Color) (p : Image) : Prop where
  width_eq : p.width = 64 * scale
  height_eq : p.height = 32 * scale
  color_eq {i j : Nat} : i < 64 * scale → j < 32 * scale →
    ∃ lit, d.pixel (i / scale : Nat) (j / scale : Nat) = .ok lit ∧
      p.color i j = if lit then ink else paper

theorem ShownBy.color_of_pixel {lit : Bool} (h : d.ShownBy scale ink paper p)
    (hi : i < 64 * scale) (hj : j < 32 * scale)
    (hlit : d.pixel (i / scale : Nat) (j / scale : Nat) = .ok lit) :
    p.color i j = if lit then ink else paper := by
  obtain ⟨lit', hlit', hcolor⟩ := h.color_eq hi hj
  rw [hlit] at hlit'
  obtain rfl := Except.ok.inj hlit'
  exact hcolor

theorem div_scale_lt {n : Nat} (h : i < n * scale) : i / scale < n :=
  Nat.div_lt_of_lt_mul (by rwa [Nat.mul_comm])

theorem pixel_eq (d : Display) (x : Fin 64) (y : Fin 32) :
    d.pixel x.val y.val = .ok (d.lit x y) := by
  have hx := x.isLt
  have hy := y.isLt
  rw [pixel, dif_pos (by omega)]
  rfl

end Display

namespace Canvas

variable {α : Type} {canvas : Canvas α} {scale : Nat} {ink paper : Color} {a b : α} {i j : Nat}

theorem inSquare_cellAt {x : Fin 64} {y : Fin 32} (hi : i / scale = x.val)
    (hj : j / scale = y.val) : InSquare scale (cellAt x.val y.val) i j := by
  have hcell : (cellAt x.val y.val).val = y.val * 64 + x.val := by
    show ((y.val : Int) % 32).toNat * 64 + ((x.val : Int) % 64).toNat = y.val * 64 + x.val
    omega
  rw [InSquare, hi, hj, hcell]
  omega

theorem paint_eq_of_fresh (hscale : 0 < scale) (d : Display) (ink : Tint) {paper : Tint}
    (hfresh : canvas.fresh (64 * scale) (32 * scale) paper = .ok a) :
    canvas.paint d scale ink paper =
      (List.finRange 2048).foldlM (canvas.paintCell d scale ink) a := by
  rw [paint, if_neg (by omega), Int.toNat_natCast]
  -- the cells are too many to be unfolded
  generalize List.finRange 2048 = cells
  show (canvas.fresh (64 * scale) (32 * scale) paper >>= fun a =>
    cells.foldlM (canvas.paintCell d scale ink) a) = _
  rw [hfresh]
  rfl

/-- **The squares add up to the display.** -/
theorem paint_of_fresh (hlawful : canvas.Lawful) (hscale : 0 < scale) (d : Display)
    (ink : Color) (hfresh : canvas.fresh (64 * scale) (32 * scale) paper.tint = .ok a) :
    ∃ b, canvas.paint d scale ink.tint paper.tint = .ok b ∧
      d.ShownBy scale ink paper (canvas.shown b) := by
  have hplain := hlawful.isPlain_fresh hfresh
  have hfits : canvas.Fits scale a := ⟨hplain.width_eq, hplain.height_eq⟩
  obtain ⟨b, hb, hpainted, hcolor⟩ :=
    exists_foldlM_paintCell hlawful hscale hfits d ink (List.finRange 2048)
  rw [← paint_eq_of_fresh hscale d ink.tint hfresh] at hb
  refine ⟨b, hb, hpainted.width_eq, hpainted.height_eq, fun {i j} hi hj => ?_⟩
  let x : Fin 64 := ⟨i / scale, div_scale_lt hi⟩
  let y : Fin 32 := ⟨j / scale, div_scale_lt hj⟩
  have hsquare : InSquare scale (cellAt x.val y.val) i j := inSquare_cellAt rfl rfl
  refine ⟨_, d.pixel_eq x y, ?_⟩
  rw [hcolor hsquare, hplain.color_eq hi hj, lit_eq]
  exact if_congr (and_iff_right (List.mem_finRange _)) rfl rfl

theorem exists_fresh_of_paint {d : Display} {scale : Int} {ink paper : Tint}
    (h : canvas.paint d scale ink paper = .ok b) :
    ∃ s : Nat, scale = s ∧ 1 ≤ s ∧ ∃ a, canvas.fresh (64 * s) (32 * s) paper = .ok a := by
  by_cases hscale : scale < 1
  · rw [paint, if_pos hscale] at h
    cases h
  · obtain ⟨s, rfl⟩ := Int.eq_ofNat_of_zero_le (show 0 ≤ scale by omega)
    refine ⟨s, rfl, by omega, ?_⟩
    rw [paint, if_neg hscale, Int.toNat_natCast] at h
    generalize List.finRange 2048 = cells at h
    cases hfresh : canvas.fresh (64 * s) (32 * s) paper with
    | ok a => exact ⟨a, rfl⟩
    | error refusal =>
      replace h : (canvas.fresh (64 * s) (32 * s) paper >>= fun a =>
        cells.foldlM (canvas.paintCell d s ink) a) = .ok b := h
      rw [hfresh] at h
      cases h

/-- **A picture that is painted on a lawful canvas shows the display.** -/
theorem shownBy_of_paint (hlawful : canvas.Lawful) {d : Display} {scale : Int}
    (h : canvas.paint d scale ink.tint paper.tint = .ok b) :
    ∃ s : Nat, scale = s ∧ 1 ≤ s ∧ d.ShownBy s ink paper (canvas.shown b) := by
  obtain ⟨s, rfl, hs, a, hfresh⟩ := exists_fresh_of_paint h
  obtain ⟨b', hb', hshown⟩ := paint_of_fresh hlawful hs d ink hfresh
  obtain rfl := Except.ok.inj (h.symm.trans hb')
  exact ⟨s, rfl, hs, hshown⟩

end Canvas

/-! ### Pictures made of squares -/

namespace Image

variable {p : Image} {left upper right lower i j : Nat} {ink : Color}

theorem isPlain_plain (width height : Nat) (paper : Color) :
    (plain width height paper).IsPlain width height paper where
  width_eq := Nat.div_mul_cancel (Nat.gcd_dvd_left width height)
  height_eq := Nat.div_mul_cancel (Nat.gcd_dvd_right width height)
  color_eq := fun _ _ => rfl

/-- Where two edges fall between squares, the pixels between them are those of the squares between
them. -/
theorem between_iff {side : Nat} (hleft : side ∣ left) (hright : side ∣ right + 1) (i : Nat) :
    left / side ≤ i / side ∧ i / side ≤ right / side ↔ left ≤ i ∧ i ≤ right := by
  obtain ⟨a, rfl⟩ := hleft
  obtain ⟨b, hb⟩ := hright
  have hside : 0 < side := Nat.pos_of_ne_zero fun h => by
    rw [h, Nat.zero_mul] at hb
    omega
  have hlast : right / side < b := by
    rw [Nat.div_lt_iff_lt_mul hside, Nat.mul_comm]
    omega
  have hlast' : b ≤ right / side + 1 := by
    rw [← Nat.add_div_right right hside, Nat.le_div_iff_mul_le hside, Nat.mul_comm]
    omega
  rw [Nat.mul_div_cancel_left a hside, Nat.le_div_iff_mul_le hside, Nat.mul_comm a]
  refine and_congr_right fun _ => ?_
  have hb' : b = right / side + 1 := by omega
  rw [← Nat.lt_succ_iff, Nat.succ_eq_add_one, ← hb', Nat.div_lt_iff_lt_mul hside, Nat.mul_comm b,
    ← hb, Nat.lt_succ_iff]

/-- Smaller squares show the same colors as those that they are parts of. -/
theorem color_mul_div {side : Nat} (p : Image) (h : side ∣ p.side) (i j : Nat) :
    p.color (i / side * side) (j / side * side) = p.color i j := by
  have hpart (n : Nat) : n / side * side / p.side = n / p.side := by
    obtain ⟨k, hk⟩ := h
    rcases Nat.eq_zero_or_pos side with rfl | hside
    · rw [hk, Nat.zero_mul, Nat.div_zero, Nat.div_zero]
    · rw [hk, ← Nat.div_div_eq_div_mul, Nat.mul_div_cancel _ hside, Nat.div_div_eq_div_mul]
  rw [color, color, hpart, hpart]

theorem isFilled_filled (p : Image) (left upper right lower : Nat) (ink : Color) :
    p.IsFilled (p.filled left upper right lower ink) left upper right lower ink := by
  have hside : p.commonSide left upper right lower ∣ p.side := Nat.gcd_dvd_left _ _
  have hedges := Nat.gcd_dvd_right p.side ((left.gcd (right + 1)).gcd (upper.gcd (lower + 1)))
  have hacross := hedges.trans (Nat.gcd_dvd_left _ _)
  have hdown := hedges.trans (Nat.gcd_dvd_right _ _)
  constructor
  · exact Nat.div_mul_cancel (hside.mul_left p.columns)
  · exact Nat.div_mul_cancel (hside.mul_left p.lines)
  · intro i j _ _
    have hacross' := between_iff (hacross.trans (Nat.gcd_dvd_left _ _))
      (hacross.trans (Nat.gcd_dvd_right _ _)) i
    have hdown' := between_iff (hdown.trans (Nat.gcd_dvd_left _ _))
      (hdown.trans (Nat.gcd_dvd_right _ _)) j
    exact if_congr (and_congr hacross' hdown') rfl (p.color_mul_div hside i j)

/-! ### Colors and sizes that can be had -/

theorem clampByte_toNat (b : UInt8) : clampByte b.toNat = b := by
  have hb := b.toNat_lt
  rw [clampByte, Int.toNat_natCast, Nat.min_eq_left (by omega), UInt8.ofNat_toNat]

theorem checkHalfWord_of_mem {n : Int} (h : 0 ≤ n) (h' : n ≤ 2147483647) :
    checkHalfWord n = .ok n := by
  have hword : isMachineWord n = true := by
    rw [isMachineWord, Bool.and_eq_true, decide_eq_true_eq, decide_eq_true_eq]
    omega
  rw [checkHalfWord, hword, if_neg (by decide), if_neg (by omega), if_neg (by omega)]

theorem nearestColor_tint (c : Color) : nearestColor c.tint = .ok c := by
  have hpart (b : UInt8) : checkHalfWord b.toNat = .ok (b.toNat : Int) := by
    have hb := b.toNat_lt
    exact checkHalfWord_of_mem (by omega) (by omega)
  have hword : isMachineWord c.red.toNat = true := by
    have hb := c.red.toNat_lt
    rw [isMachineWord, Bool.and_eq_true, decide_eq_true_eq, decide_eq_true_eq]
    omega
  unfold nearestColor Color.tint
  rw [hword, hpart, hpart]
  show Except.ok (Color.mk (clampByte c.red.toNat) (clampByte c.green.toNat)
    (clampByte c.blue.toNat)) = _
  rw [clampByte_toNat, clampByte_toNat, clampByte_toNat]

theorem fresh_canvas (width height : Nat) (paper : Color) :
    canvas.fresh width height paper.tint =
      (checkSize width height).map fun _ => plain width height paper := by
  show (checkSize width height >>= fun _ => nearestColor paper.tint >>= fun color =>
    .ok (plain width height color)) = _
  rw [nearestColor_tint]
  cases checkSize width height with
  | error refusal => rfl
  | ok answer => rfl

/-- **Pictures made of squares are painted as they are told to be.** -/
theorem lawful_canvas : canvas.Lawful where
  isPlain_fresh := by
    intro width height paper a h
    rw [fresh_canvas] at h
    cases hsize : checkSize width height with
    | error refusal =>
      rw [hsize] at h
      cases h
    | ok answer =>
      rw [hsize] at h
      obtain rfl := Except.ok.inj h
      exact isPlain_plain width height paper
  exists_fill := by
    intro p left upper right lower ink _ _ _ _
    refine ⟨p.filled left upper right lower ink, ?_, p.isFilled_filled left upper right lower ink⟩
    show (nearestColor ink.tint >>= fun color =>
      .ok (p.filled left upper right lower color)) = _
    rw [nearestColor_tint]
    rfl

theorem checkSize_of_lt {scale : Nat} (h : scale < 131072) :
    checkSize (64 * scale) (32 * scale) = .ok () := by
  have hsize : ¬ memoryLimit ≤ 4 * (64 * scale) * (32 * scale) := by
    have hsquare : scale * scale ≤ 131071 * 131071 :=
      Nat.mul_le_mul (Nat.le_of_lt_succ h) (Nat.le_of_lt_succ h)
    have harea : 4 * (64 * scale) * (32 * scale) = 8192 * (scale * scale) := by ring
    rw [harea, memoryLimit]
    omega
  rw [checkSize, checkHalfWord_of_mem (by omega) (by omega),
    checkHalfWord_of_mem (by omega) (by omega)]
  show ite (memoryLimit ≤ 4 * (64 * scale) * (32 * scale)) _ _ = _
  rw [if_neg hsize]
  rfl

end Image

theorem Display.exists_render (d : Display) {scale : Nat} (h : 1 ≤ scale) (h' : scale < 131072)
    (ink paper : Color) : ∃ p, d.render scale ink.tint paper.tint = .ok p := by
  have hfresh : Image.canvas.fresh (64 * scale) (32 * scale) paper.tint =
      .ok (.plain (64 * scale) (32 * scale) paper) := by
    rw [Image.fresh_canvas, Image.checkSize_of_lt h']
    rfl
  obtain ⟨p, hp, -⟩ := Canvas.paint_of_fresh Image.lawful_canvas h d ink hfresh
  exact ⟨p, hp⟩

end Chip8
