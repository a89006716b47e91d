import Chip8.Proofs.Display.Drawing
import Chip8.Proofs.Display.Painting
import Mathlib.Data.Fintype.Fin

/-!
# The views of the display

The display is one row of cells after the other.  It can be asked for a pixel, for its rows, for a
text with a line for each row, for how many pixels are lit, and for a picture.  All of them tell of
the same pixels.

* `getElem?_rows`, `row_eq_slice`: the rows, by their pixels and as stretches of the cells.
* `splitOn_text`: the lines of a text are its rows, marked.
* `cells_eq_of_text_eq`: **a text with two marks tells all pixels.**
* `litCount_eq_card`: how many pixels are lit.
* `views_agree`: **all views tell of the same pixels.**
-/

namespace Chip8

namespace Display

variable {d d' : Display} {on off : Char}

/-! ### Rows -/

theorem getElem?_rows (d : Display) (y : Fin 32) : d.rows[y.val]? = some (d.row y) := by
  rw [rows, List.getElem?_ofFn, dif_pos y.isLt]

theorem getElem?_row (d : Display) (x : Fin 64) (y : Fin 32) :
    (d.row y)[x.val]? = some (d.lit x y) := by
  rw [row, List.getElem?_ofFn, dif_pos x.isLt]

theorem length_row (d : Display) (y : Fin 32) : (d.row y).length = 64 := List.length_ofFn

theorem length_rows (d : Display) : d.rows.length = 32 := List.length_ofFn

theorem row_eq_slice (d : Display) (y : Fin 32) :
    d.row y = (d.cells.toList.drop (y.val * width)).take width := by
  have hy := y.isLt
  have hlength : d.cells.toList.length = 2048 := Vector.length_toList
  have hslice : ((d.cells.toList.drop (y.val * width)).take width).length = 64 := by
    rw [List.length_take, List.length_drop, hlength, width]
    omega
  refine List.ext_getElem (by rw [length_row, hslice]) fun x hx hx' => ?_
  rw [length_row] at hx
  rw [List.getElem_take, List.getElem_drop, Vector.getElem_toList]
  exact List.getElem_ofFn ..

theorem cells_eq_of_lit (h : ∀ x y, d.lit x y = d'.lit x y) : d.cells = d'.cells := by
  refine Vector.ext fun p hp => ?_
  obtain ⟨x, y, hxy⟩ := exists_cellAt_eq ⟨p, hp⟩
  have hpixel := h x y
  rw [lit_eq, lit_eq, hxy] at hpixel
  exact hpixel

theorem cells_eq_of_rows (h : d.rows = d'.rows) : d.cells = d'.cells := by
  refine cells_eq_of_lit fun x y => ?_
  have hrow : d.row y = d'.row y := congrFun (List.ofFn_injective h) y
  exact congrFun (List.ofFn_injective hrow) x

/-! ### Text -/

/-- A row with one mark for lit pixels and one for dark ones. -/
def marked (on off : Char) (row : List Bool) : List Char := row.map fun lit => if lit then on else off

theorem toList_join_marks (on off : Char) (row : List Bool) :
    (String.join (row.map fun lit => if lit then on.toString else off.toString)).toList =
      marked on off row := by
  rw [String.toList_join, List.flatMap_map, marked]
  induction row with
  | nil => rfl
  | cons lit row ih =>
    rw [List.flatMap_cons, List.map_cons, ih]
    cases lit with
    | false => exact congrArg (· ++ marked on off row) (String.toList_singleton off)
    | true => exact congrArg (· ++ marked on off row) (String.toList_singleton on)

theorem toList_text (d : Display) (on off : Char) :
    (d.text on.toString off.toString).toList =
      ['\n'].intercalate (d.rows.map (marked on off)) := by
  have hbreak : "\n".toList = ['\n'] := rfl
  rw [text, String.toList_intercalate, List.map_map, hbreak]
  exact congrArg _ (List.map_congr_left fun row _ => toList_join_marks on off row)

theorem splitOn_text (hon : on ≠ '\n') (hoff : off ≠ '\n') (d : Display) :
    (d.text on.toString off.toString).toList.splitOn '\n' = d.rows.map (marked on off) := by
  rw [toList_text]
  refine List.splitOn_intercalate '\n' ?_ ?_
  · intro line hline hbreak
    obtain ⟨row, -, rfl⟩ := List.mem_map.mp hline
    obtain ⟨lit, -, hlit⟩ := List.mem_map.mp hbreak
    cases lit with
    | false => exact hoff hlit
    | true => exact hon hlit
  · exact List.ne_nil_of_length_eq_add_one (n := 31) (by rw [List.length_map, length_rows])

theorem marked_injective (h : on ≠ off) : Function.Injective (marked on off) := by
  refine List.map_injective_iff.mpr fun lit lit' hmark => ?_
  cases lit with
  | false =>
    cases lit' with
    | false => rfl
    | true => exact absurd hmark.symm h
  | true =>
    cases lit' with
    | false => exact absurd hmark h
    | true => rfl

/-- Lines of one length can be told apart where they are put together. -/
theorem intercalate_injective {α : Type} {separator : List α} {n : Nat}
    {lines lines' : List (List α)} (hlines : ∀ line ∈ lines, line.length = n)
    (hlines' : ∀ line ∈ lines', line.length = n) (hlength : lines.length = lines'.length)
    (h : separator.intercalate lines = separator.intercalate lines') : lines = lines' := by
  induction lines generalizing lines' with
  | nil => exact (List.eq_nil_of_length_eq_zero hlength.symm).symm
  | cons line lines ih =>
    obtain ⟨line', lines', rfl⟩ := List.exists_cons_of_length_eq_add_one hlength.symm
    rw [List.forall_mem_cons] at hlines hlines'
    have hsame : line.length = line'.length := hlines.1.trans hlines'.1.symm
    cases lines with
    | nil =>
      obtain rfl := List.eq_nil_of_length_eq_zero (Nat.succ.inj hlength).symm
      simpa using h
    | cons next lines =>
      obtain ⟨next', lines', rfl⟩ :=
        List.exists_cons_of_length_eq_add_one (Nat.succ.inj hlength).symm
      rw [List.intercalate_cons_cons, List.intercalate_cons_cons, List.append_assoc,
        List.append_assoc] at h
      obtain ⟨rfl, hrest⟩ := List.append_inj h hsame
      rw [ih hlines.2 hlines'.2 (Nat.succ.inj hlength) (List.append_cancel_left hrest)]

/-- **A text with two marks tells all pixels.** -/
theorem cells_eq_of_text_eq (h : on ≠ off)
    (htext : d.text on.toString off.toString = d'.text on.toString off.toString) :
    d.cells = d'.cells := by
  have hlines (d : Display) : ∀ line ∈ d.rows.map (marked on off), line.length = 64 := by
    intro line hline
    obtain ⟨row, hrow, rfl⟩ := List.mem_map.mp hline
    obtain ⟨y, rfl⟩ := List.mem_ofFn.mp hrow
    rw [marked, List.length_map, length_row]
  have hlists := congrArg String.toList htext
  rw [toList_text, toList_text] at hlists
  have hrows := intercalate_injective (hlines d) (hlines d')
    (by rw [List.length_map, List.length_map, length_rows, length_rows]) hlists
  exact cells_eq_of_rows ((marked_injective h).list_map hrows)

/-! ### Lit pixels -/

theorem count_eq_card {n : Nat} (v : Vector Bool n) :
    v.count true = Finset.card {i : Fin n | v.get i = true} := by
  have hlist := Fin.card_filter_univ_eq_vector_get_eq_count true
    (⟨v.toList, Vector.length_toList⟩ : List.Vector Bool n)
  exact (Vector.count_toList.symm.trans hlist.symm : v.count true = _)

theorem bijective_cellAt :
    Function.Bijective fun p : Fin 64 × Fin 32 => cellAt p.1.val p.2.val := by
  constructor
  · rintro ⟨x, y⟩ ⟨x', y'⟩ hcell
    obtain ⟨hx, hy⟩ := cellAt_eq_iff.mp hcell
    have hx' := x.isLt
    have hy' := y.isLt
    exact Prod.ext (Fin.ext (by omega)) (Fin.ext (by omega))
  · intro p
    obtain ⟨x, y, hxy⟩ := exists_cellAt_eq p
    exact ⟨(x, y), hxy⟩

theorem litCount_eq_card (d : Display) :
    d.litCount = Finset.card {p : Fin 64 × Fin 32 | d.lit p.1 p.2 = true} := by
  refine (count_eq_card d.cells).trans (Finset.card_bijective _ bijective_cellAt fun p => ?_).symm
  simp only [Finset.mem_filter, Finset.mem_univ, true_and, lit_eq]

/-! ### All views -/

theorem rows_eq_of_cells (h : d.cells = d'.cells) : d.rows = d'.rows := by
  unfold rows row lit
  rw [h]

/-- **All views of the display agree.**  What is asked for by place, what stands in the rows, which
are stretches of the cells, and what is marked in the lines of a text is the same pixel; so many
pixels are lit as there are lit ones; and a picture at any scale, on any lawful canvas, has a square
of ink or paper for each of them.  A text with two marks tells the whole display. -/
theorem views_agree (d : Display) :
    (∀ (x : Fin 64) (y : Fin 32),
      d.pixel x.val y.val = .ok (d.lit x y) ∧
      d.rows[y.val]?.bind (·[x.val]?) = some (d.lit x y) ∧
      ∀ on off : Char, on ≠ '\n' → off ≠ '\n' →
        ((d.text on.toString off.toString).toList.splitOn '\n')[y.val]?.bind (·[x.val]?) =
          some (if d.lit x y then on else off)) ∧
    (∀ y : Fin 32, d.rows[y.val]? = some ((d.cells.toList.drop (y.val * 64)).take 64)) ∧
    d.litCount = Finset.card {p : Fin 64 × Fin 32 | d.lit p.1 p.2 = true} ∧
    (∀ (α : Type) (canvas : Canvas α) (scale : Nat) (ink paper : Color) (a : α),
      canvas.Lawful → 1 ≤ scale → canvas.fresh (64 * scale) (32 * scale) paper.tint = .ok a →
      ∃ b, canvas.paint d scale ink.tint paper.tint = .ok b ∧
        d.ShownBy scale ink paper (canvas.shown b)) ∧
    (∀ (scale : Int) (ink paper : Color) (p : Image), d.render scale ink.tint paper.tint = .ok p →
      ∃ s : Nat, scale = s ∧ 1 ≤ s ∧ d.ShownBy s ink paper p) ∧
    (∀ (scale : Nat) (ink paper : Color), 1 ≤ scale → scale < 131072 →
      ∃ p, d.render scale ink.tint paper.tint = .ok p) ∧
    (∀ (d' : Display) (on off : Char), on ≠ off →
      d.text on.toString off.toString = d'.text on.toString off.toString →
      d.cells = d'.cells ∧ d.rows = d'.rows) := by
  refine ⟨fun x y => ⟨d.pixel_eq x y, ?_, fun on off hon hoff => ?_⟩, fun y => ?_,
    d.litCount_eq_card, ?_, ?_, ?_, ?_⟩
  · rw [getElem?_rows, Option.bind_some, getElem?_row]
  · rw [splitOn_text hon hoff, List.getElem?_map, getElem?_rows, Option.map_some,
      Option.bind_some, marked, List.getElem?_map, getElem?_row, Option.map_some]
  · rw [getElem?_rows, row_eq_slice, width]
  · intro α canvas scale ink paper a hlawful hscale hfresh
    exact canvas.paint_of_fresh hlawful hscale d ink hfresh
  · intro scale ink paper p hrender
    exact Canvas.shownBy_of_paint Image.lawful_canvas hrender
  · intro scale ink paper hpos hlt
    exact d.exists_render hpos hlt ink paper
  · intro d' on off hmarks htext
    have hcells := cells_eq_of_text_eq hmarks htext
    exact ⟨hcells, rows_eq_of_cells hcells⟩

/-- A pixel in the lower right corner is the last mark of the last line, and the last square of a
picture has its color, while the square to the left of it has the color of the paper. -/
theorem views_agree_corner :
    ∃ d : Display, d = (blank.blit 63 31 [0x80]).1 ∧ d.pixel 63 31 = .ok true ∧
      ((d.text "#" ".").toList.splitOn '\n')[31]?.bind (·[63]?) = some '#' ∧
      ((d.text "#" ".").toList.splitOn '\n')[31]?.bind (·[62]?) = some '.' ∧
      (∃ b, Image.canvas.paint d 3 (Color.mk 255 0 0).tint (Color.mk 0 0 255).tint = .ok b ∧
        b.width = 192 ∧ b.color 189 95 = ⟨255, 0, 0⟩ ∧ b.color 188 95 = ⟨0, 0, 255⟩) ∧
      ∃ p, d.render 3 (Color.mk 255 0 0).tint (Color.mk 0 0 255).tint = .ok p ∧
        p.color 189 95 = ⟨255, 0, 0⟩ := by
  have hdark : ∀ px py, blank.lit px py = false := fun _ _ => Vector.getElem_replicate _
  have hcorner : (blank.blit 63 31 [0x80]).1.lit 63 31 = true := by
    rw [lit_blit, hdark]
    decide
  have hbeside : (blank.blit 63 31 [0x80]).1.lit 62 31 = false := by
    rw [lit_blit, hdark]
    decide
  refine ⟨_, rfl, ?_⟩
  generalize (blank.blit 63 31 [0x80]).1 = d at hcorner hbeside ⊢
  obtain ⟨hplaces, -, -, hpainted, hrendered, hanswers, -⟩ := views_agree d
  obtain ⟨hpixel, -, hmark⟩ := hplaces 63 31
  obtain ⟨hpixel', -, hmark'⟩ := hplaces 62 31
  rw [hcorner] at hpixel hmark
  rw [hbeside] at hpixel' hmark'
  obtain ⟨b, hb, hpicture⟩ := hpainted _ Image.canvas 3 ⟨255, 0, 0⟩ ⟨0, 0, 255⟩
    (.plain 192 96 ⟨0, 0, 255⟩) Image.lawful_canvas (by decide) (by rfl)
  obtain ⟨p, hp⟩ := hanswers 3 ⟨255, 0, 0⟩ ⟨0, 0, 255⟩ (by decide) (by decide)
  obtain ⟨scale, hscale, -, hshown⟩ := hrendered 3 ⟨255, 0, 0⟩ ⟨0, 0, 255⟩ p hp
  obtain rfl : 3 = scale := Int.ofNat.inj hscale
  have hink := hpicture.color_of_pixel (show 189 < 64 * 3 by decide) (show 95 < 32 * 3 by decide)
    hpixel
  have hpaper := hpicture.color_of_pixel (show 188 < 64 * 3 by decide) (show 95 < 32 * 3 by decide)
    hpixel'
  have hsquare := hshown.color_of_pixel (show 189 < 64 * 3 by decide) (show 95 < 32 * 3 by decide)
    hpixel
  exact ⟨hpixel, hmark '#' '.' (by decide) (by decide), hmark' '#' '.' (by decide) (by decide),
    ⟨b, hb, hpicture.width_eq, hink, hpaper⟩, p, hp, hsquare⟩

end Display

end Chip8
