/-!
# The display

The display has 64 columns and 32 rows of pixels that are lit or dark.  A sprite is a list of rows,
eight pixels wide each, the leftmost pixel in the highest bit.  Drawing it toggles every pixel that
one of its set bits falls on; the surface wraps around on both axes.  A toggle that turns a lit
pixel off is a collision.

* `Display.spriteCells`: the cells that the set bits of a sprite fall on, bit by bit.
* `Display.getElem_toggleAll`: **a cell ends lit when it was lit or was hit an odd number of
  times, but not both.**
-/

namespace Chip8

/-- A pixel of the display, counted row by row from the upper left corner. -/
abbrev Cell := Fin 2048

/-- The pixels, and whether the host has yet to redraw them. -/
structure Display where
  cells : Vector Bool 2048
  stale : Bool
  deriving DecidableEq

namespace Display

def width : Nat := 64

def height : Nat := 32

/-- The cell in column `x` and row `y`, wrapped around on both axes. -/
def cellAt (x y : Int) : Cell := ⟨(y % 32).toNat * 64 + (x % 64).toNat, by omega⟩

/-! ### Drawing -/

/-- A dark display that the host has yet to draw. -/
def blank : Display := ⟨Vector.replicate 2048 false, true⟩

def clear (d : Display) : Display := { d with cells := Vector.replicate 2048 false, stale := true }

/-- The cells that the set bits of one sprite row fall on, its first pixel being in column `x`. -/
def rowCells (x y : Int) (row : UInt8) : List Cell :=
  (List.range 8).filterMap fun column =>
    if row.toNat.testBit (7 - column) then some (cellAt (x + column) y) else none

/-- The cells that the set bits of a sprite fall on, row by row; a cell that several bits fall on
is listed as often. -/
def spriteCells (x y : Int) : List UInt8 → List Cell
  | [] => []
  | row :: rows => rowCells x y row ++ spriteCells x (y + 1) rows

/-- Toggles the listed cells one after the other, and tells whether one of them was lit at its
turn. -/
def toggleAll (cells : Vector Bool 2048) (hit : Bool) : List Cell → Vector Bool 2048 × Bool
  | [] => (cells, hit)
  | p :: ps =>
    let lit := cells[p]
    toggleAll (cells.set p (!lit)) (hit || lit) ps

/-- Draws a sprite with its upper left pixel in column `x` and row `y`, and tells whether a lit
pixel was turned off. -/
def draw (d : Display) (x y : Int) (rows : List UInt8) : Display × Bool :=
  let (cells, collision) := toggleAll d.cells false (spriteCells x y rows)
  (⟨cells, true⟩, collision)

/-- Draws a sprite that a host gives as integers, each by its low eight bits. -/
def blit (d : Display) (x y : Int) (rows : List Int) : Display × Bool :=
  d.draw x y (rows.map UInt8.ofInt)

def markRefreshed (d : Display) : Display := { d with stale := false }

theorem getElem_toggleAll (cells : Vector Bool 2048) (hit : Bool) (ps : List Cell) (q : Cell) :
    (toggleAll cells hit ps).1[q] = (cells[q] ^^ decide (ps.count q % 2 = 1)) := by
  induction ps generalizing cells hit with
  | nil => simp [toggleAll]
  | cons p ps ih =>
    rw [toggleAll, ih, List.count_cons]
    by_cases h : p = q
    · subst h
      rcases Nat.mod_two_eq_zero_or_one (ps.count p) with hc | hc
      · have : (ps.count p + 1) % 2 = 1 := by omega
        simp [hc, this]
      · have : (ps.count p + 1) % 2 = 0 := by omega
        simp [hc, this]
    · have hne : (p : Nat) ≠ (q : Nat) := fun e => h (Fin.ext e)
      simp [h, hne]

/-! ### Looking at the display -/

/-- The pixel in column `x` and row `y` is lit. -/
def lit (d : Display) (x : Fin 64) (y : Fin 32) : Bool := d.cells[y.val * 64 + x.val]

/-- A question about a pixel that is not on the display. -/
structure OffScreen where
  x : Int
  y : Int
  deriving DecidableEq, Repr

def OffScreen.message (e : OffScreen) : String :=
  "pixel (" ++ toString e.x ++ ", " ++ toString e.y ++ ") outside 64x32 display"

/-- Whether the pixel at a place is lit; here the surface does not wrap around. -/
def pixel (d : Display) (x y : Int) : Except OffScreen Bool :=
  if h : (0 ≤ x ∧ x < 64) ∧ 0 ≤ y ∧ y < 32 then
    .ok (d.lit ⟨x.toNat, by omega⟩ ⟨y.toNat, by omega⟩)
  else .error ⟨x, y⟩

/-- The pixels of one row, from left to right. -/
def row (d : Display) (y : Fin 32) : List Bool := List.ofFn fun x => d.lit x y

/-- The rows of the display, from top to bottom. -/
def rows (d : Display) : List (List Bool) := List.ofFn d.row

def litCount (d : Display) : Nat := d.cells.count true

/-- The display as lines of text, with one mark for lit pixels and one for dark ones. -/
def text (d : Display) (on off : String) : String :=
  "\n".intercalate (d.rows.map fun r => String.join (r.map fun p => if p then on else off))

def plainText (d : Display) : String := d.text "#" "."

end Display

end Chip8
