import Chip8.Display.Basic
import Chip8.Display.Image

/-!
# Painting the display

A display is painted square by square: the paper first, and then a filled rectangle in ink for each
lit cell, one cell after the other.  What it is painted on is a parameter, a canvas; one that keeps
pictures as they are seen is at hand.

* `Canvas`: what a canvas offers.
* `Canvas.paint`: the display on a canvas.
* `Image.canvas`: a canvas whose pictures are made of squares.
* `Display.render`: the display on that canvas.
-/

namespace Chip8

/-- What pictures are painted on.  It may refuse a size or a color, and then says why. -/
structure Canvas (α : Type) where
  /-- A picture of some width and height, all of it in one color. -/
  fresh : Nat → Nat → Tint → Except Image.Refusal α
  /-- Fills the rectangle between two corners, given as left, upper, right and lower edge. -/
  fill : α → Nat → Nat → Nat → Nat → Tint → Except Image.Refusal α
  /-- What is to be seen of a picture. -/
  shown : α → Image

namespace Canvas

variable {α : Type}

/-- Fills the square of a cell, if the cell is lit. -/
def paintCell (canvas : Canvas α) (d : Display) (scale : Nat) (ink : Tint) (a : α) (p : Cell) :
    Except Image.Refusal α :=
  if d.cells.get p then
    let left := p.val % Display.width * scale
    let upper := p.val / Display.width * scale
    canvas.fill a left upper (left + scale - 1) (upper + scale - 1) ink
  else .ok a

/-- Paints a display at a scale.  The ink matters only if something is lit. -/
def paint (canvas : Canvas α) (d : Display) (scale : Int) (ink paper : Tint) :
    Except Image.Refusal α := do
  if scale < 1 then throw (.noArea scale)
  let a ← canvas.fresh (Display.width * scale.toNat) (Display.height * scale.toNat) paper
  (List.finRange 2048).foldlM (canvas.paintCell d scale.toNat ink) a

end Canvas

namespace Image

/-- A picture in one color, with the largest squares that fill it. -/
def plain (width height : Nat) (paper : Color) : Image where
  side := width.gcd height
  columns := width / width.gcd height
  lines := height / width.gcd height
  square _ _ := paper

/-- The largest squares that a picture and a rectangle in it are both made of. -/
def commonSide (p : Image) (left upper right lower : Nat) : Nat :=
  p.side.gcd ((left.gcd (right + 1)).gcd (upper.gcd (lower + 1)))

/-- Fills a rectangle, whose corners both belong to it; the squares become as small as need be. -/
def filled (p : Image) (left upper right lower : Nat) (ink : Color) : Image :=
  let side := p.commonSide left upper right lower
  { side := side
    columns := p.width / side
    lines := p.height / side
    square := fun x y =>
      if (left / side ≤ x ∧ x ≤ right / side) ∧ upper / side ≤ y ∧ y ≤ lower / side then ink
      else p.color (x * side) (y * side) }

/-- Pictures made of squares. -/
def canvas : Canvas Image where
  fresh width height paper := do
    checkSize width height
    return plain width height (← nearestColor paper)
  fill p left upper right lower ink := do
    return p.filled left upper right lower (← nearestColor ink)
  shown := id

end Image

/-- The picture of a display that is asked for. -/
def Display.render (d : Display) (scale : Int) (ink paper : Tint) : Except Image.Refusal Image :=
  Image.canvas.paint d scale ink paper

end Chip8
