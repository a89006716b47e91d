/-!
# Pictures

A picture is made of squares of one size, each in a color of its own.  A request for a picture may
hold any integers, and is refused if the picture would not fit into the memory of a machine, or if
a number in it takes more than a machine word.

* `Image.color`: the color of a pixel.
* `Image.checkSize`, `Image.nearestColor`: what is refused.
-/

namespace Chip8

structure Color where
  red : UInt8
  green : UInt8
  blue : UInt8
  deriving DecidableEq, Repr

/-- A color as it is asked for: each part is any integer. -/
structure Tint where
  red : Int
  green : Int
  blue : Int
  deriving DecidableEq, Repr

namespace Tint

def white : Tint := ⟨255, 255, 255⟩

def black : Tint := ⟨0, 0, 0⟩

end Tint

/-- A picture made of squares: the length of their sides in pixels, how many stand side by side and
one below the other, and the color of each. -/
structure Image where
  side : Nat
  columns : Nat
  lines : Nat
  square : Nat → Nat → Color

namespace Image

def width (p : Image) : Nat := p.columns * p.side

def height (p : Image) : Nat := p.lines * p.side

/-- The color of the pixel in column `i` and row `j`. -/
def color (p : Image) (i j : Nat) : Color := p.square (i / p.side) (j / p.side)

/-! ### Requests that are refused -/

/-- Why there is no picture. -/
inductive Refusal
  /-- The squares would have no area. -/
  | noArea (scale : Int)
  /-- A size, or a part of a color other than the first, takes more than a machine word. -/
  | beyondWord
  /-- A size, or a part of a color other than the first, is too big for half a machine word. -/
  | aboveHalfWord
  /-- A part of a color other than the first is too small for half a machine word. -/
  | belowHalfWord
  /-- The first part of a color takes more than a machine word. -/
  | partTooBig
  | outOfMemory
  deriving DecidableEq, Repr

/-- The wording of a refusal; of want of memory there is nothing to say. -/
def Refusal.message : Refusal → String
  | noArea scale => "scale must be at least 1, got " ++ toString scale
  | beyondWord => "Python int too large to convert to C long"
  | partTooBig => "int too big to convert"
  | aboveHalfWord => "signed integer is greater than maximum"
  | belowHalfWord => "signed integer is less than minimum"
  | outOfMemory => ""

/-- Whether an integer is a machine word with a sign. -/
def isMachineWord (n : Int) : Bool := -9223372036854775808 ≤ n && n ≤ 9223372036854775807

def checkHalfWord (n : Int) : Except Refusal Int :=
  if !isMachineWord n then .error .beyondWord
  else if 2147483647 < n then .error .aboveHalfWord
  else if n < -2147483648 then .error .belowHalfWord
  else .ok n

/-- How many bytes of memory can be addressed; a pixel takes four of them. -/
def memoryLimit : Nat := 140737488355328

/-- Refuses pictures that there is no memory for. -/
def checkSize (width height : Nat) : Except Refusal Unit := do
  let _ ← checkHalfWord width
  let _ ← checkHalfWord height
  if memoryLimit ≤ 4 * width * height then throw .outOfMemory

def clampByte (n : Int) : UInt8 := UInt8.ofNat (min n.toNat 255)

/-- The color nearest to the one asked for.  The first part may be any machine word, the others are
half as wide. -/
def nearestColor (t : Tint) : Except Refusal Color := do
  if !isMachineWord t.red then throw .partTooBig
  let green ← checkHalfWord t.green
  let blue ← checkHalfWord t.blue
  return ⟨clampByte t.red, clampByte green, clampByte blue⟩

end Image

end Chip8
