import Chip8.Listing.Entry

/-!
# Listings

A listing goes through a program from front to back, two bytes at a time, and takes all of it for
instructions.

* `Listing.sweep`: the lines of a program.
* `Listing.listing`: their text.
* `Listing.hexDump`: the bytes alone, sixteen to a line.
-/

namespace Chip8.Listing

/-- The lines of a program whose first byte stands at the given address. -/
def sweep (labels : Labels) (address : Int) : List UInt8 → List Entry
  | [] => []
  | [byte] => [.ofByte address byte]
  | high :: low :: rest =>
    .ofWord labels address (Word.ofBytes high low) [high, low] :: sweep labels (address + 2) rest

/-- The first lines of a program, or all of them. -/
def entries (labels : Labels) (data : List UInt8) (address : Int) (count : Option Int) :
    List Entry :=
  match count with
  | none => sweep labels address data
  | some n => (sweep labels address data).take n.toNat

/-- The text of a listing, with or without the bytes. -/
def listing (labels : Labels) (data : List UInt8) (address : Int) (count : Option Int)
    (showBytes : Bool) : String :=
  "\n".intercalate ((entries labels data address count).map fun e =>
    if showBytes then e.line else e.shortLine)

/-! ### A single line at an offset -/

/-- An offset without a byte. -/
inductive OffsetError
  | outOfRange
  /-- The offset is not even an index of sixty-four bits. -/
  | indexWidth
  deriving DecidableEq, Repr

def OffsetError.message : OffsetError → String
  | outOfRange => "index out of range"
  | indexWidth => Word.indexWidthMessage

/-- The byte at an offset, where a negative one counts from the end. -/
def byteAt (data : List UInt8) (offset : Int) : Except OffsetError UInt8 :=
  if ¬ Word.IsIndex offset then .error .indexWidth
  else if offset < -data.length then .error .outOfRange
  else
    match data[(if offset < 0 then offset + data.length else offset).toNat]? with
    | some byte => .ok byte
    | none => .error .outOfRange

/-- Where an offset points, counted from the front and kept within the data. -/
def place (data : List UInt8) (offset : Int) : Nat :=
  min (if offset < 0 then offset + data.length else offset).toNat data.length

/-- The bytes from one offset up to, and without, another; negative ones count from the end. -/
def bytesBetween (data : List UInt8) (start stop : Int) : List UInt8 :=
  (data.take (place data stop)).drop (place data start)

def entryAt (labels : Labels) (data : List UInt8) (offset address : Int) :
    Except OffsetError Entry := do
  if data.length ≤ offset + 1 then
    return .ofByte address (← byteAt data offset)
  else
    let high ← byteAt data offset
    let low ← byteAt data (offset + 1)
    return .ofWord labels address (Word.ofBytes high low) (bytesBetween data offset (offset + 2))

/-! ### Bytes alone -/

/-- A list in pieces of `n + 1`; the last piece may be shorter. -/
def pieces {α : Type} (n : Nat) (xs : List α) : List (List α) :=
  match xs with
  | [] => []
  | x :: rest => (x :: rest.take n) :: pieces n (rest.drop n)
  termination_by xs.length
  decreasing_by simp only [List.length_drop, List.length_cons]; omega

/-- The lines of bytes from an address on, sixteen to a line. -/
def dumpLines (data : List UInt8) (address : Int) : List String :=
  (pieces 15 data).mapIdx fun k piece =>
    "; " ++ Hex.address (address + 16 * k) ++ ": " ++ Hex.bytes piece

def rule : String := "; " ++ String.ofList (List.replicate 60 '-')

/-- The bytes between ruled lines, under a heading. -/
def hexDump (data : List UInt8) (address : Int) : List String :=
  ["; Hex dump:", rule] ++ dumpLines data address ++ [rule, ""]

end Chip8.Listing
