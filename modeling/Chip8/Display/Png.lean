import Chip8.Display.Image

/-!
# Pictures as PNG files

A PNG file is a signature and then chunks: the header, the pixels, the end.  A chunk has its length
in front and a check sum behind.  The pixels go row by row, three bytes each, behind one byte per
row that says that the row is not filtered.  They are wrapped as a stream of deflate blocks that
store bytes as they are.

* `Png.encode`: the bytes of the file.
-/

namespace Chip8.Png

/-- The four bytes of a number, the highest first. -/
def fourBytes (n : UInt32) : ByteArray :=
  ⟨#[(n >>> 24).toUInt8, (n >>> 16).toUInt8, (n >>> 8).toUInt8, n.toUInt8]⟩

/-- The two low bytes of a number, the lowest first. -/
def twoBytes (n : Nat) : ByteArray := ⟨#[UInt8.ofNat n, UInt8.ofNat (n / 256)]⟩

/-! ### Check sums -/

/-- A remainder of the polynomial that guards chunks, one bit further. -/
def divideBit (c : UInt32) : UInt32 :=
  if c &&& 1 = 0 then c >>> 1 else (c >>> 1) ^^^ 0xEDB88320

def divideByte (c : UInt32) (b : UInt8) : UInt32 :=
  Nat.repeat divideBit 8 (c ^^^ b.toUInt32)

def chunkSum (data : ByteArray) : UInt32 := data.foldl divideByte 0xFFFFFFFF ^^^ 0xFFFFFFFF

/-- The check sum of a stream: the sum of its bytes and the sum of those sums, modulo a prime. -/
def streamSum (data : ByteArray) : UInt32 :=
  let (sum, sums) := data.foldl
    (fun (sum, sums) (b : UInt8) =>
      let sum := (sum + b.toNat) % 65521
      (sum, (sums + sum) % 65521))
    (1, 0)
  UInt32.ofNat (sums * 65536 + sum)

/-! ### Streams -/

def blockLimit : Nat := 65535

/-- What stands in front of a block: whether it is the last one, and its length, twice. -/
def blockHead (last : Bool) (length : Nat) : ByteArray :=
  ⟨#[if last then 1 else 0]⟩ ++ twoBytes length ++ twoBytes (65535 - length)

/-- Appends the bytes from `start` on in blocks. -/
def storeFrom (data : ByteArray) (start : Nat) (before : ByteArray) : ByteArray :=
  if data.size ≤ start + blockLimit then
    before ++ blockHead true (data.size - start) ++ data.extract start data.size
  else
    storeFrom data (start + blockLimit)
      (before ++ blockHead false blockLimit ++ data.extract start (start + blockLimit))
  termination_by data.size - start
  decreasing_by unfold blockLimit at *; omega

def stream (data : ByteArray) : ByteArray :=
  storeFrom data 0 ⟨#[0x78, 0x01]⟩ ++ fourBytes (streamSum data)

/-! ### Files -/

def chunk (name : String) (data : ByteArray) : ByteArray :=
  let body := name.toUTF8 ++ data
  fourBytes (UInt32.ofNat data.size) ++ body ++ fourBytes (chunkSum body)

/-- The size of a picture, and that a pixel has three parts of eight bits. -/
def header (p : Image) : ByteArray :=
  fourBytes (UInt32.ofNat p.width) ++ fourBytes (UInt32.ofNat p.height) ++ ⟨#[8, 2, 0, 0, 0]⟩

/-- Repeats some bytes. -/
def replicate (count : Nat) (bytes : ByteArray) : ByteArray :=
  Nat.repeat (· ++ bytes) count ByteArray.empty

/-- The pixels of one row, if it goes through the squares in line `y`. -/
def row (p : Image) (y : Nat) : ByteArray :=
  (List.range p.columns).foldl
    (fun bytes x =>
      let c := p.square x y
      bytes ++ replicate p.side ⟨#[c.red, c.green, c.blue]⟩)
    ⟨#[0]⟩

def pixels (p : Image) : ByteArray :=
  (List.range p.lines).foldl (fun bytes y => bytes ++ replicate p.side (row p y)) ByteArray.empty

/-- The eight bytes that every file begins with. -/
def signature : ByteArray := ⟨#[0x89, 0x50, 0x4E, 0x47, 0x0D, 0x0A, 0x1A, 0x0A]⟩

/-- The bytes of a file that shows a picture. -/
def encode (p : Image) : ByteArray :=
  signature ++ chunk "IHDR" (header p) ++ chunk "IDAT" (stream (pixels p)) ++
    chunk "IEND" ByteArray.empty

end Chip8.Png
