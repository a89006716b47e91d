import Chip8.Instruction.Decode
import Chip8.Memory.Font
import Chip8.Text.Blank
import Chip8.Text.Hex

/-!
# Lines of a listing

A listing shows the words of a program in the notation of the instruction set:

```text
Vx          register
#kk         byte
$nnn        twelve-bit address
I, [I]      index, memory at the index
DT, ST, K   delay timer, sound timer, key
F, B        glyph, decimal digits
```

Words without a meaning stand there as data, and so does the single byte at the end of a program of
odd length.  A line has a comment where a label, the font or a word without a meaning asks for one.
-/

namespace Chip8

namespace Instruction

def registerText (x : Register) : String := "V" ++ Hex.padded 1 x.val

def byteText (b : UInt8) : String := "#" ++ Hex.padded 2 b.toNat

def addressText (a : Address) : String := Hex.target a.val

def conditionText : Condition → String
  | .equalByte x byte | .unequalByte x byte => registerText x ++ ", " ++ byteText byte
  | .equalRegister x y | .unequalRegister x y => registerText x ++ ", " ++ registerText y
  | .keyHeld x | .keyFree x => registerText x

/-- The operands of an instruction.  The second register of a shift is named, but does not count,
and so stands in braces. -/
def operands : Instruction → String
  | clearScreen | ret => ""
  | machineCall target | jump target | call target => addressText target
  | jumpIndexed base => "V0, " ++ addressText base
  | skip condition => conditionText condition
  | loadByte x byte | addByte x byte | random x byte => registerText x ++ ", " ++ byteText byte
  | combine .shiftRight x y | combine .shiftLeft x y =>
    registerText x ++ " \x7b, " ++ registerText y ++ "\x7d"
  | combine _ x y => registerText x ++ ", " ++ registerText y
  | loadIndex target => "I, " ++ addressText target
  | draw x y rows =>
    registerText x ++ ", " ++ registerText y ++ ", " ++ toString rows.val
  | readDelay x => registerText x ++ ", DT"
  | awaitKey x => registerText x ++ ", K"
  | setDelay x => "DT, " ++ registerText x
  | setSound x => "ST, " ++ registerText x
  | addIndex x => "I, " ++ registerText x
  | glyph x => "F, " ++ registerText x
  | decimal x => "B, " ++ registerText x
  | store x => "[I], " ++ registerText x
  | restore x => registerText x ++ ", [I]"
  | unassigned word => Hex.address word.toNat

/-- The address that an instruction jumps to, calls or points the index at. -/
def target? : Instruction → Option Address
  | machineCall target | jump target | call target | loadIndex target => some target
  | _ => none

end Instruction

namespace Listing

/-- Labels of addresses; of two labels for one address the later one counts. -/
abbrev Labels := List (Int × String)

def label? (labels : Labels) (a : Address) : Option String :=
  (labels.reverse.find? fun l => l.1 == (a.val : Int)).map Prod.snd

/-- What an instruction's line says after the instruction; an empty remark is none. -/
def remark (labels : Labels) (i : Instruction) : String :=
  match i.target?.bind (label? labels) with
  | some label => label
  | none =>
    match i with
    | .loadIndex target => if Font.contains target then "font data" else ""
    | .machineCall _ => "machine code call (ignored)"
    | .unassigned _ => "unassigned opcode"
    | _ => ""

/-- A line: an instruction, or the single byte at the end of a program of odd length. -/
structure Entry where
  address : Int
  /-- The word, or the value of the single byte. -/
  opcode : UInt16
  /-- The instruction; a single byte has none. -/
  instruction? : Option Instruction
  raw : List UInt8
  comment : String
  deriving DecidableEq, Repr

namespace Entry

/-- The line of a word, whose bytes are given as well. -/
def ofWord (labels : Labels) (address : Int) (word : UInt16) (raw : List UInt8) : Entry where
  address := address
  opcode := word
  instruction? := some (Instruction.decode word)
  raw := raw
  comment := remark labels (Instruction.decode word)

/-- The line of a single byte at the end. -/
def ofByte (address : Int) (byte : UInt8) : Entry where
  address := address
  opcode := byte.toUInt16
  instruction? := none
  raw := [byte]
  comment := "trailing byte"

def size (e : Entry) : Nat := e.raw.length

def mnemonic (e : Entry) : String :=
  match e.instruction? with
  | some i => i.form.mnemonic
  | none => "DB"

def operands (e : Entry) : String :=
  match e.instruction? with
  | some i => i.operands
  | none => "#" ++ Hex.padded 2 e.opcode.toNat

def fill (width : Nat) (s : String) : String :=
  s ++ String.ofList (List.replicate (width - s.length) ' ')

def assembly (e : Entry) : String :=
  if e.operands = "" then e.mnemonic else e.mnemonic ++ " " ++ e.operands

/-- The operation with its operands and, if there is one, the comment. -/
def rest (e : Entry) : String :=
  if e.comment = "" then e.assembly else fill 16 e.assembly ++ " ; " ++ e.comment

def line (e : Entry) : String :=
  Hex.address e.address ++ ": " ++ fill 5 (Hex.bytes e.raw) ++ "  " ++ e.rest

/-- What a line without the bytes says: where there are no operands, the blank before them goes. -/
def shortRest (e : Entry) : String :=
  let code := Text.trimEnd (e.mnemonic ++ " " ++ e.operands)
  if e.comment = "" then code else fill 16 code ++ " ; " ++ e.comment

def shortLine (e : Entry) : String := Hex.address e.address ++ ": " ++ e.shortRest

end Entry

end Listing

end Chip8
