import Chip8.Word

/-!
# Instructions

A program is made of words, and each word is one instruction.  The fields of a word are

```text
15    12 11     8 7      4 3      0
| group |   x    |   y    |   n    |
                 |       kk        |
        |          nnn             |
```

An `Instruction` says what a word asks for, with just the fields it needs; a word without a
meaning is an instruction too, one that the machine skips over.  A `Form` is the shape that a word
has in the reference of the instruction set.
-/

namespace Chip8

/-- One of the sixteen registers that hold a byte. -/
abbrev Register := Fin 16

namespace Word

/-! ### Fields -/

/-- The highest four bits. -/
def group (w : UInt16) : Fin 16 := ⟨w.toNat / 4096, by have := w.toNat_lt; omega⟩

/-- The four bits after the group. -/
def x (w : UInt16) : Register := ⟨w.toNat / 256 % 16, by omega⟩

/-- The four bits before the last four. -/
def y (w : UInt16) : Register := ⟨w.toNat / 16 % 16, by omega⟩

/-- The lowest four bits. -/
def n (w : UInt16) : Fin 16 := ⟨w.toNat % 16, by omega⟩

/-- The low byte. -/
def kk (w : UInt16) : UInt8 := low w

/-- The low twelve bits. -/
def nnn (w : UInt16) : Address := ⟨w.toNat % 4096, by omega⟩

end Word

inductive Condition
  | equalByte (x : Register) (byte : UInt8)
  | unequalByte (x : Register) (byte : UInt8)
  | equalRegister (x y : Register)
  | unequalRegister (x y : Register)
  | keyHeld (x : Register)
  /-- The key that the register names is not held. -/
  | keyFree (x : Register)
  deriving DecidableEq, Repr

/-- How two registers are combined into the first of them. -/
inductive Arithmetic
  | copy
  | or
  | and
  | xor
  | add
  | subtract
  | shiftRight
  | subtractFrom
  | shiftLeft
  deriving DecidableEq, Repr

/-- What a word asks the machine to do. -/
inductive Instruction
  /-- A call of machine code, which is not carried out. -/
  | machineCall (target : Address)
  | clearScreen
  | ret
  | jump (target : Address)
  | call (target : Address)
  /-- A jump to the target plus the first register. -/
  | jumpIndexed (base : Address)
  | skip (condition : Condition)
  | loadByte (x : Register) (byte : UInt8)
  | addByte (x : Register) (byte : UInt8)
  | combine (operation : Arithmetic) (x y : Register)
  | loadIndex (target : Address)
  /-- A random byte, cut down to the bits of a mask. -/
  | random (x : Register) (mask : UInt8)
  /-- A sprite of so many rows at the place that two registers give. -/
  | draw (x y : Register) (rows : Fin 16)
  | readDelay (x : Register)
  | awaitKey (x : Register)
  | setDelay (x : Register)
  | setSound (x : Register)
  | addIndex (x : Register)
  /-- Points the index at the glyph of a digit. -/
  | glyph (x : Register)
  /-- Stores the three decimal digits of a register. -/
  | decimal (x : Register)
  /-- Stores the registers up to `x`. -/
  | store (x : Register)
  /-- Loads the registers up to `x`. -/
  | restore (x : Register)
  /-- A word without a meaning. -/
  | unassigned (word : UInt16)
  deriving DecidableEq, Repr

/-- The shapes of words, in the order of the reference. -/
inductive Form
  | machineCall
  | clearScreen
  | ret
  | jump
  | call
  | skipEqualByte
  | skipUnequalByte
  | skipEqualRegister
  | loadByte
  | addByte
  | copy
  | or
  | and
  | xor
  | add
  | subtract
  | shiftRight
  | subtractFrom
  | shiftLeft
  | skipUnequalRegister
  | loadIndex
  | jumpIndexed
  | random
  | draw
  | skipKeyHeld
  | skipKeyFree
  | readDelay
  | awaitKey
  | setDelay
  | setSound
  | addIndex
  | glyph
  | decimal
  | store
  | restore
  | unassigned
  deriving DecidableEq, Repr

namespace Form

/-- All forms, in the order of the reference. -/
def all : List Form :=
  [machineCall, clearScreen, ret, jump, call, skipEqualByte, skipUnequalByte, skipEqualRegister,
    loadByte, addByte, copy, or, and, xor, add, subtract, shiftRight, subtractFrom, shiftLeft,
    skipUnequalRegister, loadIndex, jumpIndexed, random, draw, skipKeyHeld, skipKeyFree, readDelay,
    awaitKey, setDelay, setSound, addIndex, glyph, decimal, store, restore, unassigned]

/-- The four digits of a form, with letters for the fields. -/
def pattern : Form → String
  | machineCall => "0nnn"
  | clearScreen => "00E0"
  | ret => "00EE"
  | jump => "1nnn"
  | call => "2nnn"
  | skipEqualByte => "3xkk"
  | skipUnequalByte => "4xkk"
  | skipEqualRegister => "5xy0"
  | loadByte => "6xkk"
  | addByte => "7xkk"
  | copy => "8xy0"
  | or => "8xy1"
  | and => "8xy2"
  | xor => "8xy3"
  | add => "8xy4"
  | subtract => "8xy5"
  | shiftRight => "8xy6"
  | subtractFrom => "8xy7"
  | shiftLeft => "8xyE"
  | skipUnequalRegister => "9xy0"
  | loadIndex => "Annn"
  | jumpIndexed => "Bnnn"
  | random => "Cxkk"
  | draw => "Dxyn"
  | skipKeyHeld => "Ex9E"
  | skipKeyFree => "ExA1"
  | readDelay => "Fx07"
  | awaitKey => "Fx0A"
  | setDelay => "Fx15"
  | setSound => "Fx18"
  | addIndex => "Fx1E"
  | glyph => "Fx29"
  | decimal => "Fx33"
  | store => "Fx55"
  | restore => "Fx65"
  | unassigned => "????"

/-- The word that a listing shows; forms that do the same with other operands share one. -/
def mnemonic : Form → String
  | machineCall => "SYS"
  | clearScreen => "CLS"
  | ret => "RET"
  | jump | jumpIndexed => "JP"
  | call => "CALL"
  | skipEqualByte | skipEqualRegister => "SE"
  | skipUnequalByte | skipUnequalRegister => "SNE"
  | loadByte | copy | loadIndex | readDelay | awaitKey | setDelay | setSound | glyph | decimal
  | store | restore => "LD"
  | addByte | add | addIndex => "ADD"
  | or => "OR"
  | and => "AND"
  | xor => "XOR"
  | subtract => "SUB"
  | shiftRight => "SHR"
  | subtractFrom => "SUBN"
  | shiftLeft => "SHL"
  | random => "RND"
  | draw => "DRW"
  | skipKeyHeld => "SKP"
  | skipKeyFree => "SKNP"
  | unassigned => "DW"

/-- The form has a meaning; only words of the other one are data. -/
def isKnown (f : Form) : Bool := f != unassigned

end Form

def Condition.form : Condition → Form
  | equalByte .. => .skipEqualByte
  | unequalByte .. => .skipUnequalByte
  | equalRegister .. => .skipEqualRegister
  | unequalRegister .. => .skipUnequalRegister
  | keyHeld .. => .skipKeyHeld
  | keyFree .. => .skipKeyFree

def Arithmetic.form : Arithmetic → Form
  | copy => .copy
  | or => .or
  | and => .and
  | xor => .xor
  | add => .add
  | subtract => .subtract
  | shiftRight => .shiftRight
  | subtractFrom => .subtractFrom
  | shiftLeft => .shiftLeft

def Instruction.form : Instruction → Form
  | machineCall .. => .machineCall
  | clearScreen => .clearScreen
  | ret => .ret
  | jump .. => .jump
  | call .. => .call
  | jumpIndexed .. => .jumpIndexed
  | skip condition => condition.form
  | loadByte .. => .loadByte
  | addByte .. => .addByte
  | combine operation _ _ => operation.form
  | loadIndex .. => .loadIndex
  | random .. => .random
  | draw .. => .draw
  | readDelay .. => .readDelay
  | awaitKey .. => .awaitKey
  | setDelay .. => .setDelay
  | setSound .. => .setSound
  | addIndex .. => .addIndex
  | glyph .. => .glyph
  | decimal .. => .decimal
  | store .. => .store
  | restore .. => .restore
  | unassigned .. => .unassigned

end Chip8
