import Chip8.Instruction.Basic

/-!
# Words and instructions

Every word is decoded to one instruction, and every instruction has a word.

* `Instruction.encode_decode`: **the word of a decoded instruction is the word it was decoded
  from**, so no two words are decoded alike.
-/

namespace Chip8

/-- The combination that the last four bits of a word select, if any. -/
def Arithmetic.ofNibble? : Nat → Option Arithmetic
  | 0x0 => some .copy
  | 0x1 => some .or
  | 0x2 => some .and
  | 0x3 => some .xor
  | 0x4 => some .add
  | 0x5 => some .subtract
  | 0x6 => some .shiftRight
  | 0x7 => some .subtractFrom
  | 0xE => some .shiftLeft
  | _ => none

/-- The last four bits of a word for a combination. -/
def Arithmetic.nibble : Arithmetic → Nat
  | copy => 0x0
  | or => 0x1
  | and => 0x2
  | xor => 0x3
  | add => 0x4
  | subtract => 0x5
  | shiftRight => 0x6
  | subtractFrom => 0x7
  | shiftLeft => 0xE

namespace Instruction

/-- The instruction of a word of group `F`, which its low byte selects. -/
def ofLowByte? (x : Register) : Nat → Option Instruction
  | 0x07 => some (readDelay x)
  | 0x0A => some (awaitKey x)
  | 0x15 => some (setDelay x)
  | 0x18 => some (setSound x)
  | 0x1E => some (addIndex x)
  | 0x29 => some (glyph x)
  | 0x33 => some (decimal x)
  | 0x55 => some (store x)
  | 0x65 => some (restore x)
  | _ => none

/-- What a word asks the machine to do. -/
def decode (w : UInt16) : Instruction :=
  match w.toNat / 4096 with
  | 0x0 =>
    if w = 0x00E0 then clearScreen
    else if w = 0x00EE then ret
    else machineCall (Word.nnn w)
  | 0x1 => jump (Word.nnn w)
  | 0x2 => call (Word.nnn w)
  | 0x3 => skip (.equalByte (Word.x w) (Word.kk w))
  | 0x4 => skip (.unequalByte (Word.x w) (Word.kk w))
  | 0x5 => if (Word.n w).val = 0 then skip (.equalRegister (Word.x w) (Word.y w)) else unassigned w
  | 0x6 => loadByte (Word.x w) (Word.kk w)
  | 0x7 => addByte (Word.x w) (Word.kk w)
  | 0x8 =>
    match Arithmetic.ofNibble? (Word.n w) with
    | some operation => combine operation (Word.x w) (Word.y w)
    | none => unassigned w
  | 0x9 => if (Word.n w).val = 0 then skip (.unequalRegister (Word.x w) (Word.y w)) else unassigned w
  | 0xA => loadIndex (Word.nnn w)
  | 0xB => jumpIndexed (Word.nnn w)
  | 0xC => random (Word.x w) (Word.kk w)
  | 0xD => draw (Word.x w) (Word.y w) (Word.n w)
  | 0xE =>
    if Word.kk w = 0x9E then skip (.keyHeld (Word.x w))
    else if Word.kk w = 0xA1 then skip (.keyFree (Word.x w))
    else unassigned w
  | 0xF => (ofLowByte? (Word.x w) (Word.kk w).toNat).getD (unassigned w)
  | _ => unassigned w

/-! ### The word of an instruction -/

/-- A word of a group and twelve more bits. -/
def ofGroup (group : Nat) (rest : Nat) : UInt16 := UInt16.ofNat (group * 4096 + rest)

/-- The word of an instruction. -/
def encode : Instruction → UInt16
  | machineCall target => ofGroup 0x0 target
  | clearScreen => 0x00E0
  | ret => 0x00EE
  | jump target => ofGroup 0x1 target
  | call target => ofGroup 0x2 target
  | jumpIndexed base => ofGroup 0xB base
  | skip (.equalByte x byte) => ofGroup 0x3 (x * 256 + byte.toNat)
  | skip (.unequalByte x byte) => ofGroup 0x4 (x * 256 + byte.toNat)
  | skip (.equalRegister x y) => ofGroup 0x5 (x * 256 + y * 16)
  | skip (.unequalRegister x y) => ofGroup 0x9 (x * 256 + y * 16)
  | skip (.keyHeld x) => ofGroup 0xE (x * 256 + 0x9E)
  | skip (.keyFree x) => ofGroup 0xE (x * 256 + 0xA1)
  | loadByte x byte => ofGroup 0x6 (x * 256 + byte.toNat)
  | addByte x byte => ofGroup 0x7 (x * 256 + byte.toNat)
  | combine operation x y => ofGroup 0x8 (x * 256 + y * 16 + operation.nibble)
  | loadIndex target => ofGroup 0xA target
  | random x mask => ofGroup 0xC (x * 256 + mask.toNat)
  | draw x y rows => ofGroup 0xD (x * 256 + y * 16 + rows)
  | readDelay x => ofGroup 0xF (x * 256 + 0x07)
  | awaitKey x => ofGroup 0xF (x * 256 + 0x0A)
  | setDelay x => ofGroup 0xF (x * 256 + 0x15)
  | setSound x => ofGroup 0xF (x * 256 + 0x18)
  | addIndex x => ofGroup 0xF (x * 256 + 0x1E)
  | glyph x => ofGroup 0xF (x * 256 + 0x29)
  | decimal x => ofGroup 0xF (x * 256 + 0x33)
  | store x => ofGroup 0xF (x * 256 + 0x55)
  | restore x => ofGroup 0xF (x * 256 + 0x65)
  | unassigned word => word

theorem ofGroup_eq {group rest : Nat} {w : UInt16} (h : w.toNat = group * 4096 + rest) :
    ofGroup group rest = w := by
  apply UInt16.toNat_inj.mp
  have := w.toNat_lt
  simp only [ofGroup, UInt16.toNat_ofNat']
  omega

theorem nibble_of_ofNibble {n : Nat} {operation : Arithmetic}
    (h : Arithmetic.ofNibble? n = some operation) : operation.nibble = n := by
  unfold Arithmetic.ofNibble? at h
  split at h <;> simp at h <;> subst h <;> rfl

theorem toNat_kk (w : UInt16) : (Word.kk w).toNat = w.toNat % 256 := by
  simp [Word.kk, Word.low]

theorem encode_ofLowByte {x : Register} {k : Nat} {i : Instruction}
    (h : ofLowByte? x k = some i) : i.encode = ofGroup 0xF (x * 256 + k) := by
  unfold ofLowByte? at h
  split at h <;> simp at h <;> subst h <;> rfl

theorem encode_decode (w : UInt16) : (decode w).encode = w := by
  have hk := toNat_kk w
  unfold decode
  split
  case h_1 _ hg =>
    split
    · next h => exact h.symm
    · split
      · next h => exact h.symm
      · exact ofGroup_eq (by simp only [Word.nnn]; omega)
  case h_6 _ hg =>
    split
    · next h =>
      have h' : w.toNat % 16 = 0 := h
      exact ofGroup_eq (by simp only [Word.x, Word.y]; omega)
    · rfl
  case h_9 _ hg =>
    split
    · next operation h =>
      have h' := nibble_of_ofNibble h
      simp only [Word.n] at h'
      exact ofGroup_eq (by simp only [Word.x, Word.y, h']; omega)
    · rfl
  case h_10 _ hg =>
    split
    · next h =>
      have h' : w.toNat % 16 = 0 := h
      exact ofGroup_eq (by simp only [Word.x, Word.y]; omega)
    · rfl
  case h_15 _ hg =>
    split
    · next h =>
      have h' : w.toNat % 256 = 0x9E := by rw [← hk, h]; rfl
      exact ofGroup_eq (by simp only [Word.x]; omega)
    · split
      · next h =>
        have h' : w.toNat % 256 = 0xA1 := by rw [← hk, h]; rfl
        exact ofGroup_eq (by simp only [Word.x]; omega)
      · rfl
  case h_16 _ hg =>
    cases h : ofLowByte? (Word.x w) (Word.kk w).toNat with
    | none => rfl
    | some i =>
      rw [Option.getD_some, encode_ofLowByte h]
      exact ofGroup_eq (by simp only [Word.x]; omega)
  case h_17 => rfl
  all_goals
    -- the other groups are put together again from all of their digits
    refine ofGroup_eq ?_
    simp only [Word.nnn, Word.x, Word.y, Word.n, hk]
    omega

end Instruction

end Chip8
