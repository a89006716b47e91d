import Chip8.Instruction.Decode
import Mathlib.Tactic.Common

/-!
# The shapes of words

What a word is decoded to can be read off its digits.  Statements about programs name words by their
shape, as the reference of the instruction set does; the lemmas here lead from a shape to the
instruction and back.

* `Instruction.HasDigits`: the shapes, one for each instruction.
* `decode_eq_iff`: **a word is decoded to the one instruction whose digits it has.**
* `decode_eq_ret_iff`, `decode_eq_call_iff`, `decode_eq_awaitKey_iff`: the words `00EE`, `2nnn` and
  `Fx0A`.
* `Word.blockLength?`: how many bytes a word asks for, and `blockLength?_decode`: it is what its
  instruction asks for.
-/

namespace Chip8

/-- How many bytes from the index on an instruction reads or writes, if it goes to memory at all. -/
def Instruction.blockLength? : Instruction → Option Nat
  | .draw _ _ rows => some rows
  | .decimal _ => some 3
  | .store x => some (x + 1)
  | .restore x => some (x + 1)
  | _ => none

/-- How many bytes from the index on a word of the shapes `Dxyn`, `Fx33`, `Fx55` and `Fx65` reads or
writes; other words leave memory alone. -/
def Word.blockLength? (w : UInt16) : Option Nat :=
  if w.toNat / 4096 = 0xD then some (w.toNat % 16)
  else if w.toNat / 4096 = 0xF then
    if w.toNat % 256 = 0x33 then some 3
    else if w.toNat % 256 = 0x55 ∨ w.toNat % 256 = 0x65 then some (w.toNat / 256 % 16 + 1)
    else none
  else none

/-- The digits select nothing: the word is in one of the groups `5`, `8`, `9`, `E` and `F`, and the
rest of it is none that the group knows. -/
def Word.IsUnassigned (w : UInt16) : Prop :=
  (w.toNat / 4096 = 0x5 ∨ w.toNat / 4096 = 0x9) ∧ w.toNat % 16 ≠ 0 ∨
  w.toNat / 4096 = 0x8 ∧ 8 ≤ w.toNat % 16 ∧ w.toNat % 16 ≠ 0xE ∨
  w.toNat / 4096 = 0xE ∧ w.toNat % 256 ∉ [0x9E, 0xA1] ∨
  w.toNat / 4096 = 0xF ∧
    w.toNat % 256 ∉ [0x07, 0x0A, 0x15, 0x18, 0x1E, 0x29, 0x33, 0x55, 0x65]

namespace Instruction

/-- The words that ask for an instruction, by their digits. -/
def HasDigits (w : UInt16) : Instruction → Prop
  | machineCall target =>
    w.toNat / 4096 = 0x0 ∧ w ≠ 0x00E0 ∧ w ≠ 0x00EE ∧ target = Word.nnn w
  | clearScreen => w = 0x00E0
  | ret => w = 0x00EE
  | jump target => w.toNat / 4096 = 0x1 ∧ target = Word.nnn w
  | call target => w.toNat / 4096 = 0x2 ∧ target = Word.nnn w
  | jumpIndexed base => w.toNat / 4096 = 0xB ∧ base = Word.nnn w
  | skip (.equalByte x byte) => w.toNat / 4096 = 0x3 ∧ x = Word.x w ∧ byte = Word.kk w
  | skip (.unequalByte x byte) => w.toNat / 4096 = 0x4 ∧ x = Word.x w ∧ byte = Word.kk w
  | skip (.equalRegister x y) =>
    w.toNat / 4096 = 0x5 ∧ w.toNat % 16 = 0 ∧ x = Word.x w ∧ y = Word.y w
  | skip (.unequalRegister x y) =>
    w.toNat / 4096 = 0x9 ∧ w.toNat % 16 = 0 ∧ x = Word.x w ∧ y = Word.y w
  | skip (.keyHeld x) => w.toNat / 4096 = 0xE ∧ w.toNat % 256 = 0x9E ∧ x = Word.x w
  | skip (.keyFree x) => w.toNat / 4096 = 0xE ∧ w.toNat % 256 = 0xA1 ∧ x = Word.x w
  | loadByte x byte => w.toNat / 4096 = 0x6 ∧ x = Word.x w ∧ byte = Word.kk w
  | addByte x byte => w.toNat / 4096 = 0x7 ∧ x = Word.x w ∧ byte = Word.kk w
  | combine operation x y =>
    w.toNat / 4096 = 0x8 ∧ w.toNat % 16 = operation.nibble ∧ x = Word.x w ∧ y = Word.y w
  | loadIndex target => w.toNat / 4096 = 0xA ∧ target = Word.nnn w
  | random x mask => w.toNat / 4096 = 0xC ∧ x = Word.x w ∧ mask = Word.kk w
  | draw x y rows =>
    w.toNat / 4096 = 0xD ∧ x = Word.x w ∧ y = Word.y w ∧ rows = Word.n w
  | readDelay x => w.toNat / 4096 = 0xF ∧ w.toNat % 256 = 0x07 ∧ x = Word.x w
  | awaitKey x => w.toNat / 4096 = 0xF ∧ w.toNat % 256 = 0x0A ∧ x = Word.x w
  | setDelay x => w.toNat / 4096 = 0xF ∧ w.toNat % 256 = 0x15 ∧ x = Word.x w
  | setSound x => w.toNat / 4096 = 0xF ∧ w.toNat % 256 = 0x18 ∧ x = Word.x w
  | addIndex x => w.toNat / 4096 = 0xF ∧ w.toNat % 256 = 0x1E ∧ x = Word.x w
  | glyph x => w.toNat / 4096 = 0xF ∧ w.toNat % 256 = 0x29 ∧ x = Word.x w
  | decimal x => w.toNat / 4096 = 0xF ∧ w.toNat % 256 = 0x33 ∧ x = Word.x w
  | store x => w.toNat / 4096 = 0xF ∧ w.toNat % 256 = 0x55 ∧ x = Word.x w
  | restore x => w.toNat / 4096 = 0xF ∧ w.toNat % 256 = 0x65 ∧ x = Word.x w
  | unassigned word => word = w ∧ Word.IsUnassigned w

variable {w : UInt16} {i : Instruction}

theorem ofNibble?_nibble (operation : Arithmetic) :
    Arithmetic.ofNibble? operation.nibble = some operation := by
  cases operation <;> rfl

theorem ofNibble?_eq_none_iff {n : Nat} :
    Arithmetic.ofNibble? n = none ↔ 8 ≤ n ∧ n ≠ 0xE := by
  unfold Arithmetic.ofNibble?
  split
  case h_10 =>
    simp only [imp_false] at *
    simp only [true_iff]
    omega
  all_goals simp

theorem ofLowByte?_eq_none_iff {x : Register} {k : Nat} : ofLowByte? x k = none ↔
    k ∉ [0x07, 0x0A, 0x15, 0x18, 0x1E, 0x29, 0x33, 0x55, 0x65] := by
  unfold ofLowByte?
  split
  case h_10 =>
    simp only [imp_false] at *
    simp [*]
  all_goals simp

theorem kk_eq_iff {byte : Nat} (hbyte : byte < 256) :
    Word.kk w = UInt8.ofNat byte ↔ w.toNat % 256 = byte := by
  rw [← UInt8.toNat_inj, toNat_kk, UInt8.toNat_ofNat', Nat.mod_eq_of_lt hbyte]

theorem hasDigits_decode (w : UInt16) : (decode w).HasDigits w := by
  have hgroup : w.toNat / 4096 < 16 := by have := w.toNat_lt; omega
  have hk := toNat_kk w
  unfold decode
  -- one case for each group of words; those with several instructions are told apart once more
  split
  case h_1 _ hg =>
    split
    · next h => exact h
    · next hcls =>
      split
      · next h => exact h
      · next hret => exact ⟨hg, hcls, hret, rfl⟩
  case h_6 _ hg =>
    split
    · next h => exact ⟨hg, h, rfl, rfl⟩
    · next h => exact ⟨rfl, .inl ⟨.inl hg, h⟩⟩
  case h_9 _ hg =>
    split
    · next operation h => exact ⟨hg, (nibble_of_ofNibble h).symm, rfl, rfl⟩
    · next h => exact ⟨rfl, .inr (.inl ⟨hg, ofNibble?_eq_none_iff.mp h⟩)⟩
  case h_10 _ hg =>
    split
    · next h => exact ⟨hg, h, rfl, rfl⟩
    · next h => exact ⟨rfl, .inl ⟨.inr hg, h⟩⟩
  case h_15 _ hg =>
    split
    · next h => exact ⟨hg, (kk_eq_iff (by decide)).mp h, rfl⟩
    · next h9E =>
      split
      · next h => exact ⟨hg, (kk_eq_iff (by decide)).mp h, rfl⟩
      · next hA1 =>
        refine ⟨rfl, .inr (.inr (.inl ⟨hg, ?_⟩))⟩
        have h9E' : w.toNat % 256 ≠ 0x9E := mt (kk_eq_iff (by decide)).mpr h9E
        have hA1' : w.toNat % 256 ≠ 0xA1 := mt (kk_eq_iff (by decide)).mpr hA1
        simp [h9E', hA1']
  case h_16 _ hg =>
    rw [hk]
    cases h : ofLowByte? (Word.x w) (w.toNat % 256) with
    | none => exact ⟨rfl, .inr (.inr (.inr ⟨hg, ofLowByte?_eq_none_iff.mp h⟩))⟩
    | some i =>
      unfold ofLowByte? at h
      split at h
      case h_10 => cases h
      all_goals cases h; exact ⟨hg, by assumption, rfl⟩
  case h_17 =>
    simp only [imp_false] at *
    omega
  all_goals
    first
    | exact ⟨by assumption, rfl⟩
    | exact ⟨by assumption, rfl, rfl⟩
    | exact ⟨by assumption, rfl, rfl, rfl⟩

theorem HasDigits.decode_eq (h : i.HasDigits w) : decode w = i := by
  have hk := toNat_kk w
  have hn : (Word.n w).val = w.toNat % 16 := rfl
  -- every test that is made on the way to the instruction is among the hypotheses
  cases i with
  | machineCall target =>
    obtain ⟨hg, hcls, hret, rfl⟩ := h
    simp only [decode, hg, if_neg hcls, if_neg hret]
  | clearScreen => cases h; rfl
  | ret => cases h; rfl
  | skip condition =>
    cases condition with
    | equalByte x byte | unequalByte x byte =>
      obtain ⟨hg, rfl, rfl⟩ := h
      simp only [decode, hg]
    | equalRegister x y | unequalRegister x y =>
      obtain ⟨hg, hlast, rfl, rfl⟩ := h
      simp only [decode, hg, hn, hlast, if_true]
    | keyHeld x =>
      obtain ⟨hg, hlow, rfl⟩ := h
      simp only [decode, hg, (kk_eq_iff (by decide)).mpr hlow]
      rfl
    | keyFree x =>
      obtain ⟨hg, hlow, rfl⟩ := h
      simp only [decode, hg, (kk_eq_iff (by decide)).mpr hlow]
      rfl
  | combine operation x y =>
    obtain ⟨hg, hlast, rfl, rfl⟩ := h
    simp only [decode, hg, hn, hlast, ofNibble?_nibble]
  | draw x y rows =>
    obtain ⟨hg, rfl, rfl, rfl⟩ := h
    simp only [decode, hg]
  | loadByte x byte | addByte x byte | random x byte =>
    obtain ⟨hg, rfl, rfl⟩ := h
    simp only [decode, hg]
  | jump target | call target | jumpIndexed target | loadIndex target =>
    obtain ⟨hg, rfl⟩ := h
    simp only [decode, hg]
  | unassigned word =>
    obtain ⟨rfl, h⟩ := h
    -- only five groups have words without a meaning, each for its own last digits
    rcases h with ⟨hg | hg, hlast⟩ | ⟨hg, hge, hne⟩ | ⟨hg, hlow⟩ | ⟨hg, hlow⟩
    · simp only [decode, hg, hn, if_neg hlast]
    · simp only [decode, hg, hn, if_neg hlast]
    · simp only [decode, hg, hn, ofNibble?_eq_none_iff.mpr ⟨hge, hne⟩]
    · simp only [List.mem_cons, List.not_mem_nil, or_false, not_or] at hlow
      have h9E : Word.kk word ≠ 0x9E := mt (kk_eq_iff (by decide)).mp hlow.1
      have hA1 : Word.kk word ≠ 0xA1 := mt (kk_eq_iff (by decide)).mp hlow.2
      simp only [decode, hg, if_neg h9E, if_neg hA1]
    · simp only [decode, hg, hk, ofLowByte?_eq_none_iff.mpr hlow, Option.getD_none]
  | _ =>
    obtain ⟨hg, hlow, rfl⟩ := h
    simp only [decode, hg, hk, hlow]
    rfl

/-- **A word is decoded to the one instruction whose digits it has.** -/
theorem decode_eq_iff : decode w = i ↔ i.HasDigits w :=
  ⟨fun h => h ▸ hasDigits_decode w, HasDigits.decode_eq⟩

theorem decode_eq_ret_iff : decode w = .ret ↔ w = 0x00EE := decode_eq_iff

theorem decode_eq_call_iff {target : Address} :
    decode w = .call target ↔ w.toNat / 4096 = 0x2 ∧ target = Word.nnn w := decode_eq_iff

theorem decode_eq_awaitKey_iff {x : Register} : decode w = .awaitKey x ↔
    w.toNat / 4096 = 0xF ∧ w.toNat % 256 = 0x0A ∧ x = Word.x w := decode_eq_iff

theorem blockLength?_ofLowByte (x : Register) (k : Nat) :
    ((ofLowByte? x k).getD (.unassigned w)).blockLength? =
      if k = 0x33 then some 3 else if k = 0x55 ∨ k = 0x65 then some (x.val + 1) else none := by
  unfold ofLowByte?
  split
  case h_10 _ _ _ _ _ _ _ h33 h55 h65 =>
    rw [if_neg h33, if_neg (not_or.mpr ⟨h55, h65⟩)]
    rfl
  all_goals rfl

theorem blockLength?_decode (w : UInt16) : (decode w).blockLength? = Word.blockLength? w := by
  have hk := toNat_kk w
  have hnone (hD : w.toNat / 4096 ≠ 0xD) (hF : w.toNat / 4096 ≠ 0xF) :
      none = Word.blockLength? w := by
    rw [Word.blockLength?, if_neg hD, if_neg hF]
  unfold decode
  split
  case h_14 _ hg => exact (if_pos hg).symm
  case h_16 _ hg =>
    rw [blockLength?_ofLowByte, Word.blockLength?, hk, if_neg (show ¬ w.toNat / 4096 = 0xD by omega),
      if_pos hg]
    rfl
  case h_17 _ _ _ _ _ _ _ _ _ _ _ _ _ _ hD _ hF => exact hnone hD hF
  all_goals
    refine Eq.trans ?_ (hnone (by omega) (by omega))
    repeat' split
    all_goals rfl

end Instruction

end Chip8
