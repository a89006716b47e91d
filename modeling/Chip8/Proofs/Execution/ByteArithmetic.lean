import Chip8.Proofs.Execution.Footprint

/-!
# Sums, differences and shifts

The words `8xy4` to `8xy7` and `8xyE` put a result into the register `x` and then a flag into the
last register.  Both are computed from what the two registers hold before the step, so it does not
matter for either whether one of the registers is the flag; only a result that is put into the flag
itself is lost, because the flag is written last.

* `Word.Computes`: what the last digit of such a word asks of the result and the flag, as equations
  on numbers.
* `Arithmetic.computes_of_apply`: **the combinations of bytes satisfy them.**
* `Registers.combine`: the registers after a combination.
* `byte_arithmetic`: **a step that adds, subtracts or shifts changes no registers but its
  destination and the flag, to what the old operands give; adding a byte does not touch the flag.**
-/

namespace Chip8

/-- What a word `8xyn` with the last digit `n` makes of two numbers below 256: a result and a
flag. -/
def Word.Computes (last a b result flag : Nat) : Prop :=
  result < 256 ∧ flag ≤ 1 ∧
    match last with
    | 0x4 => result + 256 * flag = a + b
    | 0x5 => (result : Int) = ((a : Int) - b) % 256 ∧ (flag = 1 ↔ b < a)
    | 0x6 => 2 * result + flag = a
    | 0x7 => (result : Int) = ((b : Int) - a) % 256 ∧ (flag = 1 ↔ a < b)
    | 0xE => result + 256 * flag = 2 * a
    | _ => False

namespace Arithmetic

variable {operation : Arithmetic} {a b byte : UInt8} {raised : Bool}

theorem toNat_decide (p : Prop) [Decidable p] : (decide p).toNat = if p then 1 else 0 := by
  by_cases h : p
  · simp [h]
  · simp [h]

theorem toNat_sub (a b : UInt8) : ((a - b).toNat : Int) = ((a.toNat : Int) - b.toNat) % 256 := by
  have ha := a.toNat_lt
  have hb := b.toNat_lt
  rw [UInt8.toNat_sub]
  omega

theorem toNat_shiftRight (a : UInt8) : (a >>> 1).toNat = a.toNat / 2 := by
  rw [UInt8.toNat_shiftRight]
  rfl

theorem toNat_shiftLeft (a : UInt8) : (a <<< 1).toNat = 2 * a.toNat % 256 := by
  rw [UInt8.toNat_shiftLeft]
  show a.toNat <<< 1 % 256 = _
  rw [Nat.shiftLeft_eq, Nat.pow_one, Nat.mul_comm]

/-- **The combinations of bytes satisfy the equations of their last digit.** -/
theorem computes_of_apply (h : operation.apply a b = (byte, some raised)) :
    Word.Computes operation.nibble a.toNat b.toNat byte.toNat raised.toNat := by
  refine ⟨byte.toNat_lt, raised.toNat_le, ?_⟩
  cases operation with
  | copy | or | and | xor => cases h
  | add =>
    cases h
    rw [toNat_decide]
    exact add_eq a b
  | subtract =>
    cases h
    refine ⟨toNat_sub a b, ?_⟩
    rw [Bool.toNat_eq_one, decide_eq_true_iff, UInt8.lt_iff_toNat_lt]
  | shiftRight =>
    cases h
    show 2 * (a >>> 1).toNat + (decide (a.toNat % 2 = 1)).toNat = a.toNat
    rw [toNat_decide, toNat_shiftRight]
    split <;> omega
  | subtractFrom =>
    cases h
    refine ⟨toNat_sub b a, ?_⟩
    rw [Bool.toNat_eq_one, decide_eq_true_iff, UInt8.lt_iff_toNat_lt]
  | shiftLeft =>
    cases h
    have ha := a.toNat_lt
    show (a <<< 1).toNat + 256 * (decide (128 ≤ a)).toNat = 2 * a.toNat
    have htop : 128 ≤ a ↔ 128 ≤ a.toNat := UInt8.le_iff_toNat_le
    simp only [toNat_decide, toNat_shiftLeft, htop]
    split <;> omega

theorem exists_nibble_eq {last : Nat} (h : last ∈ [0x4, 0x5, 0x6, 0x7, 0xE]) :
    ∃ operation : Arithmetic, last = operation.nibble ∧
      ∀ a b, ∃ byte raised, operation.apply a b = (byte, some raised) := by
  simp only [List.mem_cons, List.not_mem_nil, or_false] at h
  rcases h with rfl | rfl | rfl | rfl | rfl
  · exact ⟨.add, rfl, fun a b => ⟨_, _, rfl⟩⟩
  · exact ⟨.subtract, rfl, fun a b => ⟨_, _, rfl⟩⟩
  · exact ⟨.shiftRight, rfl, fun a b => ⟨_, _, rfl⟩⟩
  · exact ⟨.subtractFrom, rfl, fun a b => ⟨_, _, rfl⟩⟩
  · exact ⟨.shiftLeft, rfl, fun a b => ⟨_, _, rfl⟩⟩

end Arithmetic

/-! ### Registers -/

namespace Registers

variable {v : Registers} {operation : Arithmetic} {x y : Register} {byte : UInt8} {raised : Bool}

/-- The registers after two of them have been combined; a flag is written last. -/
def combine (v : Registers) (operation : Arithmetic) (x y : Register) : Registers :=
  match operation.apply (v.get x) (v.get y) with
  | (byte, none) => v.set x byte
  | (byte, some raised) => (v.set x byte).setFlag raised

theorem combine_congr {y' : Register} (h : v.get y' = v.get y) :
    v.combine operation x y' = v.combine operation x y := by
  rw [combine, combine, h]

theorem get_combine (h : operation.apply (v.get x) (v.get y) = (byte, some raised)) (r : Register) :
    (v.combine operation x y).get r =
      if r = flag then (if raised then 1 else 0) else if r = x then byte else v.get r := by
  rw [combine, h]
  show ((v.set x byte).set flag _).get r = _
  rw [get_set, get_set]

end Registers

namespace Machine

variable {m : Machine} {w : UInt16} {operation : Arithmetic}

/-! ### Steps -/

/-- The machine with other registers. -/
def withRegisters (m : Machine) (v : Registers) : Machine :=
  { m with processor := { m.processor with v } }

theorem executes_combine (m : Machine) (operation : Arithmetic) (x y : Register) :
    Executes m (.combine operation x y) .executed
      (m.withRegisters (m.processor.v.combine operation x y)) := by
  rw [Registers.combine]
  cases happly : operation.apply (m.processor.v.get x) (m.processor.v.get y) with
  | mk byte flag =>
    cases flag with
    | none => exact .combine happly
    | some raised => exact .combineFlag happly

theorem step_combine (hwait : m.processor.waiting = none) (hw : m.nextWord? = some w)
    (hgroup : w.toNat / 4096 = 0x8) (hlast : w.toNat % 16 = operation.nibble) :
    m.step = .ok (.executed,
      m.advance.withRegisters (m.processor.v.combine operation (Word.x w) (Word.y w))) := by
  have hrule := executes_combine m.advance operation (Word.x w) (Word.y w)
  exact step_of_hasDigits hwait hw hrule ⟨hgroup, hlast, rfl, rfl⟩

theorem step_addByte (hwait : m.processor.waiting = none) (hw : m.nextWord? = some w)
    (hgroup : w.toNat / 4096 = 0x7) :
    m.step = .ok (.executed, m.advance.setReg (Word.x w) (m.reg (Word.x w) + Word.kk w)) := by
  have hrule := Executes.addByte (m := m.advance) (Word.x w) (Word.kk w)
  exact step_of_hasDigits hwait hw hrule ⟨hgroup, rfl, rfl⟩

/-- **Sums, differences and shifts of bytes.**  A step at a word `8xy4` to `8xy7` or `8xyE` computes
a result and a flag from what the registers hold before it, also where `x` or `y` is the flag, which
is stored last.  A step at a word `7xkk` adds a byte and touches no other register. -/
theorem byte_arithmetic (m : Machine) {w : UInt16} (hwait : m.processor.waiting = none)
    (hw : m.nextWord? = some w) :
    (w.toNat / 4096 = 0x8 → w.toNat % 16 ∈ [0x4, 0x5, 0x6, 0x7, 0xE] →
      ∃ m' result flag, m.step = .ok (.executed, m') ∧
        Word.Computes (w.toNat % 16) (m.reg (Word.x w)).toNat (m.reg (Word.y w)).toNat
          result flag ∧
        (m'.reg Registers.flag).toNat = flag ∧
        (Word.x w ≠ Registers.flag → (m'.reg (Word.x w)).toNat = result) ∧
        (∀ r, r ≠ Word.x w → r ≠ Registers.flag → m'.reg r = m.reg r) ∧
        ∀ (m₂ : Machine) (w₂ : UInt16), m₂.processor.v = m.processor.v →
          m₂.processor.waiting = none → m₂.nextWord? = some w₂ → w₂.toNat / 4096 = 0x8 →
          w₂.toNat % 16 = w.toNat % 16 → Word.x w₂ = Word.x w →
          m.reg (Word.y w₂) = m.reg (Word.y w) →
          ∃ m₂', m₂.step = .ok (.executed, m₂') ∧ m₂'.processor.v = m'.processor.v) ∧
    (w.toNat / 4096 = 0x7 → ∃ m', m.step = .ok (.executed, m') ∧
      (m'.reg (Word.x w)).toNat = ((m.reg (Word.x w)).toNat + w.toNat % 256) % 256 ∧
      ∀ r, r ≠ Word.x w → m'.reg r = m.reg r) := by
  constructor
  · intro hgroup hlast
    obtain ⟨operation, hnibble, hflag⟩ := Arithmetic.exists_nibble_eq hlast
    obtain ⟨byte, raised, happly⟩ := hflag (m.reg (Word.x w)) (m.reg (Word.y w))
    have hget : ∀ r, (m.advance.withRegisters
        (m.processor.v.combine operation (Word.x w) (Word.y w))).reg r =
          if r = Registers.flag then (if raised then 1 else 0)
          else if r = Word.x w then byte else m.reg r := Registers.get_combine happly
    refine ⟨_, byte.toNat, raised.toNat, step_combine hwait hw hgroup hnibble, ?_, ?_, ?_, ?_, ?_⟩
    · rw [hnibble]
      exact Arithmetic.computes_of_apply happly
    · rw [hget, if_pos rfl]
      cases raised <;> rfl
    · intro hx
      rw [hget, if_neg hx, if_pos rfl]
    · intro r hx hr
      rw [hget, if_neg hr, if_neg hx]
    · intro m₂ w₂ hv hwait₂ hw₂ hgroup₂ hlast₂ hx₂ hy₂
      refine ⟨_, step_combine hwait₂ hw₂ hgroup₂ (hlast₂.trans hnibble), ?_⟩
      show m₂.processor.v.combine operation (Word.x w₂) (Word.y w₂) =
        m.processor.v.combine operation (Word.x w) (Word.y w)
      rw [hv, hx₂]
      exact Registers.combine_congr hy₂
  · intro hgroup
    refine ⟨_, step_addByte hwait hw hgroup, ?_, fun r hr => ?_⟩
    · rw [reg_setReg, if_pos rfl, UInt8.toNat_add, Instruction.toNat_kk]
    · rw [reg_setReg, if_neg hr]
      rfl

/-- A machine at a word, with 200 in the flag and 100 in the first two registers. -/
def atSum (w : UInt16) : Machine :=
  (((atWord w).setReg Registers.flag 200).setReg (Word.y 0x8F04) 100).setReg (Word.y 0x8F14) 100

/-- The words `8F04` and `8F14` both add 100 to the 200 in the flag: the sum is lost there, and its
carry stays. -/
theorem byte_arithmetic_atSum : ∃ m' m₂',
    (atSum 0x8F04).step = .ok (.executed, m') ∧ (atSum 0x8F14).step = .ok (.executed, m₂') ∧
      m'.reg Registers.flag = 1 ∧ m₂'.processor.v = m'.processor.v := by
  have hw : (atSum 0x8F04).nextWord? = some 0x8F04 := nextWord?_atWord 0x8F04
  have hw₂ : (atSum 0x8F14).nextWord? = some 0x8F14 := nextWord?_atWord 0x8F14
  obtain ⟨m', result, flag, hstep, ⟨hresult, -, hcomputes⟩, hflag, -, -, hvalue⟩ :=
    (byte_arithmetic (atSum 0x8F04) rfl hw).1 (by decide) (by decide)
  obtain ⟨m₂', hstep₂, hsame⟩ :=
    hvalue (atSum 0x8F14) 0x8F14 rfl rfl hw₂ (by decide) (by decide) (by decide) (by decide)
  have hsum : result + 256 * flag = 200 + 100 := hcomputes
  have hcarry : (m'.reg Registers.flag).toNat = 1 := by omega
  exact ⟨m', m₂', hstep, hstep₂, UInt8.toNat_inj.mp hcarry, hsame⟩

end Machine

end Chip8
