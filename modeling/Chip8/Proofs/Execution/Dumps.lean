import Chip8.Proofs.Execution.Footprint

/-!
# Dumps of registers

The words `Fx55` store the registers up to `x` from the index on, and the words `Fx65` load them
from there.  Each undoes the other: what is stored comes back, whatever has become of the
registers in between, and what was loaded is already where a store would put it.  The index stays
where it is, and the flag is a register like any other.  The words `Fx33` store the decimal digits
of a register, where a load finds them one by one.

A block may lie anywhere in memory, so it may cover the very words that store and load it.  What is
said here is therefore about machines that carry out a word, wherever they have fetched it from.

* `Machine.obey`: what a step does with the word that it has fetched.
* `Memory.block_overwrite`, `Memory.overwrite_block_self`: a block that is read after it was
  written, and one that is written after it was read.
* `Registers.get_setFrom_upTo`, `Registers.upTo_setFrom`: the same of registers.
* `dumps_round_trip`: **stores and loads undo each other, and touch nothing but their block.**
-/

namespace Chip8

/-! ### Blocks -/

namespace Memory

theorem block_overwrite (m : Memory) {a : Nat} {bytes : List UInt8}
    (h : a + bytes.length ≤ 4096) : (m.overwrite a bytes).block a bytes.length = bytes := by
  refine List.ext_getElem (length_block _ _ _) fun k hk hk' => ?_
  simp only [block, List.getElem_map, List.getElem_range]
  exact m.byteAt_overwrite_of_getElem? h (List.getElem?_eq_getElem hk')

theorem overwrite_block_self (m : Memory) (a count : Nat) :
    m.overwrite a (m.block a count) = m := by
  refine ext_byteAt fun i hi => ?_
  rw [byteAt_overwrite _ _ _ _ hi, length_block]
  split
  · next hinside =>
    have hbyte : (m.block a count)[i - a]? = some (m.byteAt (a + (i - a))) :=
      getElem?_block_eq_some_iff.mpr ⟨by omega, rfl⟩
    rw [List.getD_eq_getElem?_getD, hbyte, Option.getD_some, Nat.add_sub_cancel' hinside.1]
  · rfl

end Memory

namespace Registers

variable {v : Registers} {x r : Register}

theorem getElem?_upTo (hr : r ≤ x) : (v.upTo x)[r.val]? = some (v.get r) := by
  have hr' : r.val < x.val + 1 := Nat.lt_succ_of_le hr
  rw [upTo, List.getElem?_take_of_lt hr']
  simp [get]

/-- Registers that were stored come back, over whatever has taken their place. -/
theorem get_setFrom_upTo (v now : Registers) (x r : Register) :
    (now.setFrom 0 (v.upTo x)).get r = if r ≤ x then v.get r else now.get r := by
  rw [get_setFrom, length_upTo, Nat.sub_zero]
  by_cases hr : r ≤ x
  · have hr' : r.val < x.val + 1 := Nat.lt_succ_of_le hr
    rw [if_pos hr, if_pos (by omega), List.getD_eq_getElem?_getD, getElem?_upTo hr,
      Option.getD_some]
  · have hr' : ¬ r.val ≤ x.val := hr
    rw [if_neg hr, if_neg (by omega)]

theorem upTo_setFrom (v : Registers) {x : Register} {bytes : List UInt8}
    (h : bytes.length = x.val + 1) : (v.setFrom 0 bytes).upTo x = bytes := by
  refine List.ext_getElem ((length_upTo _ x).trans h.symm) fun k hk hk' => ?_
  have hkx : k ≤ x.val := by omega
  have hinside : 0 ≤ k ∧ k < 0 + bytes.length := by omega
  have hupTo := getElem?_upTo (v := v.setFrom 0 bytes) (r := ⟨k, Nat.lt_of_le_of_lt hkx x.isLt⟩) hkx
  rw [get_setFrom, if_pos hinside, Nat.sub_zero, List.getD_eq_getElem?_getD,
    List.getElem?_eq_getElem hk', Option.getD_some, List.getElem?_eq_getElem hk] at hupTo
  exact Option.some.inj hupTo

end Registers

namespace Machine

variable {m m' : Machine} {i : Instruction} {o : Outcome} {w : UInt16} {x : Register}

theorem decimalDigits_spec (b : UInt8) : ∃ d₂ d₁ d₀, decimalDigits b = [d₂, d₁, d₀] ∧
    d₂.toNat ≤ 9 ∧ d₁.toNat ≤ 9 ∧ d₀.toNat ≤ 9 ∧
    100 * d₂.toNat + 10 * d₁.toNat + d₀.toNat = b.toNat := by
  have hb := b.toNat_lt
  have h₂ : (b / 100).toNat = b.toNat / 100 := UInt8.toNat_div b 100
  have h₁ : (b / 10 % 10).toNat = b.toNat / 10 % 10 := by
    rw [UInt8.toNat_mod, UInt8.toNat_div]
    rfl
  have h₀ : (b % 10).toNat = b.toNat % 10 := UInt8.toNat_mod b 10
  exact ⟨_, _, _, rfl, by omega, by omega, by omega, by omega⟩

/-! ### Carrying out a word -/

/-- What a step does with the word that it has fetched. -/
def obey (m : Machine) (w : UInt16) : Except Fault (Outcome × Machine) :=
  m.carryOut m.processor.pc.toNat (.ok w)

theorem step_eq_obey (hwait : m.processor.waiting = none) (hw : m.nextWord? = some w) :
    m.step = m.obey w := by
  rw [step_of_not_waiting hwait, readWord_of_nextWord? hw, obey]

theorem obey_of_hasDigits (h : Executes m.advance i o m') (hdigits : i.HasDigits w) :
    m.obey w = .ok (o, m') := by
  rw [obey, carryOut, dispatch, hdigits.decode_eq, h.execute_eq]

theorem executes_of_obey (h : m.obey w = .ok (o, m')) (hdigits : i.HasDigits w) :
    Executes m.advance i o m' := by
  rw [obey, carryOut, dispatch, hdigits.decode_eq] at h
  split at h
  · cases h
  · next hexecute =>
    cases h
    exact execute_eq_ok_iff.mp hexecute

/-- The second machine has the index of the first, and so many bytes from there on are the only ones
in which its memory may differ. -/
structure WritesBlock (m : Machine) (length : Nat) (m' : Machine) : Prop where
  index : m'.processor.i = m.processor.i
  memory : ∀ a, ¬ (m.processor.i.toNat ≤ a ∧ a < m.processor.i.toNat + length) →
    m'.memory.byteAt a = m.memory.byteAt a

theorem writesBlock_overwrite (m : Machine) {bytes : List UInt8} {n : Nat}
    (hn : bytes.length = n) :
    m.WritesBlock n
      { m.advance with memory := m.memory.overwrite m.processor.i.toNat bytes } where
  index := rfl
  memory := by
    intro a houtside
    by_contra hne
    exact houtside (Memory.mem_block_of_overwrite_ne hn hne)

theorem obey_store (hrange : m.processor.i.toNat + (x.val + 1) ≤ 4096)
    (hdigits : (Instruction.store x).HasDigits w) : m.obey w =
      .ok (.executed, { m.advance with
        memory := m.memory.overwrite m.processor.i.toNat (m.processor.v.upTo x) }) :=
  obey_of_hasDigits (.store (m := m.advance) x hrange) hdigits

theorem obey_restore (hrange : m.processor.i.toNat + (x.val + 1) ≤ 4096)
    (hdigits : (Instruction.restore x).HasDigits w) : m.obey w =
      .ok (.executed,
        m.advance.loadRegisters (m.memory.block m.processor.i.toNat (x.val + 1))) := by
  have hblock := m.memory.slice_eq_block m.processor.i.toNat hrange
  rw [Nat.add_sub_cancel_left] at hblock
  rw [← hblock]
  exact obey_of_hasDigits (.restore (m := m.advance) x hrange) hdigits

theorem obey_decimal (hrange : m.processor.i.toNat + 3 ≤ 4096)
    (hdigits : (Instruction.decimal x).HasDigits w) : m.obey w =
      .ok (.executed, { m.advance with
        memory := m.memory.overwrite m.processor.i.toNat (decimalDigits (m.reg x)) }) :=
  obey_of_hasDigits (.decimal (m := m.advance) x hrange) hdigits

/-! ### Round trips -/

/-- **A store can be undone.**  Registers that are stored come back with a load, whatever has been
done to the registers in between. -/
theorem restore_after_store (hrange : m.processor.i.toNat + (x.val + 1) ≤ 4096)
    (hdigits : (Instruction.store x).HasDigits w) :
    ∃ m₁, m.obey w = .ok (.executed, m₁) ∧ m.WritesBlock (x.val + 1) m₁ ∧
      ∀ (m₂ : Machine) (w₂ : UInt16), m₂.memory = m₁.memory → m₂.processor.i = m₁.processor.i →
        (Instruction.restore x).HasDigits w₂ →
        ∃ m₃, m₂.obey w₂ = .ok (.executed, m₃) ∧
          m₃.memory = m₁.memory ∧ m₃.processor.i = m.processor.i ∧
          ∀ r, m₃.reg r = if r ≤ x then m.reg r else m₂.reg r := by
  have hlength := m.processor.v.length_upTo x
  refine ⟨_, obey_store hrange hdigits, m.writesBlock_overwrite hlength, ?_⟩
  intro m₂ w₂ hmemory hindex hdigits₂
  refine ⟨_, obey_restore (hindex ▸ hrange) hdigits₂, hmemory, hindex, fun r => ?_⟩
  have hblock := m.memory.block_overwrite (hlength.symm ▸ hrange)
  rw [hlength] at hblock
  rw [hmemory, hindex]
  exact (congrArg (fun bytes => (m₂.processor.v.setFrom 0 bytes).get r) hblock).trans
    (Registers.get_setFrom_upTo _ _ x r)

/-- **A load can be followed by a store that changes nothing.** -/
theorem store_after_restore (hrange : m.processor.i.toNat + (x.val + 1) ≤ 4096)
    (hdigits : (Instruction.restore x).HasDigits w) :
    ∃ m₁, m.obey w = .ok (.executed, m₁) ∧
      m₁.memory = m.memory ∧ m₁.processor.i = m.processor.i ∧
      ∀ (m₂ : Machine) (w₂ : UInt16), m₂.memory = m₁.memory → m₂.processor.i = m₁.processor.i →
        m₂.processor.v = m₁.processor.v → (Instruction.store x).HasDigits w₂ →
        ∃ m₃, m₂.obey w₂ = .ok (.executed, m₃) ∧
          m₃.memory = m.memory ∧ m₃.processor.i = m.processor.i := by
  refine ⟨_, obey_restore hrange hdigits, rfl, rfl, ?_⟩
  intro m₂ w₂ hmemory hindex hregisters hdigits₂
  refine ⟨_, obey_store (hindex ▸ hrange) hdigits₂, ?_, hindex⟩
  have hupTo : m₂.processor.v.upTo x = m.memory.block m.processor.i.toNat (x.val + 1) := by
    rw [hregisters]
    exact Registers.upTo_setFrom _ (Memory.length_block _ _ _)
  rw [hupTo, hmemory, hindex]
  exact m.memory.overwrite_block_self _ _

theorem exists_obey_decimal_iff (hdigits : (Instruction.decimal x).HasDigits w) :
    (∃ o m₁, m.obey w = .ok (o, m₁)) ↔ m.processor.i.toNat + 3 ≤ 4096 := by
  constructor
  · rintro ⟨o, m₁, h⟩
    cases executes_of_obey h hdigits with
    | decimal _ hrange => exact hrange
  · intro hrange
    exact ⟨_, _, obey_decimal hrange hdigits⟩

/-- **The digits of a register can be loaded one by one.** -/
theorem restore_after_decimal (hdigits : (Instruction.decimal x).HasDigits w)
    (h : m.obey w = .ok (o, m')) :
    m.WritesBlock 3 m' ∧ ∃ d₂ d₁ d₀ : UInt8,
      m'.memory.block m.processor.i.toNat 3 = [d₂, d₁, d₀] ∧
      d₂.toNat ≤ 9 ∧ d₁.toNat ≤ 9 ∧ d₀.toNat ≤ 9 ∧
      100 * d₂.toNat + 10 * d₁.toNat + d₀.toNat = (m.reg x).toNat ∧
      ∀ (m₂ : Machine) (w₂ : UInt16), m₂.memory = m'.memory → m₂.processor.i = m'.processor.i →
        (Instruction.restore 2).HasDigits w₂ →
        ∃ m₃, m₂.obey w₂ = .ok (.executed, m₃) ∧
          m₃.memory = m'.memory ∧ m₃.processor.i = m.processor.i ∧
          m₃.reg 0 = d₂ ∧ m₃.reg 1 = d₁ ∧ m₃.reg 2 = d₀ ∧ ∀ r, 2 < r → m₃.reg r = m₂.reg r := by
  have hrange := (exists_obey_decimal_iff hdigits).mp ⟨o, m', h⟩
  obtain ⟨d₂, d₁, d₀, hdecimal, h₂, h₁, h₀, hvalue⟩ := decimalDigits_spec (m.reg x)
  have hblock : (m.memory.overwrite m.processor.i.toNat (decimalDigits (m.reg x))).block
      m.processor.i.toNat 3 = decimalDigits (m.reg x) := m.memory.block_overwrite hrange
  rw [obey_decimal hrange hdigits] at h
  cases h
  rw [hdecimal] at hblock ⊢
  refine ⟨m.writesBlock_overwrite rfl, d₂, d₁, d₀, hblock, h₂, h₁, h₀, hvalue, ?_⟩
  intro m₂ w₂ hmemory hindex hdigits₂
  have hloaded (r : Register) : (m₂.advance.loadRegisters
      (m₂.memory.block m₂.processor.i.toNat 3)).reg r =
        if 0 ≤ r.val ∧ r.val < 0 + 3 then [d₂, d₁, d₀].getD (r.val - 0) 0 else m₂.reg r := by
    rw [hmemory, hindex]
    exact (congrArg (fun bytes => (m₂.processor.v.setFrom 0 bytes).get r) hblock).trans
      (Registers.get_setFrom _ 0 [d₂, d₁, d₀] r)
  refine ⟨_, obey_restore (hindex ▸ hrange) hdigits₂, hmemory, hindex, hloaded 0, hloaded 1,
    hloaded 2, fun r hr => (hloaded r).trans (if_neg ?_)⟩
  have hr' : 2 < r.val := hr
  omega

/-- **Stores and loads undo each other.**  The word `Fx55` writes nothing but its block, and a later
`Fx65` from the same block brings back the registers of the store, whatever they have become; after
`Fx65`, a store changes nothing.  The word `Fx33` writes three decimal digits that make up the
register, and `F265` puts them into the first three registers. -/
theorem dumps_round_trip (m : Machine) (x : Register) (w : UInt16) :
    (m.processor.waiting = none → m.nextWord? = some w → m.step = m.obey w) ∧
    (m.processor.i.toNat + (x.val + 1) ≤ 4096 → (Instruction.store x).HasDigits w →
      ∃ m₁, m.obey w = .ok (.executed, m₁) ∧ m.WritesBlock (x.val + 1) m₁ ∧
        ∀ (m₂ : Machine) (w₂ : UInt16), m₂.memory = m₁.memory → m₂.processor.i = m₁.processor.i →
          (Instruction.restore x).HasDigits w₂ →
          ∃ m₃, m₂.obey w₂ = .ok (.executed, m₃) ∧
            m₃.memory = m₁.memory ∧ m₃.processor.i = m.processor.i ∧
            ∀ r, m₃.reg r = if r ≤ x then m.reg r else m₂.reg r) ∧
    (m.processor.i.toNat + (x.val + 1) ≤ 4096 → (Instruction.restore x).HasDigits w →
      ∃ m₁, m.obey w = .ok (.executed, m₁) ∧
        m₁.memory = m.memory ∧ m₁.processor.i = m.processor.i ∧
        ∀ (m₂ : Machine) (w₂ : UInt16), m₂.memory = m₁.memory → m₂.processor.i = m₁.processor.i →
          m₂.processor.v = m₁.processor.v → (Instruction.store x).HasDigits w₂ →
          ∃ m₃, m₂.obey w₂ = .ok (.executed, m₃) ∧
            m₃.memory = m.memory ∧ m₃.processor.i = m.processor.i) ∧
    ((Instruction.decimal x).HasDigits w →
      ((∃ o m₁, m.obey w = .ok (o, m₁)) ↔ m.processor.i.toNat + 3 ≤ 4096) ∧
      ∀ o m₁, m.obey w = .ok (o, m₁) → m.WritesBlock 3 m₁ ∧ ∃ d₂ d₁ d₀ : UInt8,
        m₁.memory.block m.processor.i.toNat 3 = [d₂, d₁, d₀] ∧
        d₂.toNat ≤ 9 ∧ d₁.toNat ≤ 9 ∧ d₀.toNat ≤ 9 ∧
        100 * d₂.toNat + 10 * d₁.toNat + d₀.toNat = (m.reg x).toNat ∧
        ∀ (m₂ : Machine) (w₂ : UInt16), m₂.memory = m₁.memory → m₂.processor.i = m₁.processor.i →
          (Instruction.restore 2).HasDigits w₂ →
          ∃ m₃, m₂.obey w₂ = .ok (.executed, m₃) ∧
            m₃.memory = m₁.memory ∧ m₃.processor.i = m.processor.i ∧
            m₃.reg 0 = d₂ ∧ m₃.reg 1 = d₁ ∧ m₃.reg 2 = d₀ ∧
            ∀ r, 2 < r → m₃.reg r = m₂.reg r) :=
  ⟨step_eq_obey, restore_after_store, store_after_restore,
    fun hdigits => ⟨exists_obey_decimal_iff hdigits, fun _ _ => restore_after_decimal hdigits⟩⟩

/-- A machine at the word `FF55`, with its index at that word and a flag of 7. -/
def atOwnDump : Machine := ((atWord 0xFF55).setIndex 0x200).setReg Registers.flag 7

/-- All sixteen registers are stored over the word itself, and a fresh processor with the same index
loads them back, the flag among them. -/
theorem dumps_round_trip_atOwnDump : ∃ m₁ m₃,
    atOwnDump.step = .ok (.executed, m₁) ∧
    (m₁.resetProcessor.setIndex 0x200).obey 0xFF65 = .ok (.executed, m₃) ∧
    m₃.reg Registers.flag = 7 := by
  have hw : atOwnDump.nextWord? = some 0xFF55 := nextWord?_atWord 0xFF55
  obtain ⟨hstep, hstore, -, -⟩ := dumps_round_trip atOwnDump Registers.flag 0xFF55
  obtain ⟨m₁, hm₁, hwrites, hback⟩ := hstore (by decide) ⟨by decide, by decide, by decide⟩
  obtain ⟨m₃, hm₃, -, -, hregisters⟩ := hback (m₁.resetProcessor.setIndex 0x200) 0xFF65 rfl
    hwrites.index.symm ⟨by decide, by decide, by decide⟩
  exact ⟨m₁, m₃, (hstep rfl hw).trans hm₁, hm₃, (hregisters _).trans (if_pos (Nat.le_refl _))⟩

end Machine

end Chip8
