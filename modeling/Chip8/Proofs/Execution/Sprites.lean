import Chip8.Proofs.Display.Drawing
import Chip8.Proofs.Execution.Footprint

/-!
# Sprites of a program

The words `Dxyn` draw the `n` bytes from the index on, with the upper left corner at the place that
the two registers hold.  The collision goes into the flag after the registers have been read, so a
register that is the flag itself gives its old value as a coordinate.

* `Machine.sprite`: the bytes that a word draws, as numbers.
* `step_draw`: the machine after a step that draws.
* `sprites_toggle_a_torus`: **a sprite toggles the pixels of a torus, each once for every set bit
  that falls on it, and the words `Dxyn` do so with the bytes from the index on.**
-/

namespace Chip8

theorem Display.blit_toNat (d : Display) (x y : Int) (bytes : List UInt8) :
    d.blit x y (bytes.map fun b => (b.toNat : Int)) = d.draw x y bytes := by
  rw [blit, List.map_map]
  congr 1
  exact (List.map_congr_left fun b _ => Word.ofInt_toNat b).trans (List.map_id _)

namespace Machine

variable {m : Machine} {w : UInt16}

/-- The bytes from the index on, as numbers. -/
def sprite (m : Machine) (length : Nat) : List Int :=
  (List.range length).map fun k => ((m.memory.byteAt (m.processor.i.toNat + k)).toNat : Int)

/-- What the next word draws, if it is of the shape `Dxyn`. -/
def drawn (m : Machine) (w : UInt16) : Display × Bool :=
  m.display.blit (m.reg (Word.x w)).toNat (m.reg (Word.y w)).toNat (m.sprite (w.toNat % 16))

theorem step_draw (hwait : m.processor.waiting = none) (hw : m.nextWord? = some w)
    (hgroup : w.toNat / 4096 = 0xD) (hrange : m.processor.i.toNat + w.toNat % 16 ≤ 4096) :
    m.step =
      .ok (.executed, { m.advance with display := (m.drawn w).1 }.setFlag (m.drawn w).2) := by
  have hdrawn : m.drawn w = m.display.draw (m.reg (Word.x w)).toNat (m.reg (Word.y w)).toNat
      (m.memory.slice m.processor.i.toNat (m.processor.i.toNat + w.toNat % 16)) := by
    rw [m.memory.slice_eq_block _ hrange, Nat.add_sub_cancel_left, ← Display.blit_toNat,
      Memory.block, List.map_map]
    rfl
  have hrule := Executes.draw (m := m.advance) (Word.x w) (Word.y w) (Word.n w) hrange rfl hdrawn
  exact step_of_hasDigits hwait hw hrule ⟨hgroup, rfl, rfl, rfl⟩

theorem step_draw_past_end (hwait : m.processor.waiting = none) (hw : m.nextWord? = some w)
    (hgroup : w.toNat / 4096 = 0xD) (hrange : 4096 < m.processor.i.toNat + w.toNat % 16) :
    m.step = .error ⟨.memoryOutOfRange m.processor.i.toNat (w.toNat % 16 : Nat),
      some m.processor.pc.toNat, some w.toNat⟩ := by
  have hlength : (Instruction.decode w).blockLength? = some (w.toNat % 16) := by
    rw [Instruction.blockLength?_decode, Word.blockLength?, if_pos hgroup]
  exact step_of_refuses hwait hw (.block (m := m.advance) hlength hrange)

/-- **Sprites toggle the pixels of a torus.**  A pixel ends lit when it was lit or an odd number of
set bits fall on it, but not both; a sprite of at most 32 rows collides exactly where one of its
bits falls on a lit pixel.  The words `Dxyn` draw in this way at the place that the registers hold
before the step, or fault and draw nothing if the bytes reach beyond the end of memory. -/
theorem sprites_toggle_a_torus :
    (∀ (d : Display) (x y : Int) (rows : List Int) (px : Fin 64) (py : Fin 32),
      (d.blit x y rows).1.lit px py =
        (d.lit px py ^^ decide (Odd (Display.bitsOn x y rows px py).card))) ∧
    (∀ (d : Display) (x y : Int) (rows : List Int), rows.length ≤ 32 →
      ((d.blit x y rows).2 = true ↔ ∃ (px : Fin 64) (py : Fin 32),
        (Display.bitsOn x y rows px py).Nonempty ∧ d.lit px py = true)) ∧
    (∀ (m : Machine) (w : UInt16), m.processor.waiting = none → m.nextWord? = some w →
      w.toNat / 4096 = 0xD →
      (m.processor.i.toNat + w.toNat % 16 ≤ 4096 → ∃ m' collision,
        m.step = .ok (.executed, m') ∧
        m.display.blit (m.reg (Word.x w)).toNat (m.reg (Word.y w)).toNat
          (m.sprite (w.toNat % 16)) = (m'.display, collision) ∧
        m'.reg Registers.flag = (if collision then 1 else 0) ∧
        ∀ r, r ≠ Registers.flag → m'.reg r = m.reg r) ∧
      (4096 < m.processor.i.toNat + w.toNat % 16 →
        m.step = .error ⟨.memoryOutOfRange m.processor.i.toNat (w.toNat % 16 : Nat),
          some m.processor.pc.toNat, some w.toNat⟩)) := by
  refine ⟨Display.lit_blit, fun d x y rows => Display.collides_iff x y, ?_⟩
  intro m w hwait hw hgroup
  refine ⟨fun hrange => ?_, step_draw_past_end hwait hw hgroup⟩
  refine ⟨_, _, step_draw hwait hw hgroup hrange, rfl, ?_, fun r hr => ?_⟩
  · exact (reg_setReg { m.advance with display := (m.drawn w).1 } Registers.flag _ _).trans
      (if_pos rfl)
  · exact (reg_setReg { m.advance with display := (m.drawn w).1 } Registers.flag r _).trans
      (if_neg hr)

/-- A machine at the word `DF01`, which is also what its index points at; the flag holds the column
of the place to draw at, and the pixel one column right of the left edge is lit. -/
def atOwnWord : Machine :=
  { ((atWord 0xDF01).setIndex 0x200).setReg Registers.flag 62 with
    display := (Display.blank.blit 1 0 [0x80]).1 }

/-- The byte `DF` is drawn around the right edge and collides. -/
theorem sprites_toggle_a_torus_atOwnWord : ∃ m',
    atOwnWord.step = .ok (.executed, m') ∧ m'.reg Registers.flag = 1 ∧
      m'.display.lit 1 0 = false := by
  obtain ⟨hlit, hcollides, hdraw⟩ := sprites_toggle_a_torus
  have hw : atOwnWord.nextWord? = some 0xDF01 := nextWord?_atWord 0xDF01
  have hbyte : atOwnWord.memory.byteAt 0x200 = 0xDF :=
    (Memory.byteAt_overwrite Memory.fresh 0x200 (Word.bytes 0xDF01) 0x200 (by decide)).trans rfl
  have hsprite : atOwnWord.sprite 1 = [0xDF] := congrArg (fun b : UInt8 => [(b.toNat : Int)]) hbyte
  have hdark : ∀ px py, Display.blank.lit px py = false := fun _ _ => Vector.getElem_replicate _
  have hbefore : atOwnWord.display.lit 1 0 = true := by
    refine (hlit Display.blank 1 0 [0x80] 1 0).trans ?_
    rw [hdark]
    decide
  have hbits : (Display.bitsOn 62 0 [0xDF] 1 0).Nonempty := ⟨(0, 3), by decide⟩
  obtain ⟨m', collision, hstep, hdrawn, hflag, -⟩ := (hdraw _ _ rfl hw (by decide)).1 (by decide)
  have hblit : atOwnWord.display.blit 62 0 [0xDF] = (m'.display, collision) := hsprite ▸ hdrawn
  have hcollision : collision = true := by
    have h := (hcollides atOwnWord.display 62 0 [0xDF] (by decide)).mpr ⟨1, 0, hbits, hbefore⟩
    rwa [hblit] at h
  have hafter := hlit atOwnWord.display 62 0 [0xDF] 1 0
  rw [hblit, hbefore] at hafter
  exact ⟨m', hstep, by rw [hflag, hcollision]; rfl, hafter.trans (by decide)⟩

end Machine

end Chip8
