import Chip8.Proofs.Emulator.ColdStart
import Chip8.Proofs.Emulator.Inputs
import Chip8.Proofs.Emulator.Moves

/-!
# The stream of random bytes

A seed fixes a stream of bytes, and a program takes them one by one: each word `Cxkk` that is
carried out takes the next byte of the stream, whatever its mask and its register.  Nothing else
takes any.  So how far a run has come in the stream is the number of words `Cxkk` in it, whatever
else there was: faults, waits, words without a meaning, and anything the host has done short of
starting over.

* `Twister.skip`, `Twister.draw`: the stream of a generator.
* `Emulator.draws`: the words `Cxkk` that are carried out in a row of moves, and what they store.
* `takes_happen_step`, `takes_move`: a step or a move takes the next byte, or leaves the stream
  alone.
* `random_stream`: **since the start, the draws of a run are those of the stream, in order.**
-/

namespace Chip8

/-! ### Streams -/

namespace Twister

/-- The generator after so many bytes. -/
def skip : Nat → Twister → Twister
  | 0, t => t
  | k + 1, t => skip k t.byte.2

/-- The byte that comes after so many others. -/
def draw (k : Nat) (t : Twister) : UInt8 := (t.skip k).byte.1

end Twister

/-- A word `Cxkk` that was carried out: its fields, and what its register holds afterwards. -/
structure Draw where
  register : Register
  mask : UInt8
  stored : UInt8
  deriving DecidableEq, Repr

/-- What a draw does to a generator: it takes the next byte and stores the bits of its mask.  Where
there is no draw, the generator stays as it is. -/
inductive Takes (t : Twister) : Option Draw → Twister → Prop
  | nothing : Takes t none t
  | byte {d : Draw} (hstored : d.stored = t.byte.1 &&& d.mask) : Takes t (some d) t.byte.2

/-! ### Steps -/

namespace Machine

variable {m : Machine} {w : UInt16}

/-- The draw that the next step makes, if it is one. -/
def draw? (m : Machine) : Option Draw :=
  match m.dueWord? with
  | none => none
  | some w =>
    if w.toNat / 4096 = 0xC then
      some ⟨Word.x w, Word.kk w, (m.happen .step).reg (Word.x w)⟩
    else none

/-- A step at a word `Cxkk` never faults, takes a byte, and stores the bits of the mask. -/
theorem step_of_random (hwait : m.processor.waiting = none) (hw : m.nextWord? = some w)
    (hgroup : w.toNat / 4096 = 0xC) :
    m.step = .ok (.executed, { m.advance with random := m.random.byte.2 }.setReg (Word.x w)
      (m.random.byte.1 &&& Word.kk w)) := by
  have hdecode : Instruction.decode w = .random (Word.x w) (Word.kk w) :=
    Instruction.decode_eq_iff.mpr ⟨hgroup, rfl, rfl⟩
  refine step_of_executes hwait hw ?_
  rw [hdecode]
  exact .random _ _

theorem draw?_of_random (hwait : m.processor.waiting = none) (hw : m.nextWord? = some w)
    (hgroup : w.toNat / 4096 = 0xC) :
    m.draw? = some ⟨Word.x w, Word.kk w, (m.happen .step).reg (Word.x w)⟩ := by
  simp only [draw?, dueWord?_of_not_waiting hwait, hw, if_pos hgroup]

/-- **A step takes the next byte if it makes a draw, and none otherwise**, not even if it faults. -/
theorem takes_happen_step (m : Machine) : Takes m.random m.draw? (m.happen .step).random := by
  rcases m.happen_step_cases with ⟨hdue, hsame | ⟨x, key, hend⟩⟩ | ⟨w, hdue, hword⟩
  · rw [draw?, hdue, hsame]
    exact .nothing
  · rw [draw?, hdue, hend]
    exact .nothing
  · obtain ⟨hwait, hw⟩ := dueWord?_eq_some_iff.mp hdue
    by_cases hgroup : w.toNat / 4096 = 0xC
    · rw [draw?_of_random hwait hw hgroup, happen_step_of_ok (step_of_random hwait hw hgroup)]
      refine .byte ?_
      rw [reg_setReg, if_pos rfl]
    · have hnone : m.draw? = none := by simp only [draw?, hdue, if_neg hgroup]
      rw [hnone]
      rcases hword with ⟨o, hrule⟩ | ⟨-, hsame⟩
      · have hrandom : (m.happen .step).random = m.random := by
          by_contra hne
          exact hgroup (hrule.random_changes (Instruction.hasDigits_decode w) hne)
        rw [hrandom]
        exact .nothing
      · rw [hsame]
        exact .nothing

end Machine

/-! ### Rows of moves -/

namespace Emulator

variable {e : Emulator} {moves : List Move}

/-- The draw that a move makes, if it makes one. -/
def draw? (e : Emulator) : Move → Option Draw
  | .step => if e.halt.isSome then none else e.machine.draw?
  | .stepProcessor => e.machine.draw?
  | _ => none

/-- The draws of some moves, in order. -/
def draws (e : Emulator) : List Move → List Draw
  | [] => []
  | move :: moves => (e.draw? move).toList ++ (e.move move).draws moves

theorem draws_write (e : Emulator) (address : Nat) (data : List UInt8) (moves : List Move) :
    e.draws (.write address data :: moves) = (e.move (.write address data)).draws moves := rfl

/-- **A move takes the next byte if it makes a draw, and none otherwise**, short of starting
over. -/
theorem takes_move (e : Emulator) {move : Move} (hmove : move.startsOver = false) :
    Takes e.machine.random (e.draw? move) (e.move move).machine.random := by
  cases move with
  | step =>
    rw [draw?, Emulator.move, machine_step]
    split
    · exact .nothing
    · exact e.machine.takes_happen_step
  | stepProcessor => exact e.machine.takes_happen_step
  | reset => cases hmove
  | _ => exact .nothing

/-- **The draws of a run are those of the stream that its generator has at the start**, and leave
the generator behind them. -/
theorem draws_eq_stream (hmoves : ∀ move ∈ moves, move.startsOver = false) :
    (e.course moves).machine.random = e.machine.random.skip (e.draws moves).length ∧
      ∀ k d, (e.draws moves)[k]? = some d → d.stored = e.machine.random.draw k &&& d.mask := by
  induction moves generalizing e with
  | nil =>
    refine ⟨rfl, ?_⟩
    intro k d hd
    cases hd
  | cons move moves ih =>
    rw [List.forall_mem_cons] at hmoves
    obtain ⟨hrandom, hstored⟩ := ih (e := e.move move) hmoves.2
    have htakes := e.takes_move hmoves.1
    rw [course_cons, hrandom, draws]
    generalize e.draw? move = drawn at htakes
    generalize (e.move move).machine.random = t at htakes hstored
    -- a move takes no byte or the first one, and then the later draws are one place on
    cases htakes with
    | nothing => exact ⟨rfl, hstored⟩
    | byte hfirst =>
      refine ⟨rfl, ?_⟩
      intro k d hd
      cases k with
      | zero =>
        cases hd
        exact hfirst
      | succ k => exact hstored k d hd

theorem random_of_start {config : Config} {seed : Int} (hseed : config.seed = some seed)
    (hstart : (∃ entropy, e = fresh config entropy) ∨
      ∃ (e₀ : Emulator) (again : Int), e₀.config = config ∧ e = e₀.reset again) :
    e.machine.random = Twister.seeded seed := by
  have hnew : ∃ entropy, e = fresh config entropy := by
    rcases hstart with hnew | ⟨e₀, again, rfl, rfl⟩
    · exact hnew
    · exact ⟨again, e₀.reset_eq_fresh again⟩
  obtain ⟨entropy, rfl⟩ := hnew
  rw [fresh, hseed]
  rfl

/-- **The stream of random bytes.**  With a seed in the settings, in any run since a start, the
`k`-th word `Cxkk` that is carried out stores the `k`-th byte of the stream of the seed, cut down to
the mask of that word.  Nothing else takes a byte, not even clearing the processor. -/
theorem random_stream (e : Emulator) (moves : List Move) {config : Config} {seed : Int}
    (hseed : config.seed = some seed)
    (hstart : (∃ entropy, e = fresh config entropy) ∨
      ∃ (e₀ : Emulator) (again : Int), e₀.config = config ∧ e = e₀.reset again)
    (hmoves : ∀ move ∈ moves, move.startsOver = false) :
    (∀ k d, (e.draws moves)[k]? = some d →
      d.stored = (Twister.seeded seed).draw k &&& d.mask) ∧
    (e.course moves).machine.random = (Twister.seeded seed).skip (e.draws moves).length ∧
    (∀ move : Move, move.startsOver = false → ((e.course moves).move move).machine.random =
      if ((e.course moves).draw? move).isSome then (e.course moves).machine.random.byte.2
      else (e.course moves).machine.random) ∧
    (∀ operations : List Operation,
      (∀ operation ∈ operations, operation.startsOver = false) →
      e.after operations = e.course (e.movesAmong operations) ∧
        ∀ move ∈ e.movesAmong operations, move.startsOver = false) := by
  obtain ⟨hrandom, hstored⟩ := draws_eq_stream (e := e) hmoves
  rw [random_of_start hseed hstart] at hrandom hstored
  refine ⟨hstored, hrandom, ?_, ?_⟩
  · intro move hmove
    have htakes := (e.course moves).takes_move hmove
    generalize (e.course moves).draw? move = drawn at htakes ⊢
    generalize ((e.course moves).move move).machine.random = t at htakes ⊢
    cases htakes with
    | nothing => rfl
    | byte hstored => rfl
  · intro operations hoperations
    exact ⟨e.after_eq_course operations, startsOver_movesAmong hoperations⟩

theorem draws_acrossProcessorReset {w : UInt16} (hhalt : e.halt = none)
    (hprocessor : e.machine.processor = Processor.fresh) (hw : e.machine.nextWord? = some w)
    (hgroup : w.toNat / 4096 = 0xC) :
    ∃ b₀ b₁ : UInt8, e.draws [.step, .resetProcessor, .tick, .step] =
      [⟨Word.x w, Word.kk w, b₀⟩, ⟨Word.x w, Word.kk w, b₁⟩] := by
  have hdraw (e' : Emulator) (hhalt' : e'.halt = none)
      (hwait : e'.machine.processor.waiting = none) (hw' : e'.machine.nextWord? = some w) :
      ∃ b, e'.draw? .step = some ⟨Word.x w, Word.kk w, b⟩ := by
    rw [draw?, hhalt', Option.isSome_none, if_neg Bool.false_ne_true]
    exact ⟨_, Machine.draw?_of_random hwait hw' hgroup⟩
  have hwait : e.machine.processor.waiting = none := by rw [hprocessor]; rfl
  have hstep := step_of_ok hhalt (Machine.step_of_random hwait hw hgroup)
  have hhalt₁ : e.step.emulator.halt = none := by
    rw [hstep]
    exact hhalt
  -- the first step leaves memory alone, and the counter is back where it was
  have hw₁ : e.step.emulator.machine.resetProcessor.tick.nextWord? = some w := by
    rw [Machine.nextWord?, hprocessor] at hw
    rw [hstep]
    exact hw
  obtain ⟨b₀, h₀⟩ := hdraw e hhalt hwait hw
  obtain ⟨b₁, h₁⟩ :=
    hdraw ((e.step.emulator.move .resetProcessor).move .tick) hhalt₁ rfl hw₁
  refine ⟨b₀, b₁, ?_⟩
  show (e.draw? .step).toList ++
    ((((e.step.emulator.move .resetProcessor).move .tick).draw? .step).toList ++ []) = _
  rw [h₀, h₁]
  rfl

/-- A program of the word `C0FF` draws the first byte of its seed, and draws the second one after
the processor has been cleared. -/
theorem random_stream_acrossProcessorReset : ∃ d₀ d₁ : Draw,
    (fresh { seed := some 0 } 0).draws
        [.write 0x200 (Word.bytes 0xC0FF), .step, .resetProcessor, .tick, .step] = [d₀, d₁] ∧
      d₀.stored = (Twister.seeded 0).draw 0 &&& 0xFF ∧
      d₁.stored = (Twister.seeded 0).draw 1 &&& 0xFF := by
  obtain ⟨b₀, b₁, hdraws⟩ := draws_acrossProcessorReset
    (e := (fresh { seed := some 0 } 0).withMachine (.atWord 0xC0FF))
    rfl rfl (Machine.nextWord?_atWord 0xC0FF) (by decide)
  rw [← move_write_fresh] at hdraws
  obtain ⟨hstored, -⟩ := random_stream (fresh { seed := some 0 } 0)
    [.write 0x200 (Word.bytes 0xC0FF), .step, .resetProcessor, .tick, .step]
    rfl (.inl ⟨0, rfl⟩) (by simp [Move.startsOver])
  rw [draws_write, hdraws] at hstored ⊢
  exact ⟨_, _, rfl, hstored 0 _ rfl, hstored 1 _ rfl⟩

end Emulator

end Chip8
