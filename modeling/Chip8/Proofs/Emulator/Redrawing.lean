import Chip8.Proofs.Emulator.Moves

/-!
# When to redraw

A host draws the pixels, takes the mark off the display that says that it is stale, and then looks
at nothing but the mark.  It can: whatever reaches a pixel puts the mark on, and only the host takes
it off.  That is so at every moment, also between two steps of a run that the host does not see.

* `Display.Since d d'`: what a host that knows `d` may conclude about `d'` from the mark.
* `Executes.since`, `since_happen_step`: instructions and steps, those that fault included.
* `since_course`: **moves that do not take the mark off put it on whenever they change a pixel.**
* `unmarked_display_unchanged`: the same for the operations of a host.
-/

namespace Chip8

namespace Display

/-- A display that comes later than another one and has kept the mark on: if it is not stale, then
it shows the same pixels. -/
structure Since (d d' : Display) : Prop where
  cells_eq : d'.stale = false → d'.cells = d.cells
  stale : d.stale = true → d'.stale = true

namespace Since

variable {d d' d'' : Display}

theorem refl (d : Display) : Since d d := ⟨fun _ => rfl, id⟩

theorem of_stale (h : d'.stale = true) : Since d d' :=
  ⟨fun hfresh => Bool.noConfusion (h.symm.trans hfresh), fun _ => h⟩

theorem trans (h : Since d d') (h' : Since d' d'') : Since d d'' := by
  refine ⟨fun hfresh => ?_, fun hstale => h'.stale (h.stale hstale)⟩
  -- the mark has not been on in between, for it would still be on
  have hbetween : d'.stale = false := by
    rw [← Bool.not_eq_true]
    exact fun hstale => Bool.noConfusion (hfresh.symm.trans (h'.stale hstale))
  rw [h'.cells_eq hfresh, h.cells_eq hbetween]

end Since

end Display

namespace Machine

variable {m m' : Machine} {i : Instruction} {o : Outcome}

open Display

theorem Executes.since (h : Executes m i o m') : Since m.display m'.display := by
  cases h with
  | clearScreen => exact .of_stale rfl
  | draw x y rows hrange hsprite hdrawn =>
    subst hdrawn
    exact .of_stale rfl
  | _ => exact .refl _

theorem display_resume (m : Machine) (x : Register) : (m.resume x).2.display = m.display := by
  rw [resume]
  split
  · rfl
  · rfl

/-- A step puts the mark on if it changes a pixel, and a step that faults leaves both alone. -/
theorem since_happen_step (m : Machine) : Since m.display (m.happen .step).display := by
  cases h : m.step with
  | error f =>
    rw [happen_step_of_error h]
    exact .refl _
  | ok result =>
    rw [happen_step_of_ok h]
    rcases step_eq_ok_iff.mp h with ⟨x, -, hresume⟩ | ⟨-, w, -, hrule⟩
    · have hsame := m.display_resume x
      rw [hresume] at hsame
      rw [hsame]
      exact .refl _
    · exact hrule.since

end Machine

namespace Emulator

variable {e : Emulator} {move : Move} {moves : List Move} {operations : List Operation}

open Display

theorem since_move (h : move ≠ .markRefreshed) :
    Since e.machine.display (e.move move).machine.display := by
  cases move with
  | step =>
    rw [Emulator.move, machine_step]
    split
    · exact .refl _
    · exact e.machine.since_happen_step
  | stepProcessor => exact e.machine.since_happen_step
  | reset => exact .of_stale rfl
  | markRefreshed => exact absurd rfl h
  | _ => exact .refl _

/-- **Moves that do not take the mark off put it on whenever they change a pixel.** -/
theorem since_course (h : .markRefreshed ∉ moves) :
    Since e.machine.display (e.course moves).machine.display := by
  induction moves generalizing e with
  | nil => exact .refl _
  | cons move moves ih =>
    rw [List.mem_cons, not_or] at h
    exact (since_move (Ne.symm h.1)).trans (ih h.2)

theorem IsDriven.ne_markRefreshed (h : IsDriven move) : .markRefreshed ≠ move := by
  cases h with
  | step | tick | beginFrame | carry => exact fun h => Move.noConfusion h

theorem markRefreshed_notMem_movesAmong (e : Emulator) (h : .markRefreshed ∉ operations) :
    .markRefreshed ∉ e.movesAmong operations := by
  refine fun hmem => forall_mem_movesAmong (Q := (.markRefreshed ≠ ·))
    (fun operation hoperation e => ?_) _ hmem rfl
  refine forall_mem_movesOf (fun _ hdriven => hdriven.ne_markRefreshed) ?_ ?_ ?_ ?_ ?_
  · exact fun _ _ hmove => Move.noConfusion hmove
  · exact fun _ _ hmove => Move.noConfusion hmove
  · exact fun _ _ hmove => Move.noConfusion hmove
  · exact fun _ hmove => Move.noConfusion hmove
  · rintro rfl
    exact absurd hoperation h

/-- **A host that redraws when the mark is on shows what is there.**  Let it take the mark off, and
then do anything but that.  As long as the mark is off, after all operations and after each move
that they make, the pixels are those of the moment when it was taken off.  And an operation that
begins with the mark on has it on after each of its moves, unless it takes the mark off itself. -/
theorem unmarked_display_unchanged :
    (∀ (e shown : Emulator) (operations : List Operation),
      shown = (e.perform .markRefreshed).emulator → .markRefreshed ∉ operations →
      shown.machine.display.stale = false ∧
      (∀ moves, moves <+: shown.movesAmong operations →
        (shown.course moves).machine.display.stale = false →
        (shown.course moves).machine.display.cells = e.machine.display.cells) ∧
      ((shown.after operations).machine.display.stale = false →
        (shown.after operations).machine.display.cells = e.machine.display.cells)) ∧
    (∀ (e : Emulator) (operation : Operation), operation ≠ .markRefreshed →
      e.machine.display.stale = true →
      (∀ moves, moves <+: e.movesOf operation → (e.course moves).machine.display.stale = true) ∧
      (e.perform operation).emulator.machine.display.stale = true) := by
  constructor
  · rintro e shown operations rfl hunmarked
    have hmoves := (e.perform .markRefreshed).emulator.markRefreshed_notMem_movesAmong hunmarked
    refine ⟨rfl, fun moves hpart => ?_, ?_⟩
    · exact (since_course fun hmem => hmoves (hpart.mem hmem)).cells_eq
    · rw [after_eq_course]
      exact (since_course hmoves).cells_eq
  · intro e operation hne hstale
    have hother : .markRefreshed ∉ [operation] := by rwa [List.mem_singleton, eq_comm]
    have hmoves := e.markRefreshed_notMem_movesAmong hother
    rw [movesAmong, movesAmong, List.append_nil] at hmoves
    refine ⟨fun moves hpart => ?_, ?_⟩
    · exact (since_course fun hmem => hmoves (hpart.mem hmem)).stale hstale
    · rw [← course_movesOf]
      exact (since_course hmoves).stale hstale

/-- An emulator at the word `6005` that shows some pixels. -/
def showing (e : Emulator) (d : Display) : Emulator :=
  e.withMachine { Machine.atWord 0x6005 with display := d }

/-- A row of pixels stays while a register is loaded and the timers tick, and before it was shown
the mark stayed on. -/
theorem unmarked_display_unchanged_showing :
    ∃ e shown : Emulator, shown = (e.perform .markRefreshed).emulator ∧
      .markRefreshed ∉ [Operation.step, .tick] ∧
      (shown.after [.step, .tick]).machine.display.stale = false ∧
      (shown.after [.step, .tick]).machine.display.cells = (blank.blit 60 31 [0xFF]).1.cells ∧
      [Move.step] <+: shown.movesAmong [.step, .tick] ∧
      (shown.course [.step]).machine.display.cells = (blank.blit 60 31 [0xFF]).1.cells ∧
      e.machine.display.stale = true ∧ (e.perform .step).emulator.machine.display.stale = true := by
  obtain ⟨hshown, hmark⟩ := unmarked_display_unchanged
  have hdrawn (d : Display) : (d.blit 60 31 [0xFF]).1.stale = true := rfl
  have hstale := hdrawn blank
  have hhalt : (fresh {} 0).halt = none := rfl
  generalize (blank.blit 60 31 [0xFF]).1 = row at hstale ⊢
  generalize fresh {} 0 = e at hhalt
  have hperform (e : Emulator) : (e.perform .step).emulator = e.step.emulator := rfl
  have htick (e : Emulator) :
      (e.after [.step, .tick]).machine.display = (e.perform .step).emulator.machine.display := rfl
  have hmove (e : Emulator) : e.course [.step] = (e.perform .step).emulator := rfl
  have hpart (e : Emulator) : [Move.step] <+: e.movesAmong [.step, .tick] :=
    List.prefix_append [Move.step] _
  have hmarked (m : Machine) (d : Display) :
      e.withMachine { m with display := d.markRefreshed } =
        ((e.withMachine { m with display := d }).perform .markRefreshed).emulator := rfl
  have hshowing : e.showing row.markRefreshed = ((e.showing row).perform .markRefreshed).emulator :=
    hmarked (Machine.atWord 0x6005) row
  have hkept (m : Machine) : (e.withMachine m).halt = none := hhalt
  have hrunning (d : Display) : (e.showing d).halt = none := hkept _
  have hstep (d : Display) : ((e.showing d).perform .step).emulator.machine.display = d := by
    have hexecutes : (e.showing d).machine.step =
        .ok (.executed, (e.showing d).machine.advance.setReg 0 0x05) :=
      Machine.step_of_hasDigits rfl (Machine.nextWord?_atWord 0x6005) (.loadByte 0 0x05)
        ⟨rfl, rfl, rfl⟩
    rw [hperform, step_of_ok (hrunning d) hexecutes]
    rfl
  have hfresh : ((e.showing row.markRefreshed).after [.step, .tick]).machine.display.stale = false := by
    rw [htick, hstep]
    rfl
  have hfresh' : ((e.showing row.markRefreshed).course [.step]).machine.display.stale = false := by
    rw [hmove, hstep]
    rfl
  obtain ⟨-, hbetween, hafter⟩ :=
    hshown (e.showing row) (e.showing row.markRefreshed) [.step, .tick] hshowing (by simp)
  exact ⟨e.showing row, e.showing row.markRefreshed, hshowing, by simp, hfresh, hafter hfresh,
    hpart _, hbetween [.step] (hpart _) hfresh', hstale,
    (hmark (e.showing row) .step (by simp) hstale).2⟩

end Emulator

end Chip8
