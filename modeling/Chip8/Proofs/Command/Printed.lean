import Chip8.Command.Run
import Chip8.Proofs.Command.HeldKeys
import Chip8.Proofs.Command.Sessions
import Chip8.Proofs.Display.Views
import Chip8.Proofs.Text.Characters

/-!
# What a run prints

A run shows its display by 32 lines of marks and its registers by numerals, so that none of it is
taken for an order to a terminal.  All that it says before is about steps: about words without a
meaning, or about the fault that ends it.  A run whose emulator is not halted to begin with ends in
no other way.

* `Display.lines`, `line_shape`: **a display is shown by 32 lines of 64 marks.**
* `lacks_plainText`, `lacks_registerText`: what is shown is plain.
* `Emulator.RunsOn`: how a reply ends that comes from an emulator that is not halted.
* `runsOn_runHolding`: **frames with held keys fail only if a step faults**, and say nothing but of
  steps.
* `shownText_eq_empty`, `lacks_shownText`: what a quiet host sees of a log.
-/

namespace Chip8

open Text

/-! ### What a display shows -/

namespace Display

/-- The lines that show a display, from top to bottom. -/
def lines (d : Display) : List String :=
  d.rows.map fun row => String.join (row.map fun lit => if lit then "#" else ".")

theorem plainText_eq (d : Display) : d.plainText = "\n".intercalate d.lines := rfl

theorem length_lines (d : Display) : d.lines.length = 32 := by
  rw [lines, List.length_map, rows, List.length_ofFn]

theorem toList_line (row : List Bool) :
    (String.join (row.map fun lit => if lit then "#" else ".")).toList = marked '#' '.' row :=
  toList_join_marks '#' '.' row

theorem line_shape {d : Display} {line : String} (h : line ∈ d.lines) :
    line.length = 64 ∧ ∀ c ∈ line.toList, c = '#' ∨ c = '.' := by
  obtain ⟨row, hrow, rfl⟩ := List.mem_map.mp h
  rw [rows, List.mem_ofFn] at hrow
  obtain ⟨y, rfl⟩ := hrow
  constructor
  · rw [← String.length_toList, toList_line, marked, List.length_map, length_row]
  · intro c hc
    rw [toList_line] at hc
    obtain ⟨lit, -, rfl⟩ := List.mem_map.mp hc
    cases lit with
    | false => exact .inr rfl
    | true => exact .inl rfl

theorem lacks_plainText (d : Display) : Lacks d.plainText escape := by
  have hbreak : Lacks "\n" escape := by decide
  rw [plainText_eq]
  refine hbreak.intercalate fun line hline hescape => ?_
  rcases (line_shape hline).2 _ hescape with h | h
  · exact absurd h (by decide)
  · exact absurd h (by decide)

end Display

namespace Command.Run

theorem lacks_registerText (m : Machine) : Lacks (registerText m) escape := by
  have hnumeral : escape ∉ Hex.alphabet := by decide
  have hblank : Lacks " " escape := by decide
  have hname : Lacks "V" escape := by decide
  have haddress : ∀ n, Lacks (Hex.address n) escape := fun n =>
    Lacks.append (by decide) (lacks_padded hnumeral 4 n)
  have hregisters : Lacks (" ".intercalate ((List.finRange 16).map fun (x : Register) =>
      "V" ++ Hex.padded 1 x.val ++ "=" ++ Hex.padded 2 (m.processor.v.get x).toNat)) escape := by
    refine hblank.intercalate fun text htext => ?_
    obtain ⟨x, -, rfl⟩ := List.mem_map.mp htext
    exact hname.append (lacks_padded hnumeral 1 _)
      |>.append (by decide)
      |>.append (lacks_padded hnumeral 2 _)
  exact hregisters.append (by decide)
    |>.append (by decide) |>.append (haddress _)
    |>.append (by decide) |>.append (haddress _)
    |>.append (by decide) |>.append (lacks_toString_natCast hnumeral _)
    |>.append (by decide) |>.append (lacks_toString hnumeral _)
    |>.append (by decide) |>.append (lacks_toString hnumeral _)

end Command.Run

/-! ### Runs from an emulator that is not halted -/

namespace Machine

theorem lacks_of_mem_remarks {m : Machine} {o : Outcome} {line : LogLine}
    (h : line ∈ m.remarks o) : Lacks (line.render false) 'k' := by
  unfold remarks at h
  split at h
  · next w hw =>
    rw [List.mem_singleton] at h
    have hnumeral : 'k' ∉ Hex.alphabet := by decide
    have hlabel : Lacks (LogLevel.warning.label ++ ": ") 'k' := by decide
    have hopcode : Lacks "Ignoring unimplemented opcode " 'k' := by decide +kernel
    have hmark : Lacks "$" 'k' := by decide
    have hmessage := hopcode.append (lacks_padded hnumeral 4 w.toNat)
      |>.append (show Lacks " at " 'k' by decide)
      |>.append (hmark.append (lacks_padded hnumeral 4 m.processor.pc.toNat))
    rw [h, LogLine.render, if_neg Bool.false_ne_true]
    exact hlabel.append hmessage
  · exact absurd h List.not_mem_nil

end Machine

namespace Emulator

variable {α β : Type} {e : Emulator}

/-- The reply of an emulator that was not halted.  If it answers, the emulator is still not halted,
and all it has said is about steps; if it fails, then because a step has faulted. -/
structure RunsOn (r : Reply Error α) : Prop where
  halt_eq : ∀ a, r.answer = .ok a → r.emulator.halt = none
  remarks : ∀ a, r.answer = .ok a → ∀ line ∈ r.log, ∃ m o, line ∈ Machine.remarks m o
  fault : ∀ err, r.answer = .error err → ∃ f, err = .execution f

theorem RunsOn.failing (f : Fault) (e : Emulator) (log : List LogLine) :
    RunsOn (⟨.error (.execution f), e, log⟩ : Reply Error α) where
  halt_eq := fun _ h => nomatch h
  remarks := fun _ h => nomatch h
  fault := fun _ h => ⟨f, (Except.error.inj h).symm⟩

theorem RunsOn.andThen {r : Reply Error α} {next : α → Emulator → Reply Error β}
    (hr : RunsOn r) (hnext : ∀ a e, e.halt = none → RunsOn (next a e)) :
    RunsOn (r.andThen next) := by
  cases hanswer : r.answer with
  | error err =>
    obtain ⟨f, rfl⟩ := hr.fault err hanswer
    rw [Reply.andThen_of_error hanswer]
    exact .failing f r.emulator r.log
  | ok a =>
    have hlater := hnext a r.emulator (hr.halt_eq a hanswer)
    rw [Reply.andThen_of_ok hanswer]
    refine ⟨hlater.halt_eq, fun b hb line hline => ?_, hlater.fault⟩
    rcases List.mem_append.mp hline with hfirst | hlast
    · exact hr.remarks a hanswer line hfirst
    · exact hlater.remarks b hb line hlast

theorem RunsOn.answering (hhalt : e.halt = none) (a : α) : RunsOn (e.answering a) where
  halt_eq := fun _ _ => hhalt
  remarks := fun _ _ _ hline => nomatch hline
  fault := fun _ herr => nomatch herr

theorem RunsOn.map {r : Reply Error α} (hr : RunsOn r) (g : α → β) : RunsOn (r.map g) := by
  rw [map_eq_andThen]
  exact hr.andThen fun a e he => .answering he (g a)

theorem runsOn_step (hhalt : e.halt = none) : RunsOn e.step := by
  cases hstep : e.machine.step with
  | error f =>
    rw [step_of_fault hhalt hstep]
    exact .failing f _ _
  | ok result =>
    rw [step_of_ok hhalt hstep]
    exact ⟨fun _ _ => hhalt, fun _ _ line hline => ⟨e.machine, result.1, hline⟩,
      fun _ herr => nomatch herr⟩

theorem runsOn_workOff (cycles : Nat) (hhalt : e.halt = none) : RunsOn (workOff cycles e) := by
  induction cycles generalizing e with
  | zero => exact .answering hhalt 0
  | succ cycles ih =>
    rw [workOff]
    split
    · exact .answering hhalt 0
    · exact (runsOn_step hhalt).andThen fun event e' he' => (ih he').map _

theorem runsOn_framesHolding (keys : List Key) (count : Nat) (hhalt : e.halt = none) :
    RunsOn (framesHolding keys count e) := by
  induction count generalizing e with
  | zero => exact .answering hhalt 0
  | succ count ih =>
    have hready : (e.readied keys).halt = none := by
      rw [readied]
      split
      · rwa [pressAnew_eq_hearing]
      · exact hhalt
    rw [framesHolding_succ]
    exact (runsOn_workOff (e := (e.readied keys).course [.tick, .beginFrame]) _ hready).andThen
      fun done e' he' => (ih he').map _

/-- **Frames with held keys, from an emulator that is not halted, fail only if a step faults.** -/
theorem runsOn_runHolding (keys : List Key) (count : Nat) (hhalt : e.halt = none) :
    RunsOn (e.runHolding keys count) := by
  have hheld : (e.holdAll keys).halt = none := by rwa [holdAll_eq_hearing]
  exact runsOn_framesHolding keys count hheld

end Emulator

namespace Command

variable {log : List LogLine}

/-- A quiet host sees nothing of a log without warnings and errors. -/
theorem Session.shownText_eq_empty (h : ∀ line ∈ log, line.level = .debug ∨ line.level = .info) :
    Session.shownText false log = "" := by
  have hnone : log.filter (·.isShown false) = [] := by
    rw [List.filter_eq_nil_iff]
    intro line hline
    rcases h line hline with hlevel | hlevel
    · simp [LogLine.isShown, hlevel]
    · simp [LogLine.isShown, hlevel]
  rw [Session.shownText, hnone]
  rfl

theorem Session.lacks_shownText (h : ∀ line ∈ log, ∃ m o, line ∈ Machine.remarks m o) :
    Lacks (Session.shownText false log) 'k' := by
  refine Lacks.join fun text htext => ?_
  obtain ⟨line, hline, rfl⟩ := List.mem_map.mp htext
  obtain ⟨m, o, hremark⟩ := h line (List.mem_filter.mp hline).1
  exact (Machine.lacks_of_mem_remarks hremark).append (by decide)

end Command

namespace Config

theorem level_of_mem_setting {env : Environment} {name : String} {line : LogLine}
    (h : line ∈ (setting env name).2) : line.level = .debug := by
  rw [setting] at h
  split at h
  · cases h
  · split at h
    · cases h
    · split at h
      · cases h
      · obtain rfl := List.mem_singleton.mp h
        rfl

/-- What is said of an environment is for verbose hosts only. -/
theorem level_of_mem_ofEnvironment {env : Environment} {line : LogLine}
    (h : line ∈ (ofEnvironment env).2) : line.level = .debug := by
  have hsettings : ∀ line ∈ (setting env cyclesVariable).2 ++ (setting env rateVariable).2 ++
      (setting env seedVariable).2, line.level = .debug := by
    intro line hline
    rcases List.mem_append.mp hline with hline | hline
    · rcases List.mem_append.mp hline with hline | hline
      · exact level_of_mem_setting hline
      · exact level_of_mem_setting hline
    · exact level_of_mem_setting hline
  rw [ofEnvironment] at h
  simp only at h
  split at h
  · exact hsettings line h
  · rcases List.mem_append.mp h with h | h
    · exact hsettings line h
    · obtain rfl := List.mem_singleton.mp h
      rfl

end Config

end Chip8
