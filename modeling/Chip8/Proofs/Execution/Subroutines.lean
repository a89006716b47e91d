import Chip8.Proofs.Emulator.Operation
import Chip8.Proofs.Execution.Brackets
import Chip8.Proofs.Execution.Effects

/-!
# Calls and their returns

A program calls subroutines and returns from them, as deep as the stack allows.  Over a whole run
the stack is the list of the calls that are still open, each by the address after its word: no other
instruction, no fault, no wait and nothing that a host does reaches it.

A run is a row of moves.  In some the processor makes a step; in the others the host changes what it
likes, short of the processor: keys, timers, and even the program.

* `Machine.RunsWhile`, `Machine.RunsTo`: runs, with the calls and returns that they have made.
* `stackMove_of_step`: what a step does to the stack.
* `tracks_of_runsTo`: **the stack is the list of the open calls.**
* `within_of_runsWhile`: **what a call has put on the stack stays there until it is returned to.**
* `calls_bracketed`: **calls and returns are matched as brackets are.**
-/

namespace Chip8

open CallBracket

namespace Machine

variable {m₀ m m' : Machine} {o : Outcome} {w : UInt16} {history : List CallBracket}

/-! ### Runs -/

/-- The call or the return that the next step carries out, if it is one and succeeds. -/
def bracket? (m : Machine) : Option CallBracket :=
  match m.processor.waiting, m.nextWord? with
  | none, some w =>
    if w.toNat / 4096 = 0x2 then some (.call m.processor.pc.toNat)
    else if w = 0x00EE then some .ret else none
  | _, _ => none

/-- A run with its calls and returns, the oldest first.  The condition holds before every move.  A
step that faults changes nothing, and so is no move. -/
inductive RunsWhile (P : Machine → Prop) (m₀ : Machine) : List CallBracket → Machine → Prop
  | start : RunsWhile P m₀ [] m₀
  | step {history : List CallBracket} {m m' : Machine} {o : Outcome}
      (hrun : RunsWhile P m₀ history m) (hP : P m) (hstep : m.step = .ok (o, m')) :
      RunsWhile P m₀ (history ++ m.bracket?.toList) m'
  | host {history : List CallBracket} {m m' : Machine} (hrun : RunsWhile P m₀ history m) (hP : P m)
      (hprocessor : m'.processor = m.processor) : RunsWhile P m₀ history m'

/-- A run, whatever it comes through. -/
abbrev RunsTo (m₀ : Machine) (history : List CallBracket) (m : Machine) : Prop :=
  RunsWhile (fun _ => True) m₀ history m

/-! ### What a step does to the stack -/

theorem bracket?_of_call (hwait : m.processor.waiting = none) (hw : m.nextWord? = some w)
    (hgroup : w.toNat / 4096 = 0x2) : m.bracket? = some (.call m.processor.pc.toNat) := by
  simp only [bracket?, hwait, hw, hgroup, if_true]

theorem bracket?_of_ret (hwait : m.processor.waiting = none) (hw : m.nextWord? = some 0x00EE) :
    m.bracket? = some .ret := by
  simp only [bracket?, hwait, hw]
  rfl

theorem bracket?_of_quiet (hwait : m.processor.waiting = none) (hw : m.nextWord? = some w)
    (hcall : ∀ target, Instruction.decode w ≠ .call target) (hret : Instruction.decode w ≠ .ret) :
    m.bracket? = none := by
  have hgroup : ¬ w.toNat / 4096 = 0x2 := fun hgroup =>
    hcall _ (Instruction.decode_eq_call_iff.mpr ⟨hgroup, rfl⟩)
  have hword : ¬ w = 0x00EE := fun hword => hret (Instruction.decode_eq_ret_iff.mpr hword)
  simp only [bracket?, hwait, hw, if_neg hgroup, if_neg hword]

theorem bracket?_of_waiting {x : Register} (hwait : m.processor.waiting = some x) :
    m.bracket? = none := by
  simp only [bracket?, hwait]

/-- What a step does to the stack, by the bracket that it is. -/
inductive StackMove (m m' : Machine) : Option CallBracket → Prop
  | quiet (hstack : m'.processor.stack = m.processor.stack) : StackMove m m' none
  | call (hpc : m.processor.pc.toNat ≤ 0xFFE)
      (hroom : (m.processor.stack.depth : Int) < m.processor.stack.capacity)
      (hstack : m'.processor.stack = { m.processor.stack with
        entries := (m.processor.pc + 2) :: m.processor.stack.entries }) :
      StackMove m m' (some (.call m.processor.pc.toNat))
  | ret {rest : List UInt16} (hentries : m.processor.stack.entries = m'.processor.pc :: rest)
      (hstack : m'.processor.stack = { m.processor.stack with entries := rest }) :
      StackMove m m' (some .ret)

theorem stackMove_of_step (h : m.step = .ok (o, m')) : StackMove m m' m.bracket? := by
  rcases step_eq_ok_iff.mp h with ⟨x, hx, hresume⟩ | ⟨hwait, w, hw, hrule⟩
  · have hsame := resume_stack m x
    rw [hresume] at hsame
    rw [bracket?_of_waiting hx]
    exact .quiet hsame
  · -- only calls and returns touch the stack
    by_cases hret : Instruction.decode w = .ret
    · obtain rfl := Instruction.decode_eq_ret_iff.mp hret
      rw [bracket?_of_ret hwait hw]
      rw [hret] at hrule
      cases hrule with
      | ret hentries => exact .ret hentries rfl
    · by_cases hcall : ∃ target, Instruction.decode w = .call target
      · obtain ⟨target, hcall⟩ := hcall
        rw [bracket?_of_call hwait hw (Instruction.decode_eq_call_iff.mp hcall).1]
        rw [hcall] at hrule
        cases hrule with
        | call _ hroom => exact .call (nextWord?_eq_some_iff.mp hw).1 hroom rfl
      · have hcall' : ∀ target, Instruction.decode w ≠ .call target :=
          fun target htarget => hcall ⟨target, htarget⟩
        rw [bracket?_of_quiet hwait hw hcall' hret]
        exact .quiet (hrule.stack_eq hcall' hret)

/-! ### The stack over a run -/

/-- The stack holds where the open calls of a history return to. -/
structure Tracks (history : List CallBracket) (m : Machine) : Prop where
  isStandard : m.processor.stack.IsStandard
  oldestFirst_eq : m.processor.stack.oldestFirst.map UInt16.toNat = (openCalls history).map (· + 2)

/-- The top of the stack belongs to the latest call that is open, the rest to the older ones. -/
theorem Tracks.exists_latest (hm : Tracks history m) {address : UInt16} {rest : List UInt16}
    (hentries : m.processor.stack.entries = address :: rest) :
    ∃ older caller, openCalls history = older ++ [caller] ∧ address.toNat = caller + 2 ∧
      rest.reverse.map UInt16.toNat = older.map (· + 2) := by
  have hold := hm.oldestFirst_eq
  rw [CallStack.oldestFirst, hentries, List.reverse_cons, List.map_append] at hold
  obtain ⟨older, last, hopen, holder, hlast⟩ := List.map_eq_append_iff.mp hold.symm
  obtain ⟨caller, rfl, hcaller⟩ := List.map_eq_singleton_iff.mp hlast
  exact ⟨older, caller, hopen, hcaller.symm, holder.symm⟩

theorem Tracks.step (hm : Tracks history m) (h : m.step = .ok (o, m')) :
    Tracks (history ++ m.bracket?.toList) m' := by
  refine ⟨isStandard_of_step h hm.isStandard, ?_⟩
  have hmove := stackMove_of_step h
  generalize m.bracket? = bracket at hmove
  cases hmove with
  | quiet hstack =>
    rw [Option.toList_none, List.append_nil, hstack]
    exact hm.oldestFirst_eq
  | call hpc hroom hstack =>
    have hnext : (m.processor.pc + 2).toNat = m.processor.pc.toNat + 2 :=
      toNat_counter_add_two (by omega)
    rw [hstack, Option.toList_some, openCalls_append_call, List.map_append,
      ← hm.oldestFirst_eq, CallStack.oldestFirst, CallStack.oldestFirst, List.reverse_cons,
      List.map_append, List.map_singleton, hnext]
    rfl
  | @ret rest hentries hstack =>
    obtain ⟨older, caller, hopen, -, holder⟩ := hm.exists_latest hentries
    rw [hstack, Option.toList_some, openCalls_append_ret, hopen, List.dropLast_concat]
    exact holder

/-- **Over a whole run, the stack is the list of the open calls.** -/
theorem tracks_of_runsTo (hfresh : m₀.processor.stack = CallStack.empty CallStack.standardCapacity)
    (hrun : m₀.RunsTo history m) : Tracks history m := by
  induction hrun with
  | start =>
    refine ⟨⟨?_, ?_⟩, ?_⟩
    · rw [hfresh]
      rfl
    · rw [hfresh]
      exact Nat.zero_le 16
    · rw [hfresh]
      rfl
  | step _ _ hstep ih => exact ih.step hstep
  | host _ _ hprocessor ih => exact ⟨hprocessor ▸ ih.isStandard, hprocessor ▸ ih.oldestFirst_eq⟩

theorem Tracks.depth_eq (hm : Tracks history m) :
    m.processor.stack.depth = (openCalls history).length := by
  have hlength := congrArg List.length hm.oldestFirst_eq
  rw [List.length_map, List.length_map, CallStack.oldestFirst, List.length_reverse] at hlength
  exact hlength

/-! ### Calls and returns that fault -/

/-- A machine after a call: the address after the word is on the stack. -/
def called (m : Machine) (target : Address) : Machine :=
  { m with processor := { m.processor with
      stack := { m.processor.stack with
        entries := (m.processor.pc + 2) :: m.processor.stack.entries }
      pc := Word.ofAddress target } }

/-- A machine after a return to an address. -/
def returned (m : Machine) (address : UInt16) (rest : List UInt16) : Machine :=
  { m with processor := { m.processor with
      stack := { m.processor.stack with entries := rest }
      pc := address } }

theorem step_of_call (hwait : m.processor.waiting = none) (hw : m.nextWord? = some w)
    (hgroup : w.toNat / 4096 = 0x2)
    (hroom : (m.processor.stack.depth : Int) < m.processor.stack.capacity) :
    m.step = .ok (.executed, m.called (Word.nnn w)) := by
  refine step_of_executes hwait hw ?_
  rw [Instruction.decode_eq_call_iff.mpr ⟨hgroup, rfl⟩]
  exact Executes.call (m := m.advance) _ hroom

theorem step_of_ret {address : UInt16} {rest : List UInt16} (hwait : m.processor.waiting = none)
    (hw : m.nextWord? = some 0x00EE) (hentries : m.processor.stack.entries = address :: rest) :
    m.step = .ok (.executed, m.returned address rest) :=
  step_of_executes hwait hw (Executes.ret (m := m.advance) hentries)

theorem Tracks.call_faults_iff (hm : Tracks history m) (hwait : m.processor.waiting = none)
    (hw : m.nextWord? = some w) (hgroup : w.toNat / 4096 = 0x2) :
    (∃ f, m.step = .error f) ↔ (openCalls history).length = 16 := by
  have hdepth := hm.isStandard.depth_le
  have hcapacity : m.processor.stack.capacity = 16 := hm.isStandard.capacity_eq
  rw [← hm.depth_eq]
  constructor
  · rintro ⟨f, hf⟩
    by_contra hne
    rw [step_of_call hwait hw hgroup (by omega)] at hf
    cases hf
  · intro hfull
    have hroom : m.processor.stack.capacity ≤ (m.processor.stack.depth : Int) := by omega
    have hrule := Refuses.call (m := m.advance) (Word.nnn w) hroom
    rw [← Instruction.decode_eq_call_iff.mpr ⟨hgroup, rfl⟩] at hrule
    exact ⟨_, step_of_refuses hwait hw hrule⟩

theorem Tracks.ret_faults_iff (hm : Tracks history m) (hwait : m.processor.waiting = none)
    (hw : m.nextWord? = some 0x00EE) :
    (∃ f, m.step = .error f) ↔ openCalls history = [] := by
  rw [← List.length_eq_zero_iff, ← hm.depth_eq, CallStack.depth, List.length_eq_zero_iff]
  constructor
  · rintro ⟨f, hf⟩
    cases hentries : m.processor.stack.entries with
    | nil => rfl
    | cons address rest =>
      rw [step_of_ret hwait hw hentries] at hf
      cases hf
  · intro hentries
    exact ⟨_, step_of_refuses hwait hw (Refuses.ret (m := m.advance) hentries)⟩

/-- **A return goes to the word after the latest call that is open**, and takes nothing else off the
stack. -/
theorem Tracks.ret (hm : Tracks history m) (hwait : m.processor.waiting = none)
    (hw : m.nextWord? = some 0x00EE) (h : m.step = .ok (o, m')) :
    ∃ older address, openCalls history = older ++ [address] ∧
      m'.processor.pc.toNat = address + 2 ∧
      m'.processor.stack.oldestFirst = m.processor.stack.oldestFirst.dropLast := by
  have hmove := stackMove_of_step h
  rw [bracket?_of_ret hwait hw] at hmove
  cases hmove with
  | @ret rest hentries hstack =>
    obtain ⟨older, caller, hopen, hcaller, -⟩ := hm.exists_latest hentries
    refine ⟨older, caller, hopen, hcaller, ?_⟩
    rw [CallStack.oldestFirst, CallStack.oldestFirst, hstack, hentries, List.reverse_cons,
      List.dropLast_concat]

/-! ### From a call to its return -/

/-- Where a run may be that has begun with a call: still above what the call has left on the stack,
or back at the word after it. -/
inductive Within (address : UInt16) (base : CallStack) (m : Machine) : Prop
  | inside (above : List UInt16)
      (hstack : m.processor.stack = { base with entries := above ++ address :: base.entries })
  | back (hstack : m.processor.stack = base) (hpc : m.processor.pc = address)

theorem within_of_runsWhile {address : UInt16} {base : CallStack}
    (hcalled : m₀.processor.stack = { base with entries := address :: base.entries })
    (hrun : RunsWhile (fun m => m.processor.stack.depth ≠ base.depth) m₀ history m) :
    Within address base m := by
  induction hrun with
  | start => exact .inside [] hcalled
  | @step history m m' o _ hP hstep ih =>
    cases ih with
    -- the run ends where it comes back, so it makes no step from there
    | back hstack hpc => exact absurd (congrArg CallStack.depth hstack) hP
    | inside above hstack =>
      have hmove := stackMove_of_step hstep
      generalize m.bracket? = bracket at hmove
      cases hmove with
      | quiet hstack' => exact .inside above (hstack'.trans hstack)
      | call hpc hroom hstack' =>
        refine .inside ((m.processor.pc + 2) :: above) ?_
        rw [hstack', hstack]
        rfl
      | @ret rest hentries hstack' =>
        rw [hstack] at hentries hstack'
        cases above with
        | nil =>
          obtain ⟨hpc, rfl⟩ := List.cons.inj hentries
          exact .back hstack' hpc.symm
        | cons top above =>
          obtain ⟨-, rfl⟩ := List.cons.inj hentries
          exact .inside above hstack'
  | @host history m m' _ hP hprocessor ih =>
    cases ih with
    | back hstack hpc => exact absurd (congrArg CallStack.depth hstack) hP
    | inside above hstack => exact .inside above (hprocessor ▸ hstack)

/-- **A run that comes back to the depth of a call comes back to the word after it**, with the stack
as it was before the call. -/
theorem returns_of_call (hwait : m.processor.waiting = none) (hw : m.nextWord? = some w)
    (hgroup : w.toNat / 4096 = 0x2) (hcall : m.step = .ok (o, m')) {m₂ : Machine}
    (hrun : RunsWhile (fun m₁ => m₁.processor.stack.depth ≠ m.processor.stack.depth) m' history m₂)
    (hdepth : m₂.processor.stack.depth = m.processor.stack.depth) :
    m₂.processor.pc.toNat = m.processor.pc.toNat + 2 ∧
      m₂.processor.stack = m.processor.stack := by
  have hmove := stackMove_of_step hcall
  rw [bracket?_of_call hwait hw hgroup] at hmove
  cases hmove with
  | call hpc hroom hstack =>
    cases within_of_runsWhile hstack hrun with
    | inside above hinside =>
      rw [hinside, CallStack.depth, CallStack.depth, List.length_append, List.length_cons] at hdepth
      omega
    | back hback hpc' =>
      refine ⟨?_, hback⟩
      rw [hpc']
      exact toNat_counter_add_two (by omega)

end Machine

namespace Emulator

/-! ### Runs of an emulator -/

/-- Whatever a host asks of an emulator, short of a new start, is a run of its machine. -/
theorem steady_runsTo (m₀ : Machine) :
    Steady fun e => ∃ history, m₀.RunsTo history e.machine where
  step := by
    rintro e ⟨history, hrun⟩
    cases hhalt : e.halt with
    | some f =>
      rw [step_of_halted hhalt]
      exact ⟨history, hrun⟩
    | none =>
      cases hstep : e.machine.step with
      | error f =>
        rw [step_of_fault hhalt hstep]
        exact ⟨history, hrun⟩
      | ok result =>
        rw [step_of_ok hhalt hstep]
        exact ⟨_, .step hrun trivial hstep⟩
  tick := fun ⟨history, hrun⟩ => ⟨history, .host hrun trivial rfl⟩
  frames := fun _ => id
  carry := fun _ => id
  memory := fun _ ⟨history, hrun⟩ => ⟨history, .host hrun trivial rfl⟩
  update := fun _ _ ⟨history, hrun⟩ => ⟨history, .host hrun trivial rfl⟩
  refreshed := fun ⟨history, hrun⟩ => ⟨history, .host hrun trivial rfl⟩

theorem exists_runsTo_after (e : Emulator) {operations : List Operation}
    (hstart : ∀ operation ∈ operations, operation.startsOver = false) :
    ∃ history, e.machine.RunsTo history (e.after operations).machine := by
  refine (steady_runsTo e.machine).after ?_ ?_ ⟨[], .start⟩
  · rintro ⟨operation, hmem, hover⟩
    rw [hstart operation hmem] at hover
    cases hover
  · rintro - e' ⟨history, hrun⟩
    exact ⟨history, .host hrun trivial rfl⟩

end Emulator

namespace Machine

/-- **Calls and returns are matched as brackets are.**  The stack holds, oldest first, the addresses
after the words of the open calls.  A return goes to the address after the latest of them, and
faults exactly if there is none; a call faults exactly if there are sixteen.  So a run that begins
with a call and comes back to the depth before it comes back to the word after the call. -/
theorem calls_bracketed
    (hfresh : m₀.processor.stack = CallStack.empty CallStack.standardCapacity)
    (hrun : m₀.RunsTo history m) :
    m.processor.stack.oldestFirst.map UInt16.toNat = (openCalls history).map (· + 2) ∧
    (∀ o m', m.processor.waiting = none → m.nextWord? = some 0x00EE → m.step = .ok (o, m') →
      ∃ older address, openCalls history = older ++ [address] ∧
        m'.processor.pc.toNat = address + 2 ∧
        m'.processor.stack.oldestFirst = m.processor.stack.oldestFirst.dropLast) ∧
    (∀ w, m.processor.waiting = none → m.nextWord? = some w → w.toNat / 4096 = 0x2 →
      ((∃ f, m.step = .error f) ↔ (openCalls history).length = 16)) ∧
    (m.processor.waiting = none → m.nextWord? = some 0x00EE →
      ((∃ f, m.step = .error f) ↔ openCalls history = [])) ∧
    (∀ w o m₁, m.processor.waiting = none → m.nextWord? = some w → w.toNat / 4096 = 0x2 →
      m.step = .ok (o, m₁) → ∀ later m₂,
      RunsWhile (fun m' => m'.processor.stack.depth ≠ m.processor.stack.depth) m₁ later m₂ →
      m₂.processor.stack.depth = m.processor.stack.depth →
      m₂.processor.pc.toNat = m.processor.pc.toNat + 2 ∧
        m₂.processor.stack = m.processor.stack) ∧
    (∀ (e : Emulator) (operations : List Operation), e.machine = m₀ →
      (∀ operation ∈ operations, operation.startsOver = false) →
      ∃ history, m₀.RunsTo history (e.after operations).machine) := by
  have hm := tracks_of_runsTo hfresh hrun
  refine ⟨hm.oldestFirst_eq, ?_, ?_, ?_, ?_, ?_⟩
  · intro o m' hwait hw hstep
    exact hm.ret hwait hw hstep
  · intro w hwait hw hgroup
    exact hm.call_faults_iff hwait hw hgroup
  · intro hwait hw
    exact hm.ret_faults_iff hwait hw
  · intro w o m₁ hwait hw hgroup hcall later m₂ hlater hdepth
    exact returns_of_call hwait hw hgroup hcall hlater hdepth
  · rintro e operations rfl hstart
    exact e.exists_runsTo_after hstart

/-- A machine whose program has called itself, and then found a return put in place of the call. -/
def selfCalled : Machine :=
  { (atWord 0x2200).called (Word.nnn 0x2200) with memory := (atWord 0x00EE).memory }

theorem nextWord?_selfCalled : selfCalled.nextWord? = some 0x00EE := by
  have hpc : selfCalled.processor.pc = (atWord 0x00EE).processor.pc := by decide
  rw [nextWord?, hpc]
  exact nextWord?_atWord 0x00EE

/-- The call is open after the call, and the return goes to the word after it. -/
theorem calls_bracketed_selfCalled :
    (atWord 0x2200).RunsTo [.call 0x200] selfCalled ∧
      selfCalled.processor.stack.oldestFirst.map UInt16.toNat = [0x202] ∧
      ∃ m', selfCalled.step = .ok (.executed, m') ∧ m'.processor.pc.toNat = 0x202 ∧
        m'.processor.stack = (atWord 0x2200).processor.stack := by
  have hfresh : (atWord 0x2200).processor.stack = CallStack.empty CallStack.standardCapacity := rfl
  have hw : (atWord 0x2200).nextWord? = some 0x2200 := nextWord?_atWord 0x2200
  have hcall := step_of_call rfl hw (by decide) (by decide)
  have hentries : selfCalled.processor.stack.entries = [0x202] := by
    show [Processor.fresh.pc + 2] = [0x202]
    decide
  have hret := step_of_ret rfl nextWord?_selfCalled hentries
  have hrun : (atWord 0x2200).RunsTo [.call 0x200] selfCalled := by
    have hstep := RunsWhile.start.step (P := fun _ => True) trivial hcall
    rw [bracket?_of_call rfl hw (by decide)] at hstep
    exact hstep.host trivial rfl
  obtain ⟨hopen, -⟩ := calls_bracketed hfresh hrun
  obtain ⟨-, -, -, -, hreturn, -⟩ := calls_bracketed hfresh .start
  have hopened : RunsWhile
      (fun m => m.processor.stack.depth ≠ (atWord 0x2200).processor.stack.depth)
      ((atWord 0x2200).called (Word.nnn 0x2200)) [] selfCalled :=
    .host .start Nat.one_ne_zero rfl
  have hlater := hopened.step Nat.one_ne_zero hret
  exact ⟨hrun, hopen, _, hret, hreturn _ _ _ rfl hw (by decide) hcall _ _ hlater rfl⟩

end Machine

end Chip8
