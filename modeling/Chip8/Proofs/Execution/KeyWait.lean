import Chip8.Proofs.Execution.Effects

/-!
# Waiting for a key

The word `Fx0A` begins a wait, and two parties share it: the host, which says at any time that a key
is held or not, and the processor, which looks for a press whenever it is stepped.  They meet in a
count of presses, a mark that the wait has set, and the latest key.

What counts is told here without any of these.  `WaitEvent.presses` lists the press transitions
among some events from the keys that are held alone: a press is an update that holds a key which is
not held at that moment.

* `presses_and_lastPress_hear`: the keypad counts the press transitions and remembers the last one.
* `Waits m₀ m`: the wait that `m₀` has begun still goes on in `m`.
* `freshPress?_foldl_happen`: a waiting machine sees the last press transition since the wait began.
* `keyWait_protocol`: **a wait goes on, and nothing changes, until there is a press transition; from
  then on the key is ready, and the next step delivers the latest one.**
-/

namespace Chip8

/-- What can happen to a machine while one of its instructions waits. -/
inductive WaitEvent
  /-- The host says that a key is held now, or is not. -/
  | update (key : Key) (hold : Bool)
  | tick
  | step
  deriving DecidableEq, Repr

namespace WaitEvent

/-- The keys that are held after an event. -/
def heldAfter (held : Key → Bool) : WaitEvent → Key → Bool
  | update key hold => fun k => if k = key then hold else held k
  | tick => held
  | step => held

/-- The press transitions among events, the oldest first, from the keys that are held before. -/
def presses (held : Key → Bool) : List WaitEvent → List Key
  | [] => []
  | update key hold :: events =>
    if hold = true ∧ held key = false then
      key :: presses (heldAfter held (update key hold)) events
    else presses (heldAfter held (update key hold)) events
  | tick :: events => presses held events
  | step :: events => presses held events

theorem presses_append (held : Key → Bool) (before after : List WaitEvent) :
    presses held (before ++ after) =
      presses held before ++ presses (before.foldl heldAfter held) after := by
  induction before generalizing held with
  | nil => rfl
  | cons event before ih =>
    cases event with
    | update key hold =>
      simp only [List.cons_append, presses, List.foldl_cons, ih]
      split
      · rfl
      · rfl
    | tick => exact ih held
    | step => exact ih held

theorem presses_eq_nil_of_held {held : Key → Bool} {events : List WaitEvent}
    (h : ∀ event ∈ events,
      event = tick ∨ event = step ∨ ∃ key, held key = true ∧ event = update key true) :
    presses held events = [] := by
  induction events generalizing held with
  | nil => rfl
  | cons event events ih =>
    have hrest := fun event' hmem => h event' (List.mem_cons_of_mem event hmem)
    rcases h event List.mem_cons_self with rfl | rfl | ⟨key, hkey, rfl⟩
    · exact ih hrest
    · exact ih hrest
    · rw [presses, if_neg (by rw [hkey]; decide)]
      refine ih fun event' hmem => ?_
      rcases hrest event' hmem with rfl | rfl | ⟨key', hkey', rfl⟩
      · exact .inl rfl
      · exact .inr (.inl rfl)
      · refine .inr (.inr ⟨key', ?_, rfl⟩)
        show (if key' = key then true else held key') = true
        rw [hkey', ite_self]

theorem presses_eq_nil_of_release (held : Key → Bool) {events : List WaitEvent}
    (h : ∀ event ∈ events, event = tick ∨ ∃ key, event = update key false) :
    presses held events = [] := by
  induction events generalizing held with
  | nil => rfl
  | cons event events ih =>
    have hrest : ∀ event ∈ events, event = tick ∨ ∃ key, event = update key false :=
      fun event' hmem => h event' (List.mem_cons_of_mem _ hmem)
    rcases h event List.mem_cons_self with rfl | ⟨key, rfl⟩
    · exact ih held hrest
    · rw [presses, if_neg (fun hpress => Bool.noConfusion hpress.1)]
      exact ih _ hrest

end WaitEvent

/-! ### The keypad and the history of presses -/

namespace Keypad

/-- A keypad after an event; only the host's updates reach it. -/
def hear (pad : Keypad) : WaitEvent → Keypad
  | .update key hold => pad.update key hold
  | .tick => pad
  | .step => pad

theorem isHeld_hear (pad : Keypad) (event : WaitEvent) :
    (pad.hear event).isHeld = event.heldAfter pad.isHeld := by
  cases event with
  | update key hold =>
    funext k
    exact pad.held_update key k hold
  | tick => rfl
  | step => rfl

theorem isHeld_foldl_hear (pad : Keypad) (events : List WaitEvent) :
    (events.foldl hear pad).isHeld = events.foldl WaitEvent.heldAfter pad.isHeld := by
  induction events generalizing pad with
  | nil => rfl
  | cons event events ih =>
    rw [List.foldl_cons, List.foldl_cons, ih, isHeld_hear]

/-- **The keypad counts the press transitions, and remembers the last one.** -/
theorem presses_and_lastPress_hear (pad : Keypad) (events : List WaitEvent) :
    (events.foldl hear pad).presses =
        pad.presses + (WaitEvent.presses pad.isHeld events).length ∧
      (events.foldl hear pad).lastPress =
        (WaitEvent.presses pad.isHeld events).getLast?.or pad.lastPress := by
  induction events generalizing pad with
  | nil => exact ⟨rfl, rfl⟩
  | cons event events ih =>
    have hlater := ih (pad.hear event)
    rw [isHeld_hear] at hlater
    rw [List.foldl_cons, hlater.1, hlater.2]
    cases event with
    | update key hold =>
      rw [WaitEvent.presses]
      exact pad.presses_and_lastPress_update key hold _
    | tick => exact ⟨rfl, rfl⟩
    | step => exact ⟨rfl, rfl⟩

theorem keyOfIndex_val (key : Key) : keyOfIndex key.val = .ok key := by
  have := key.isLt
  rw [keyOfIndex, Word.nibble?, dif_pos (by omega)]
  rfl

end Keypad

/-! ### A machine among events -/

namespace Machine

variable {m m' : Machine} {w : UInt16} {x : Register} {o : Outcome}

/-- A machine after an event.  A step that faults leaves it as it was. -/
def happen (m : Machine) : WaitEvent → Machine
  | .update key hold => { m with keypad := m.keypad.update key hold }
  | .tick => m.tick
  | .step =>
    match m.step with
    | .ok (_, m') => m'
    | .error _ => m

theorem happen_step_of_ok (h : m.step = .ok (o, m')) : m.happen .step = m' := by
  simp only [happen, h]

theorem happen_step_of_error {f : Fault} (h : m.step = .error f) : m.happen .step = m := by
  simp only [happen, h]

theorem keypad_of_step (h : m.step = .ok (o, m')) : m'.keypad = m.keypad := by
  rcases step_eq_ok_iff.mp h with ⟨x, -, hresume⟩ | ⟨-, w, -, hrule⟩
  · rw [resume] at hresume
    split at hresume
    · cases hresume
      rfl
    · cases hresume
      rfl
  · exact hrule.keypad_eq

theorem keypad_happen (m : Machine) (event : WaitEvent) :
    (m.happen event).keypad = m.keypad.hear event := by
  cases event with
  | update key hold => rfl
  | tick => rfl
  | step =>
    cases h : m.step with
    | error f => simp only [happen, h, Keypad.hear]
    | ok result => rw [happen_step_of_ok h, keypad_of_step h, Keypad.hear]

theorem keypad_foldl_happen (m : Machine) (events : List WaitEvent) :
    (events.foldl happen m).keypad = events.foldl Keypad.hear m.keypad := by
  induction events generalizing m with
  | nil => rfl
  | cons event events ih => rw [List.foldl_cons, List.foldl_cons, ih, keypad_happen]

/-! ### A wait among events -/

/-- Only the keypad and the timers differ: what waits in the first machine waits in the second. -/
def Waits (m₀ m : Machine) : Prop := m = { m₀ with keypad := m.keypad, timers := m.timers }

theorem Waits.refl (m : Machine) : Waits m m := rfl

theorem Waits.trans {m₀ m₁ m₂ : Machine} (h₁ : Waits m₀ m₁) (h₂ : Waits m₁ m₂) : Waits m₀ m₂ := by
  rw [Waits] at h₁ h₂ ⊢
  rw [h₂, h₁]

theorem Waits.processor_eq {m₀ : Machine} (h : Waits m₀ m) : m.processor = m₀.processor := by
  rw [Waits] at h
  rw [h]

theorem step_of_freshPress?_none (hwait : m.processor.waiting = some x)
    (h : m.freshPress? = none) : m.step = .ok (.awaitingKey, m) := by
  rw [step_of_waiting hwait, resume, h]

theorem step_of_freshPress?_some {key : Key} (hwait : m.processor.waiting = some x)
    (h : m.freshPress? = some key) : m.step = .ok (.keyReceived, m.endWait x key) := by
  rw [step_of_waiting hwait, resume, h]

theorem freshPress?_of_le (h : m.keypad.presses ≤ m.processor.pressMark) :
    m.freshPress? = none := by
  rw [freshPress?, if_neg (by omega)]

theorem waits_of_presses_eq_nil {events : List WaitEvent} (hwait : m.processor.waiting = some x)
    (hmark : m.keypad.presses ≤ m.processor.pressMark)
    (h : WaitEvent.presses m.keypad.isHeld events = []) : Waits m (events.foldl happen m) := by
  induction events generalizing m with
  | nil => exact Waits.refl m
  | cons event events ih =>
    rw [List.foldl_cons]
    cases event with
    | update key hold =>
      rw [WaitEvent.presses] at h
      split at h
      · cases h
      · -- a release, or one more call for a held key, counts no press
        next hpress =>
        have hcount := (Keypad.update_of_not_press hpress).1
        have hheld : (m.happen (.update key hold)).keypad.isHeld =
            WaitEvent.heldAfter m.keypad.isHeld (.update key hold) :=
          m.keypad.isHeld_hear (.update key hold)
        rw [← hheld] at h
        have hfirst : Waits m (m.happen (.update key hold)) := rfl
        exact hfirst.trans (ih hwait (Nat.le_trans (Nat.le_of_eq hcount) hmark) h)
    | tick =>
      have hfirst : Waits m (m.happen .tick) := rfl
      exact hfirst.trans (ih hwait hmark h)
    | step =>
      rw [happen_step_of_ok (step_of_freshPress?_none hwait (freshPress?_of_le hmark))]
      exact ih hwait hmark h

theorem waits_of_no_step (m : Machine) {events : List WaitEvent} (h : .step ∉ events) :
    Waits m (events.foldl happen m) := by
  induction events generalizing m with
  | nil => exact Waits.refl m
  | cons event events ih =>
    have hrest := ih (m.happen event) (List.not_mem_of_not_mem_cons h)
    cases event with
    | update key hold =>
      have hfirst : Waits m (m.happen (.update key hold)) := rfl
      exact hfirst.trans hrest
    | tick =>
      have hfirst : Waits m (m.happen .tick) := rfl
      exact hfirst.trans hrest
    | step => exact absurd List.mem_cons_self h

/-- A machine whose wait goes on sees the last press transition since the wait began. -/
theorem freshPress?_foldl_happen {events : List WaitEvent}
    (hmark : m.processor.pressMark = m.keypad.presses) (h : Waits m (events.foldl happen m)) :
    (events.foldl happen m).freshPress? = (WaitEvent.presses m.keypad.isHeld events).getLast? := by
  obtain ⟨hcount, hlast⟩ := m.keypad.presses_and_lastPress_hear events
  rw [freshPress?, h.processor_eq, keypad_foldl_happen, hcount, hlast, hmark]
  cases hpresses : WaitEvent.presses m.keypad.isHeld events with
  | nil => exact if_neg (by rw [List.length_nil]; omega)
  | cons key keys =>
    rw [if_pos (by rw [List.length_cons]; omega), List.getLast?_cons]
    rfl

/-! ### The protocol -/

/-- The machine has begun to wait for a key, at the word that its counter points at. -/
def waitingFor (m : Machine) (x : Register) : Machine :=
  { m with processor := { m.processor with waiting := some x, pressMark := m.keypad.presses } }

theorem beginWait_advance (m : Machine) (x : Register) :
    m.advance.beginWait x = m.waitingFor x := by
  have hpc : m.processor.pc + 2 - 2 = m.processor.pc := UInt16.add_sub_cancel _ _
  show { m with processor := { m.processor with
    waiting := some x, pressMark := m.keypad.presses, pc := m.processor.pc + 2 - 2 } } = _
  rw [hpc]
  rfl

theorem step_of_awaitKey (hwait : m.processor.waiting = none) (hw : m.nextWord? = some w)
    (hgroup : w.toNat / 4096 = 0xF) (hlow : w.toNat % 256 = 0x0A) :
    m.step = .ok (.awaitingKey, m.waitingFor (Word.x w)) := by
  refine step_of_executes hwait hw ?_
  rw [Instruction.decode_eq_awaitKey_iff.mpr ⟨hgroup, hlow, rfl⟩, ← beginWait_advance]
  exact .awaitKey (Word.x w)

/-- **Until there is a press transition, the key is not ready and a step changes nothing.** -/
theorem step_of_no_press (m : Machine) (x : Register) {events : List WaitEvent}
    (h : WaitEvent.presses m.keypad.isHeld events = []) {m₁ : Machine}
    (hm₁ : m₁ = events.foldl happen (m.waitingFor x)) :
    Waits (m.waitingFor x) m₁ ∧ m₁.isKeyReady = false ∧ m₁.step = .ok (.awaitingKey, m₁) := by
  subst hm₁
  have hwaits := waits_of_presses_eq_nil (m := m.waitingFor x) rfl (Nat.le_refl _) h
  have hfresh := freshPress?_foldl_happen rfl hwaits
  have hwaiting := congrArg Processor.waiting hwaits.processor_eq
  rw [show WaitEvent.presses (m.waitingFor x).keypad.isHeld events = [] from h] at hfresh
  refine ⟨hwaits, ?_, step_of_freshPress?_none hwaiting hfresh⟩
  rw [isKeyReady, hfresh]
  exact Bool.and_false _

/-- **After a press transition the key is ready, and the next step delivers the latest.** -/
theorem step_of_press (m : Machine) (x : Register) {before after : List WaitEvent} {key : Key}
    (hbefore : WaitEvent.presses m.keypad.isHeld before = []) (hafter : .step ∉ after)
    (hkey : (WaitEvent.presses m.keypad.isHeld (before ++ after)).getLast? = some key)
    {m₁ : Machine} (hm₁ : m₁ = (before ++ after).foldl happen (m.waitingFor x)) :
    Waits (m.waitingFor x) m₁ ∧ m₁.isKeyReady = true ∧
      m₁.step = .ok (.keyReceived, { m₁ with processor := { m₁.processor with
        v := m₁.processor.v.set x (UInt8.ofNat key)
        waiting := none
        pc := m.processor.pc + 2 } }) := by
  have hfirst := waits_of_presses_eq_nil (m := m.waitingFor x) rfl (Nat.le_refl _) hbefore
  have hwaits : Waits (m.waitingFor x) m₁ := by
    rw [hm₁, List.foldl_append]
    exact hfirst.trans (waits_of_no_step _ hafter)
  have hfresh : m₁.freshPress? = some key := by
    rw [hm₁] at hwaits ⊢
    exact (freshPress?_foldl_happen rfl hwaits).trans hkey
  have hwaiting : m₁.processor.waiting = some x := congrArg Processor.waiting hwaits.processor_eq
  have hpc : m₁.processor.pc = (m.waitingFor x).processor.pc :=
    congrArg Processor.pc hwaits.processor_eq
  refine ⟨hwaits, ?_, ?_⟩
  · rw [isKeyReady, isAwaitingKey, hwaiting, hfresh]
    rfl
  · rw [step_of_freshPress?_some hwaiting hfresh, endWait, hpc]
    rfl

/-- **The protocol of a key wait.**  Whatever updates, ticks and steps follow the step at the word
`Fx0A`: until there is a press transition, a step changes nothing; from then on the key is ready, up
to the next step, which delivers the latest press and moves past the word.  So a key that has been
held all along does not end the wait, and a press that was let go again is not lost. -/
theorem keyWait_protocol (m : Machine) (hwait : m.processor.waiting = none)
    (hw : m.nextWord? = some w) (hgroup : w.toNat / 4096 = 0xF) (hlow : w.toNat % 256 = 0x0A) :
    m.step = .ok (.awaitingKey, m.waitingFor (Word.x w)) ∧
    (m.processor.pc + 2).toNat = m.processor.pc.toNat + 2 ∧
    (∀ (events : List WaitEvent) (m₁ : Machine),
      m₁ = events.foldl happen (m.waitingFor (Word.x w)) →
      WaitEvent.presses m.keypad.isHeld events = [] →
      Waits (m.waitingFor (Word.x w)) m₁ ∧ m₁.isKeyReady = false ∧
        m₁.step = .ok (.awaitingKey, m₁)) ∧
    (∀ (before after : List WaitEvent) (key : Key) (m₁ : Machine),
      m₁ = (before ++ after).foldl happen (m.waitingFor (Word.x w)) →
      WaitEvent.presses m.keypad.isHeld before = [] → .step ∉ after →
      (WaitEvent.presses m.keypad.isHeld (before ++ after)).getLast? = some key →
      Waits (m.waitingFor (Word.x w)) m₁ ∧ m₁.isKeyReady = true ∧
        m₁.step = .ok (.keyReceived, { m₁ with processor := { m₁.processor with
          v := m₁.processor.v.set (Word.x w) (UInt8.ofNat key)
          waiting := none
          pc := m.processor.pc + 2 } })) ∧
    (∀ (events : List WaitEvent) (m₁ : Machine),
      m₁ = events.foldl happen (m.waitingFor (Word.x w)) →
      (∀ event ∈ events, event = .tick ∨ event = .step ∨
        ∃ key, m.keypad.isHeld key = true ∧ event = .update key true) →
      m₁.step = .ok (.awaitingKey, m₁)) ∧
    (∀ (before after : List WaitEvent) (key : Key) (m₁ : Machine),
      m₁ = (before ++ .update key true :: after).foldl happen (m.waitingFor (Word.x w)) →
      WaitEvent.presses m.keypad.isHeld before = [] →
      before.foldl WaitEvent.heldAfter m.keypad.isHeld key = false →
      (∀ event ∈ after, event = .tick ∨ ∃ key', event = .update key' false) →
      ∃ m₂, m₁.step = .ok (.keyReceived, m₂) ∧ m₂.reg (Word.x w) = UInt8.ofNat key) := by
  have hpc := (nextWord?_eq_some_iff.mp hw).1
  refine ⟨step_of_awaitKey hwait hw hgroup hlow, ?_, ?_, ?_, ?_, ?_⟩
  · rw [UInt16.toNat_add]
    show (m.processor.pc.toNat + 2) % 65536 = _
    omega
  · intro events m₁ hm₁ h
    exact m.step_of_no_press _ h hm₁
  · intro before after key m₁ hm₁ hbefore hafter hkey
    exact m.step_of_press _ hbefore hafter hkey hm₁
  · intro events m₁ hm₁ h
    exact (m.step_of_no_press _ (WaitEvent.presses_eq_nil_of_held h) hm₁).2.2
  · intro before after key m₁ hm₁ hbefore hheld hafter
    have hstep : .step ∉ .update key true :: after := by
      intro hmem
      rcases List.mem_cons.mp hmem with h | h
      · cases h
      · rcases hafter _ h with h | ⟨key', h⟩
        · cases h
        · cases h
    have hkey : (WaitEvent.presses m.keypad.isHeld
        (before ++ .update key true :: after)).getLast? = some key := by
      rw [WaitEvent.presses_append, hbefore, List.nil_append, WaitEvent.presses,
        if_pos ⟨rfl, hheld⟩, WaitEvent.presses_eq_nil_of_release _ hafter]
      rfl
    have hdelivers := (m.step_of_press _ hbefore hstep hkey hm₁).2.2
    refine ⟨_, hdelivers, ?_⟩
    show (m₁.processor.v.set (Word.x w) (UInt8.ofNat key)).get (Word.x w) = _
    rw [Registers.get_set, if_pos rfl]

/-- A key that is held before the wait does not end it; a press that is let go at once does. -/
theorem keyWait_protocol_atWord :
    (([.update 7 true, .step, .tick] : List WaitEvent).foldl happen
      (((atWord 0xF30A).happen (.update 7 true)).waitingFor 3)).isKeyReady = false ∧
    (([.update 7 true, .step, .update 5 true, .tick, .update 5 false] : List WaitEvent).foldl happen
      (((atWord 0xF30A).happen (.update 7 true)).waitingFor 3)).isKeyReady = true := by
  obtain ⟨-, -, hquiet, hpress, -⟩ := ((atWord 0xF30A).happen (.update 7 true)).keyWait_protocol rfl
    (nextWord?_atWord 0xF30A) (by decide) (by decide)
  exact ⟨(hquiet _ _ rfl (by decide)).2.1,
    (hpress [.update 7 true, .step] [.update 5 true, .tick, .update 5 false] 5 _ rfl (by decide)
      (by decide) (by decide)).2.1⟩

end Machine

end Chip8
