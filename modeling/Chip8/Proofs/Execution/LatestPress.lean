import Chip8.Proofs.Execution.KeyWait

/-!
# Which press ends a wait

A wait keeps no key of its own.  It is ended by the latest press that the keypad remembers, once the
keypad has counted more presses than it had when the wait began.

So of several presses between two steps the latest is delivered, and the earlier ones are
overwritten: `latest_press_ends_wait`.

The keypad can be reset under a wait, which lets all keys go and takes the count back to zero, while
the mark of the wait stays where it is.  The presses after the reset then have to make up for those
before the wait, and the first of them are lost: `press_ends_wait_iff`.

* `Touch`: what a host does to the keypad, resets included.
* `Touch.presses`: the press transitions that no reset follows.
* `presses_and_lastPress_touch`: **the keypad counts them, from where it was if there is no reset
  and from zero otherwise.**
* `freshPress?_foldl_touch`: what a waiting machine sees of them.
-/

namespace Chip8

namespace Machine

variable {m : Machine} {w : UInt16} {x : Register}

/-! ### Several presses between two steps -/

theorem ofNat_key_inj {key key' : Key} : UInt8.ofNat key = UInt8.ofNat key' ↔ key = key' := by
  constructor
  · intro h
    have h' := congrArg UInt8.toNat h
    rw [UInt8.toNat_ofNat', UInt8.toNat_ofNat'] at h'
    have := key.isLt
    have := key'.isLt
    exact Fin.ext (by omega)
  · rintro rfl
    rfl

theorem step_of_presses (m : Machine) (x : Register) {events : List WaitEvent} {last : Key}
    (hstep : .step ∉ events)
    (hlast : (WaitEvent.presses m.keypad.isHeld events).getLast? = some last) :
    ∃ m₂, (events.foldl happen (m.waitingFor x)).step = .ok (.keyReceived, m₂) ∧
      m₂.reg x = UInt8.ofNat last := by
  have hbefore : WaitEvent.presses m.keypad.isHeld [] = [] := rfl
  obtain ⟨-, -, hdelivers⟩ := m.step_of_press x hbefore hstep hlast rfl
  refine ⟨_, hdelivers, ?_⟩
  exact (Registers.get_set _ x x _).trans (if_pos rfl)

/-- **The latest press ends a wait.**  If there are several press transitions before the next step,
whatever else is held or let go meanwhile, that step delivers the last one, and so the first one
only if both are of the same key. -/
theorem latest_press_ends_wait (m : Machine) (hwait : m.processor.waiting = none)
    (hw : m.nextWord? = some w) (hgroup : w.toNat / 4096 = 0xF) (hlow : w.toNat % 256 = 0x0A) :
    m.step = .ok (.awaitingKey, m.waitingFor (Word.x w)) ∧
    ∀ (events : List WaitEvent) (first last : Key) (between : List Key) (m₁ : Machine),
      m₁ = events.foldl happen (m.waitingFor (Word.x w)) → .step ∉ events →
      WaitEvent.presses m.keypad.isHeld events = first :: (between ++ [last]) →
      ∃ m₂, m₁.step = .ok (.keyReceived, m₂) ∧ m₂.reg (Word.x w) = UInt8.ofNat last ∧
        (m₂.reg (Word.x w) = UInt8.ofNat first ↔ first = last) := by
  refine ⟨step_of_awaitKey hwait hw hgroup hlow, ?_⟩
  rintro events first last between m₁ rfl hstep hpresses
  have hlast : (WaitEvent.presses m.keypad.isHeld events).getLast? = some last := by
    rw [hpresses, ← List.cons_append, List.getLast?_concat]
  obtain ⟨m₂, hdelivers, hreg⟩ := m.step_of_presses (Word.x w) hstep hlast
  refine ⟨m₂, hdelivers, hreg, ?_⟩
  rw [hreg, ofNat_key_inj]
  exact eq_comm

/-- Of the presses of `5` and `7` the second one is delivered. -/
theorem latest_press_ends_wait_atWord : ∃ m₂,
    (([.update 5 true, .tick, .update 7 true, .update 7 false] : List WaitEvent).foldl happen
      ((atWord 0xF30A).waitingFor 3)).step = .ok (.keyReceived, m₂) ∧ m₂.reg 3 = 7 := by
  obtain ⟨-, hlatest⟩ := (atWord 0xF30A).latest_press_ends_wait rfl (nextWord?_atWord 0xF30A)
    (by decide) (by decide)
  obtain ⟨m₂, hdelivers, hreg, -⟩ := hlatest
    [.update 5 true, .tick, .update 7 true, .update 7 false] 5 7 [] _ rfl (by decide) (by decide)
  exact ⟨m₂, hdelivers, hreg⟩

/-- The first press does not end the wait: after presses of `5` and `7` it is `7` that arrives. -/
theorem first_press_overwritten :
    (atWord 0xF30A).step = .ok (.awaitingKey, (atWord 0xF30A).waitingFor 3) ∧
    WaitEvent.presses (atWord 0xF30A).keypad.isHeld [.update 5 true, .update 7 true] = [5, 7] ∧
    ∃ m₂, (([.update 5 true, .update 7 true] : List WaitEvent).foldl happen
        ((atWord 0xF30A).waitingFor 3)).step = .ok (.keyReceived, m₂) ∧ m₂.reg 3 ≠ 5 := by
  have hpresses : WaitEvent.presses (atWord 0xF30A).keypad.isHeld
      [.update 5 true, .update 7 true] = [5, 7] := by decide
  refine ⟨step_of_awaitKey rfl (nextWord?_atWord 0xF30A) (by decide) (by decide), hpresses, ?_⟩
  have hlast : (WaitEvent.presses (atWord 0xF30A).keypad.isHeld
      [.update 5 true, .update 7 true]).getLast? = some 7 := by
    rw [hpresses]
    rfl
  obtain ⟨m₂, hdelivers, hreg⟩ := (atWord 0xF30A).step_of_presses 3 (by decide) hlast
  refine ⟨m₂, hdelivers, ?_⟩
  rw [hreg]
  decide

end Machine

/-! ### Resets of the keypad -/

/-- What a host does to the keypad. -/
inductive Touch
  /-- A key is held now, or is not. -/
  | update (key : Key) (hold : Bool)
  /-- All keys are let go, and all presses are forgotten. -/
  | reset
  deriving DecidableEq, Repr

namespace Touch

def heldAfter (held : Key → Bool) : Touch → Key → Bool
  | update key hold => fun k => if k = key then hold else held k
  | reset => fun _ => false

/-- The press transitions that no reset follows, the oldest first, from the keys that are held
before. -/
def presses (held : Key → Bool) : List Touch → List Key
  | [] => []
  | update key hold :: touches =>
    if (hold = true ∧ held key = false) ∧ .reset ∉ touches then
      key :: presses (heldAfter held (update key hold)) touches
    else presses (heldAfter held (update key hold)) touches
  | reset :: touches => presses (heldAfter held reset) touches

end Touch

namespace Keypad

def touch (pad : Keypad) : Touch → Keypad
  | .update key hold => pad.update key hold
  | .reset => pad.reset

theorem isHeld_reset (pad : Keypad) : pad.reset.isHeld = fun _ => false := by
  funext key
  exact Vector.getElem_replicate key.isLt

theorem isHeld_touch (pad : Keypad) (t : Touch) :
    (pad.touch t).isHeld = t.heldAfter pad.isHeld := by
  cases t with
  | update key hold =>
    funext k
    exact pad.held_update key k hold
  | reset => exact pad.isHeld_reset

/-- **The keypad counts the press transitions since the latest reset, and remembers the last
one.** -/
theorem presses_and_lastPress_touch (pad : Keypad) (touches : List Touch) :
    (touches.foldl touch pad).presses =
        (if .reset ∈ touches then 0 else pad.presses) +
          (Touch.presses pad.isHeld touches).length ∧
      (touches.foldl touch pad).lastPress =
        (Touch.presses pad.isHeld touches).getLast?.or
          (if .reset ∈ touches then none else pad.lastPress) := by
  induction touches generalizing pad with
  | nil => exact ⟨rfl, rfl⟩
  | cons t touches ih =>
    have hlater := ih (pad.touch t)
    rw [isHeld_touch] at hlater
    rw [List.foldl_cons, hlater.1, hlater.2]
    cases t with
    | reset =>
      rw [if_pos List.mem_cons_self, if_pos List.mem_cons_self]
      refine ⟨?_, ?_⟩
      · rw [show (pad.touch .reset).presses = 0 from rfl, ite_self]
        rfl
      · rw [show (pad.touch .reset).lastPress = none from rfl, ite_self]
        rfl
    | update key hold =>
      have hmem : Touch.reset ∈ Touch.update key hold :: touches ↔ .reset ∈ touches := by simp
      rw [Touch.presses]
      by_cases hreset : .reset ∈ touches
      · -- what a reset follows is neither counted nor remembered
        simp only [hmem, hreset, if_true, not_true_eq_false, and_false, if_false, and_self]
      · simp only [hmem, hreset, if_false, not_false_eq_true, and_true]
        exact pad.presses_and_lastPress_update key hold _

end Keypad

namespace Machine

variable {m : Machine} {w : UInt16} {x : Register}

/-- A machine after a touch of its keypad. -/
def touch (m : Machine) : Touch → Machine
  | .update key hold => m.happen (.update key hold)
  | .reset => m.resetKeypad

theorem foldl_touch (m : Machine) (touches : List Touch) :
    touches.foldl touch m = { m with keypad := touches.foldl Keypad.touch m.keypad } := by
  induction touches generalizing m with
  | nil => rfl
  | cons t touches ih =>
    rw [List.foldl_cons, List.foldl_cons, ih]
    cases t with
    | update key hold => rfl
    | reset => rfl

/-- A wait sees the last press transition that no reset follows, if there are enough of them: one,
or after a reset one more than there had been presses before the wait. -/
theorem freshPress?_foldl_touch (m : Machine) (x : Register) (touches : List Touch) :
    (touches.foldl touch (m.waitingFor x)).freshPress? =
      if (if .reset ∈ touches then m.keypad.presses else 0) <
          (Touch.presses m.keypad.isHeld touches).length then
        (Touch.presses m.keypad.isHeld touches).getLast?
      else none := by
  obtain ⟨hcount, hlast⟩ := m.keypad.presses_and_lastPress_touch touches
  rw [foldl_touch, freshPress?]
  show (if m.keypad.presses < (touches.foldl Keypad.touch m.keypad).presses then
    (touches.foldl Keypad.touch m.keypad).lastPress else none) = _
  rw [hcount, hlast]
  generalize Touch.presses m.keypad.isHeld touches = keys
  cases keys with
  | nil =>
    rw [List.length_nil, if_neg (by split <;> omega), if_neg (by omega)]
  | cons key keys =>
    have hsome : ∀ other : Option Key,
        (key :: keys).getLast?.or other = (key :: keys).getLast? := by
      intro other
      rw [List.getLast?_cons]
      rfl
    rw [hsome]
    split
    · rw [Nat.zero_add]
    · rw [if_pos (by rw [List.length_cons]; omega), if_pos (by rw [List.length_cons]; omega)]

theorem isKeyReady_foldl_touch (m : Machine) (x : Register) (touches : List Touch) :
    (touches.foldl touch (m.waitingFor x)).isKeyReady = true ↔
      (if .reset ∈ touches then m.keypad.presses else 0) <
        (Touch.presses m.keypad.isHeld touches).length := by
  have hwaiting : (touches.foldl touch (m.waitingFor x)).isAwaitingKey = true := by
    rw [foldl_touch]
    rfl
  rw [isKeyReady, hwaiting, Bool.true_and, freshPress?_foldl_touch]
  generalize (if .reset ∈ touches then m.keypad.presses else 0) = before
  split
  · next hmore =>
    have hkeys : Touch.presses m.keypad.isHeld touches ≠ [] := by
      rw [← List.length_pos_iff]
      omega
    simp [List.getLast?_eq_some_getLast hkeys, hmore]
  · next hfew => simpa using hfew

/-- **Which presses end a wait among resets of the keypad.**  Without a reset any press transition
does.  After a reset it takes one more than there had been presses before the wait; until then the
wait goes on, and then the next step delivers the latest.  So no press is ever lost exactly if none
was counted before the wait. -/
theorem press_ends_wait_iff (m : Machine) (hwait : m.processor.waiting = none)
    (hw : m.nextWord? = some w) (hgroup : w.toNat / 4096 = 0xF) (hlow : w.toNat % 256 = 0x0A) :
    m.step = .ok (.awaitingKey, m.waitingFor (Word.x w)) ∧
    (∀ (touches : List Touch) (m₁ : Machine),
      m₁ = touches.foldl touch (m.waitingFor (Word.x w)) →
      (m₁.isKeyReady = true ↔
        (if .reset ∈ touches then m.keypad.presses else 0) <
          (Touch.presses m.keypad.isHeld touches).length) ∧
      (m₁.isKeyReady = false → m₁.step = .ok (.awaitingKey, m₁)) ∧
      (m₁.isKeyReady = true →
        ∃ key, (Touch.presses m.keypad.isHeld touches).getLast? = some key ∧
          m₁.step = .ok (.keyReceived, { m₁ with processor := { m₁.processor with
            v := m₁.processor.v.set (Word.x w) (UInt8.ofNat key)
            waiting := none
            pc := m₁.processor.pc + 2 } }))) ∧
    ((∀ touches : List Touch, Touch.presses m.keypad.isHeld touches ≠ [] →
        (touches.foldl touch (m.waitingFor (Word.x w))).isKeyReady = true) ↔
      m.keypad.presses = 0) := by
  refine ⟨step_of_awaitKey hwait hw hgroup hlow, ?_, ?_⟩
  · rintro touches m₁ rfl
    have hready := m.isKeyReady_foldl_touch (Word.x w) touches
    have hfresh := m.freshPress?_foldl_touch (Word.x w) touches
    have hwaiting : (touches.foldl touch (m.waitingFor (Word.x w))).processor.waiting =
        some (Word.x w) := by
      rw [foldl_touch]
      rfl
    refine ⟨hready, fun hnot => ?_, fun hyes => ?_⟩
    · rw [if_neg (by rw [← hready, hnot]; decide)] at hfresh
      exact step_of_freshPress?_none hwaiting hfresh
    · rw [if_pos (hready.mp hyes)] at hfresh
      have hsome : (touches.foldl touch (m.waitingFor (Word.x w))).freshPress?.isSome = true :=
        (Bool.and_eq_true_iff.mp hyes).2
      obtain ⟨key, hkey⟩ := Option.isSome_iff_exists.mp hsome
      exact ⟨key, hfresh.symm.trans hkey, step_of_freshPress?_some hwaiting hkey⟩
  · constructor
    · intro hall
      -- one press after a reset does not exceed any count from before the wait
      have hready := hall [.reset, .update 0 true] (by simp [Touch.presses, Touch.heldAfter])
      rw [isKeyReady_foldl_touch, if_pos List.mem_cons_self] at hready
      have hone : (Touch.presses m.keypad.isHeld [.reset, .update 0 true]).length = 1 := by
        simp [Touch.presses, Touch.heldAfter]
      omega
    · intro hzero touches hkeys
      rw [isKeyReady_foldl_touch, hzero, ite_self]
      exact List.length_pos_iff.mpr hkeys

/-- A machine at the word `F30A` whose keypad has counted one press. -/
def pressedOnce (key : Key) : Machine := (atWord 0xF30A).touch (.update key true)

/-- Of two presses after a reset the first is lost, and the second ends the wait. -/
theorem press_ends_wait_iff_pressedOnce :
    (([.reset, .update 7 true] : List Touch).foldl touch
      ((pressedOnce 5).waitingFor 3)).isKeyReady = false ∧
    (([.reset, .update 7 true, .update 8 true] : List Touch).foldl touch
      ((pressedOnce 5).waitingFor 3)).isKeyReady = true := by
  obtain ⟨-, htouches, -⟩ := (pressedOnce 5).press_ends_wait_iff rfl (nextWord?_atWord 0xF30A)
    (by decide) (by decide)
  obtain ⟨hready, -⟩ := htouches [.reset, .update 7 true] _ rfl
  obtain ⟨hready', -⟩ := htouches [.reset, .update 7 true, .update 8 true] _ rfl
  exact ⟨Bool.eq_false_iff.mpr (mt hready.mp (by decide)), hready'.mpr (by decide)⟩

/-- A press during a wait, after a reset of the keypad, is lost if there has been a press before the
wait: the key is not ready, and the next step goes on waiting. -/
theorem press_lost_after_reset :
    (pressedOnce 5).step = .ok (.awaitingKey, (pressedOnce 5).waitingFor 3) ∧
    Touch.presses (pressedOnce 5).keypad.isHeld [.reset, .update 7 true] = [7] ∧
    (([.reset, .update 7 true] : List Touch).foldl touch
      ((pressedOnce 5).waitingFor 3)).isKeyReady = false ∧
    (([.reset, .update 7 true] : List Touch).foldl touch ((pressedOnce 5).waitingFor 3)).step =
      .ok (.awaitingKey, ([.reset, .update 7 true] : List Touch).foldl touch
        ((pressedOnce 5).waitingFor 3)) := by
  have hfresh : (([.reset, .update 7 true] : List Touch).foldl touch
      ((pressedOnce 5).waitingFor 3)).freshPress? = none :=
    ((pressedOnce 5).freshPress?_foldl_touch 3 _).trans (if_neg (by decide))
  have hw : (pressedOnce 5).nextWord? = some 0xF30A := nextWord?_atWord 0xF30A
  refine ⟨step_of_awaitKey rfl hw (by decide) (by decide), by decide, ?_,
    step_of_freshPress?_none rfl hfresh⟩
  rw [isKeyReady, hfresh]
  rfl

end Machine

end Chip8
