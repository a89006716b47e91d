import Chip8.Proofs.Execution.LatestPress
import Mathlib.Data.List.DropRight
import Mathlib.Data.Finset.Card
import Mathlib.Data.Finset.Max
import Mathlib.Data.Fintype.Basic

/-!
# What the keypad knows of its past

The keypad keeps which keys are held, a count and one key, and nothing else of what a host has done
to it.  A call can name a key by its index or by a name of the host's keyboard, and some of these
are no keys; what came before a reset is forgotten.  Here the three parts are told from the calls.

* `Call`, `callInPlace`: the calls, each carried out on one keypad, change after change.
* `callInPlace_eq`: **a call does what it is for, or it is refused and changes nothing.**
* `updatesSinceReset`: the updates that the calls since the latest reset have made.
* `latest?`, `IsPress`: the latest update of a key, and the updates that hold a key which the
  updates before them do not leave held.
* `Recalls.update`: **the keypad goes on to recall its past over one more update.**
* `keypad_recalls_history`: the same over all calls, and which calls are refused.
-/

namespace Chip8

namespace Keypad

/-! ### Calls -/

/-- What a host can ask of a keypad. -/
inductive Call
  | setKey (index : Int) (hold : Bool)
  | keyDown (name : String)
  | keyUp (name : String)
  | reset
  deriving DecidableEq

/-- The name of a key, in small letters or in capitals. -/
def IsNameOf (name : String) (key : Key) : Prop :=
  ∃ c, name.toList.map capital = [c] ∧ (c, key) ∈ keyNames

namespace Call

/-- The call names no key, and is refused with an error that repeats what it named. -/
inductive Refused : Call → Error → Prop
  | index {index : Int} {hold : Bool} (h : ¬ (0 ≤ index ∧ index < 16)) :
      Refused (setKey index hold) (.index index)
  | down {name : String} (h : ∀ key, ¬ IsNameOf name key) : Refused (keyDown name) (.name name)
  | up {name : String} (h : ∀ key, ¬ IsNameOf name key) : Refused (keyUp name) (.name name)

/-- What a call asks for: a key, if it names one, that is to be held or let go. -/
def request? : Call → Option (Except Error Key × Bool)
  | setKey index hold => some (keyOfIndex index, hold)
  | keyDown name => some (keyOfName name, true)
  | keyUp name => some (keyOfName name, false)
  | reset => none

/-- The update that a call makes, if it is not refused. -/
def update? (c : Call) : Option (Key × Bool) := do
  let (key, hold) ← c.request?
  return (← key.toOption, hold)

end Call

/-- A keypad that is changed in place, and keeps the changes made so far when a call is refused. -/
abbrev InPlace : Type → Type := ExceptT Error (StateM Keypad)

/-- Updates a key by its index, part after part. -/
def setKeyInPlace (index : Int) (hold : Bool) : InPlace Unit := do
  let key ← ofExcept (keyOfIndex index)
  let pad ← get
  if hold && !pad.isHeld key then
    modify fun pad => { pad with presses := pad.presses + 1 }
    modify fun pad => { pad with lastPress := some key }
  modify fun pad => { pad with held := pad.held.setIfInBounds key hold }

/-- Carries out a call in place. -/
def callInPlace : Call → InPlace Unit
  | .setKey index hold => setKeyInPlace index hold
  | .keyDown name => do
    let key ← ofExcept (keyOfName name)
    setKeyInPlace key.val true
  | .keyUp name => do
    let key ← ofExcept (keyOfName name)
    setKeyInPlace key.val false
  | .reset => do
    modify fun pad => { pad with held := Vector.replicate 16 false }
    modify fun pad => { pad with presses := 0 }
    modify fun pad => { pad with lastPress := none }

/-- What a call makes of a keypad. -/
def call (pad : Keypad) : Call → Except Error Keypad
  | .setKey index hold => pad.setKey index hold
  | .keyDown name => pad.keyDown name
  | .keyUp name => pad.keyUp name
  | .reset => .ok pad.reset

/-- The keypad after some calls.  One that is refused does not keep the next from being tried. -/
def after (pad : Keypad) (calls : List Call) : Keypad :=
  calls.foldl (fun pad call => ((callInPlace call).run.run pad).2) pad

variable {pad : Keypad} {c : Call} {calls : List Call} {key : Key} {hold : Bool} {index : Int}
  {name : String}

/-! ### Calls that are refused -/

theorem keyOfIndex_eq_error_iff {err : Error} :
    keyOfIndex index = .error err ↔ ¬ (0 ≤ index ∧ index < 16) ∧ err = .index index := by
  by_cases h : 0 ≤ index ∧ index < 16
  · rw [keyOfIndex, Word.nibble?, dif_pos h]
    simp [h]
  · rw [keyOfIndex, Word.nibble?, dif_neg h]
    simp [h, eq_comm]

theorem lookup_keyNames_iff {c : Char} : keyNames.lookup c = some key ↔ (c, key) ∈ keyNames := by
  constructor
  · intro h
    obtain ⟨before, after, hsplit, -⟩ := List.lookup_eq_some_iff.mp h
    rw [hsplit]
    exact List.mem_append_right before List.mem_cons_self
  · have hall : ∀ entry ∈ keyNames, keyNames.lookup entry.1 = some entry.2 := by decide
    exact fun h => hall (c, key) h

theorem keyOfName_eq_ok_iff : keyOfName name = .ok key ↔ IsNameOf name key := by
  unfold keyOfName IsNameOf
  split
  · next c hname =>
    rw [hname]
    simp only [List.map_cons, List.map_nil, List.cons.injEq, and_true, exists_eq_left',
      ← lookup_keyNames_iff]
    cases keyNames.lookup (capital c) <;> simp
  · next hname =>
    refine iff_of_false (by simp) ?_
    rintro ⟨c, hc, -⟩
    obtain ⟨c', hc', -⟩ := List.map_eq_singleton_iff.mp hc
    exact hname c' hc'

theorem keyOfName_eq_error_iff {err : Error} :
    keyOfName name = .error err ↔ (∀ key, ¬ IsNameOf name key) ∧ err = .name name := by
  simp only [← keyOfName_eq_ok_iff]
  unfold keyOfName
  split
  · split <;> simp [eq_comm]
  · simp [eq_comm]

/-- **The calls that are refused are those that name no key.** -/
theorem call_eq_error_iff (pad : Keypad) {err : Error} :
    pad.call c = .error err ↔ c.Refused err := by
  -- an update cannot be refused, so a call is refused just if its key is
  have hmap {x : Except Error Key} {hold : Bool} :
      x.map (pad.update · hold) = .error err ↔ x = .error err := by
    cases x <;> simp [Except.map]
  cases c with
  | setKey index hold =>
    rw [call, setKey, hmap, keyOfIndex_eq_error_iff]
    constructor
    · rintro ⟨h, rfl⟩
      exact .index h
    · intro h
      cases h with
      | index h => exact ⟨h, rfl⟩
  | keyDown name =>
    rw [call, keyDown, hmap, keyOfName_eq_error_iff]
    constructor
    · rintro ⟨h, rfl⟩
      exact .down h
    · intro h
      cases h with
      | down h => exact ⟨h, rfl⟩
  | keyUp name =>
    rw [call, keyUp, hmap, keyOfName_eq_error_iff]
    constructor
    · rintro ⟨h, rfl⟩
      exact .up h
    · intro h
      cases h with
      | up h => exact ⟨h, rfl⟩
  | reset =>
    constructor
    · intro h
      cases h
    · intro h
      cases h

/-! ### Calls in place -/

theorem setIfInBounds_of_lt {held : Vector Bool 16} {i : Nat} (hi : i < 16) (hold : Bool) :
    held.setIfInBounds i hold = held.set i hold hi := by
  refine Vector.ext fun j hj => ?_
  rw [Vector.getElem_setIfInBounds hj, Vector.getElem_set]

theorem run_setKeyInPlace_of_ok (h : keyOfIndex index = .ok key) (hold : Bool) :
    (setKeyInPlace index hold).run.run pad = (.ok (), pad.update key hold) := by
  unfold setKeyInPlace update isHeld
  simp only [← setIfInBounds_of_lt]
  rw [h]
  show (ite ((hold && !pad.held[key]) = true) (_ : InPlace Unit) _).run.run pad = _
  split
  · next hpress =>
    rw [Bool.and_eq_true] at hpress
    rw [hpress.1]
    rfl
  · rfl

theorem run_setKeyInPlace_of_error {err : Error} (h : keyOfIndex index = .error err)
    (hold : Bool) : (setKeyInPlace index hold).run.run pad = (.error err, pad) := by
  unfold setKeyInPlace
  rw [h]
  rfl

/-- **A call does what it is for, or it is refused and changes nothing.** -/
theorem callInPlace_eq (pad : Keypad) (c : Call) : (callInPlace c).run.run pad =
    match pad.call c with
    | .ok pad' => (.ok (), pad')
    | .error err => (.error err, pad) := by
  cases c with
  | setKey index hold =>
    rw [call, setKey]
    cases hkey : keyOfIndex index with
    | ok key => exact run_setKeyInPlace_of_ok hkey hold
    | error err => exact run_setKeyInPlace_of_error hkey hold
  | keyDown name =>
    show (ofExcept (keyOfName name) >>= fun key => setKeyInPlace key.val true).run.run pad = _
    rw [call, keyDown]
    cases keyOfName name with
    | ok key => exact run_setKeyInPlace_of_ok (keyOfIndex_val key) true
    | error err => rfl
  | keyUp name =>
    show (ofExcept (keyOfName name) >>= fun key => setKeyInPlace key.val false).run.run pad = _
    rw [call, keyUp]
    cases keyOfName name with
    | ok key => exact run_setKeyInPlace_of_ok (keyOfIndex_val key) false
    | error err => rfl
  | reset => rfl

theorem callInPlace_eq_error_iff {err : Error} :
    ((callInPlace c).run.run pad).1 = .error err ↔ c.Refused err := by
  rw [callInPlace_eq, ← pad.call_eq_error_iff]
  cases pad.call c with
  | ok pad' => exact iff_of_false nofun nofun
  | error err' =>
    show Except.error err' = Except.error err ↔ Except.error err' = Except.error err
    rw [Except.error.injEq, Except.error.injEq]

theorem run_callInPlace_of_refused {err : Error} (h : c.Refused err) :
    (callInPlace c).run.run pad = (.error err, pad) := by
  rw [callInPlace_eq, pad.call_eq_error_iff.mpr h]

/-! ### The history of updates -/

/-- The updates that some calls have made since the latest reset, the oldest first. -/
def updatesSinceReset (calls : List Call) : List (Key × Bool) :=
  (calls.rtakeWhile (· ≠ .reset)).filterMap Call.update?

/-- What the latest update of a key has said. -/
def latest? (updates : List (Key × Bool)) (key : Key) : Option Bool := updates.reverse.lookup key

/-- The update at a place says that a key is held which the updates before it do not leave held. -/
def IsPress (updates : List (Key × Bool)) (i : Nat) (key : Key) : Prop :=
  updates[i]? = some (key, true) ∧ latest? (updates.take i) key ≠ some true

instance (updates : List (Key × Bool)) (i : Nat) (key : Key) :
    Decidable (IsPress updates i key) := inferInstanceAs (Decidable (_ ∧ _))

/-- The places of the presses among some updates. -/
def pressPlaces (updates : List (Key × Bool)) : Finset Nat :=
  {i ∈ Finset.range updates.length | ∃ key, IsPress updates i key}

/-- No press among some updates comes after one of this key. -/
def IsLatestPress (updates : List (Key × Bool)) (key : Key) : Prop :=
  ∃ i, IsPress updates i key ∧ ∀ j other, IsPress updates j other → j ≤ i

variable {updates : List (Key × Bool)} {i : Nat} {other : Key}

theorem latest?_concat (updates : List (Key × Bool)) (key other : Key) (hold : Bool) :
    latest? (updates ++ [(key, hold)]) other =
      if other = key then some hold else latest? updates other := by
  rw [latest?, List.reverse_append, List.reverse_singleton, List.singleton_append,
    List.lookup_cons]
  by_cases h : other = key
  · rw [if_pos h, beq_iff_eq.mpr h]
  · rw [if_neg h, beq_false_of_ne h]
    rfl

theorem IsPress.lt_length (h : IsPress updates i key) : i < updates.length :=
  (List.getElem?_eq_some_iff.mp h.1).1

theorem mem_pressPlaces : i ∈ pressPlaces updates ↔ ∃ key, IsPress updates i key := by
  rw [pressPlaces, Finset.mem_filter, Finset.mem_range]
  exact ⟨And.right, fun ⟨key, h⟩ => ⟨h.lt_length, key, h⟩⟩

/-- One more update is one more press if it holds a key which was not held. -/
theorem isPress_concat : IsPress (updates ++ [(key, hold)]) i other ↔
    IsPress updates i other ∨
      i = updates.length ∧ other = key ∧ hold = true ∧ latest? updates key ≠ some true := by
  rcases Nat.lt_trichotomy i updates.length with h | rfl | h
  · rw [IsPress, List.getElem?_append_left h, List.take_append_of_le_length h.le]
    exact ⟨.inl, fun hpress => hpress.resolve_right fun ⟨heq, _⟩ => h.ne heq⟩
  · rw [IsPress, List.getElem?_concat_length, List.take_left]
    simp only [Option.some.injEq, Prod.mk.injEq, true_and]
    constructor
    · rintro ⟨⟨rfl, rfl⟩, hlatest⟩
      exact .inr ⟨rfl, rfl, hlatest⟩
    · rintro (hpress | ⟨rfl, rfl, hlatest⟩)
      · exact absurd hpress.lt_length (Nat.lt_irrefl _)
      · exact ⟨⟨rfl, rfl⟩, hlatest⟩
  · refine iff_of_false (fun hpress => ?_) ?_
    · have hlt := hpress.lt_length
      rw [List.length_append, List.length_singleton] at hlt
      omega
    · rintro (hpress | ⟨heq, -⟩)
      · exact absurd hpress.lt_length (by omega)
      · omega

theorem isPress_concat_of_press (h : latest? updates key ≠ some true) :
    IsPress (updates ++ [(key, true)]) i other ↔
      IsPress updates i other ∨ i = updates.length ∧ other = key := by
  rw [isPress_concat]
  simp only [h, ne_eq, not_false_eq_true, and_true]

theorem isPress_concat_of_not_press (h : ¬ (hold = true ∧ latest? updates key ≠ some true)) :
    IsPress (updates ++ [(key, hold)]) i other ↔ IsPress updates i other := by
  rw [isPress_concat]
  exact or_iff_left fun hpress => h hpress.2.2

theorem card_pressPlaces_concat (h : latest? updates key ≠ some true) :
    (pressPlaces (updates ++ [(key, true)])).card = (pressPlaces updates).card + 1 := by
  have hinsert : pressPlaces (updates ++ [(key, true)]) =
      insert updates.length (pressPlaces updates) := by
    ext i
    simp only [Finset.mem_insert, mem_pressPlaces, isPress_concat_of_press h, exists_or,
      exists_and_left, exists_eq, and_true]
    exact or_comm
  have hnew : updates.length ∉ pressPlaces updates := by
    rw [mem_pressPlaces]
    rintro ⟨other, hother⟩
    exact absurd hother.lt_length (Nat.lt_irrefl _)
  rw [hinsert, Finset.card_insert_of_notMem hnew]

theorem isLatestPress_concat (h : latest? updates key ≠ some true) :
    IsLatestPress (updates ++ [(key, true)]) other ↔ other = key := by
  have hlast : IsPress (updates ++ [(key, true)]) updates.length key :=
    (isPress_concat_of_press h).mpr (.inr ⟨rfl, rfl⟩)
  constructor
  · rintro ⟨i, hi, hmax⟩
    have hle := hmax updates.length key hlast
    rcases (isPress_concat_of_press h).mp hi with hi | ⟨-, heq⟩
    · exact absurd hi.lt_length (by omega)
    · exact heq
  · rintro rfl
    refine ⟨updates.length, hlast, fun j other hj => ?_⟩
    have hlt := hj.lt_length
    rw [List.length_append, List.length_singleton] at hlt
    omega

theorem exists_isLatestPress (h : IsPress updates i key) : ∃ key, IsLatestPress updates key := by
  have hne : (pressPlaces updates).Nonempty := ⟨i, mem_pressPlaces.mpr ⟨key, h⟩⟩
  obtain ⟨other, hother⟩ := mem_pressPlaces.mp ((pressPlaces updates).max'_mem hne)
  exact ⟨other, _, hother, fun j k hj => Finset.le_max' _ j (mem_pressPlaces.mpr ⟨k, hj⟩)⟩

/-! ### What is recalled -/

/-- The keypad knows of some updates which keys they leave held, how many presses were among them,
and of which key the latest press was. -/
structure Recalls (pad : Keypad) (updates : List (Key × Bool)) : Prop where
  held : ∀ key, pad.isHeld key = true ↔ latest? updates key = some true
  presses : pad.presses = (pressPlaces updates).card
  lastPress : ∀ key, pad.lastPress = some key ↔ IsLatestPress updates key

namespace Recalls

theorem reset (pad : Keypad) : pad.reset.Recalls [] where
  held := fun key => by
    rw [isHeld_reset]
    exact iff_of_false Bool.false_ne_true nofun
  presses := rfl
  lastPress := fun key => iff_of_false nofun fun ⟨_, h, _⟩ => by cases h.1

/-- **The keypad goes on to recall its past over one more update.** -/
theorem update (h : pad.Recalls updates) (key : Key) (hold : Bool) :
    (pad.update key hold).Recalls (updates ++ [(key, hold)]) := by
  have hheld : ∀ other, (pad.update key hold).isHeld other = true ↔
      latest? (updates ++ [(key, hold)]) other = some true := by
    intro other
    rw [isHeld, held_update, latest?_concat]
    split
    · rw [Option.some.injEq]
    · exact h.held other
  have hfree : pad.isHeld key = false ↔ latest? updates key ≠ some true := by
    rw [Ne, ← h.held, Bool.not_eq_true]
  -- a press adds a place and is the latest; any other update adds none
  by_cases hpress : hold = true ∧ pad.isHeld key = false
  · obtain ⟨hcount, hlast⟩ := update_of_press hpress
    obtain ⟨rfl, hkey⟩ := hpress
    refine ⟨hheld, ?_, fun other => ?_⟩
    · rw [hcount, card_pressPlaces_concat (hfree.mp hkey), h.presses]
    · rw [hlast, isLatestPress_concat (hfree.mp hkey), Option.some.injEq, eq_comm]
  · obtain ⟨hcount, hlast⟩ := update_of_not_press hpress
    rw [hfree] at hpress
    refine ⟨hheld, ?_, fun other => ?_⟩
    · rw [hcount, h.presses]
      congr 1
      ext i
      simp only [mem_pressPlaces, isPress_concat_of_not_press hpress]
    · rw [hlast, h.lastPress]
      simp only [IsLatestPress, isPress_concat_of_not_press hpress]

end Recalls

/-! ### All calls -/

theorem updatesSinceReset_reset (calls : List Call) :
    updatesSinceReset (calls ++ [.reset]) = [] := by
  rw [updatesSinceReset, List.rtakeWhile_concat_neg (· ≠ Call.reset) calls Call.reset (by decide)]
  rfl

theorem updatesSinceReset_concat (calls : List Call) (hc : c ≠ .reset) :
    updatesSinceReset (calls ++ [c]) = updatesSinceReset calls ++ c.update?.toList := by
  rw [updatesSinceReset, List.rtakeWhile_concat_pos (· ≠ Call.reset) calls c (decide_eq_true hc),
    List.filterMap_append]
  cases h : c.update? <;> simp [h, updatesSinceReset]

/-- A call that names a key updates it, and any other one is a reset. -/
theorem call_eq (pad : Keypad) (c : Call) : pad.call c =
    match c.request? with
    | some (key, hold) => key.map (pad.update · hold)
    | none => .ok pad.reset := by
  cases c <;> rfl

theorem Call.request?_ne_none (hc : c ≠ .reset) : c.request? ≠ none := by
  cases c with
  | reset => exact absurd rfl hc
  | _ => exact nofun

/-- **One more call either makes one more update, or is refused and makes none.** -/
theorem call_cases (pad : Keypad) (hc : c ≠ .reset) :
    (∃ key hold, c.update? = some (key, hold) ∧ pad.call c = .ok (pad.update key hold)) ∨
      ∃ err, c.update? = none ∧ pad.call c = .error err := by
  rw [call_eq, Call.update?]
  obtain ⟨⟨named, hold⟩, hrequest⟩ := Option.ne_none_iff_exists'.mp (Call.request?_ne_none hc)
  rw [hrequest]
  cases named with
  | ok key => exact .inl ⟨key, hold, rfl, rfl⟩
  | error err => exact .inr ⟨err, rfl, rfl⟩

theorem after_concat (pad : Keypad) (calls : List Call) (c : Call) :
    pad.after (calls ++ [c]) = ((callInPlace c).run.run (pad.after calls)).2 := by
  rw [after, List.foldl_concat]
  rfl

/-- **After any calls the keypad recalls the updates since the latest reset.** -/
theorem recalls_after (calls : List Call) :
    (released.after calls).Recalls (updatesSinceReset calls) := by
  induction calls using List.reverseRecOn with
  | nil => exact Recalls.reset released
  | append_singleton calls c ih =>
    rw [after_concat, callInPlace_eq]
    by_cases hc : c = .reset
    · rw [hc, updatesSinceReset_reset]
      exact Recalls.reset (released.after calls)
    · rw [updatesSinceReset_concat calls hc]
      rcases call_cases (released.after calls) hc with
        ⟨key, hold, hupdate, hcall⟩ | ⟨err, hupdate, hcall⟩
      · rw [hupdate, hcall]
        exact ih.update key hold
      · rw [hupdate, hcall, Option.toList_none, List.append_nil]
        exact ih

/-- **What the keypad knows of its past.**  Of the updates that any calls have made since the latest
reset it lists the keys that they leave held in increasing order, counts the presses, and keeps the
key of the latest press, or none if there was no press.  A call that names no key is refused, with
an error that repeats what it named, and changes nothing; no other call is refused. -/
theorem keypad_recalls_history (calls : List Call) :
    (released.after calls).pressedKeys.Pairwise (· < ·) ∧
    (∀ key, key ∈ (released.after calls).pressedKeys ↔
      latest? (updatesSinceReset calls) key = some true) ∧
    (released.after calls).presses = (pressPlaces (updatesSinceReset calls)).card ∧
    (∀ key, (released.after calls).lastPress = some key ↔
      IsLatestPress (updatesSinceReset calls) key) ∧
    ((released.after calls).lastPress = none ↔
      ∀ i key, ¬ IsPress (updatesSinceReset calls) i key) ∧
    ∀ c err, (((callInPlace c).run.run (released.after calls)).1 = .error err ↔ c.Refused err) ∧
      (c.Refused err →
        (callInPlace c).run.run (released.after calls) = (.error err, released.after calls)) := by
  have hrecalls := recalls_after calls
  refine ⟨(List.pairwise_lt_finRange 16).filter _, fun key => ?_, hrecalls.presses,
    hrecalls.lastPress, ?_, fun c err =>
    ⟨callInPlace_eq_error_iff, run_callInPlace_of_refused⟩⟩
  · rw [pressedKeys, List.mem_filter, hrecalls.held]
    exact and_iff_right (List.mem_finRange key)
  · constructor
    · intro hnone i key hpress
      obtain ⟨last, hlast⟩ := exists_isLatestPress hpress
      rw [(hrecalls.lastPress last).mpr hlast] at hnone
      exact nomatch hnone
    · intro hpress
      rw [Option.eq_none_iff_forall_ne_some]
      intro key hkey
      obtain ⟨i, hi, -⟩ := (hrecalls.lastPress key).mp hkey
      exact hpress i key hi

/-- Calls with a repetition, a reset, and one key each that is unknown and out of range. -/
def playing : List Call :=
  [.keyDown "q", .reset, .setKey 5 true, .keyDown "up", .keyDown "1", .keyDown "1", .keyUp "w",
    .setKey 16 true, .setKey 10 true, .setKey 10 false]

theorem updatesSinceReset_playing : updatesSinceReset playing =
    [(5, true), (1, true), (1, true), (5, false), (10, true), (10, false)] := by
  decide

/-- Of these the keypad knows that `1` is held, and `A` was the third and latest press. -/
theorem keypad_recalls_history_playing :
    (∀ key, key ∈ (released.after playing).pressedKeys ↔ key = 1) ∧
    (released.after playing).presses = 3 ∧ (released.after playing).lastPress = some 10 ∧
    (callInPlace (.setKey 16 true)).run.run (released.after playing) =
      (.error (.index 16), released.after playing) ∧
    (callInPlace (.keyDown "up")).run.run (released.after playing) =
      (.error (.name "up"), released.after playing) := by
  obtain ⟨-, hheld, hcount, hlast, -, hrefused⟩ := keypad_recalls_history playing
  rw [updatesSinceReset_playing] at hheld hcount hlast
  refine ⟨fun key => ?_, hcount.trans (by decide), (hlast 10).mpr ⟨4, by decide, ?_⟩,
    (hrefused _ _).2 (.index (by decide)), (hrefused _ _).2 (.down ?_)⟩
  · rw [hheld]
    revert key
    decide
  · intro j other hpress
    have hlt := hpress.lt_length
    have hall : ∀ j < 6, ∀ other, IsPress [(5, true), (1, true), (1, true), (5, false), (10, true),
      (10, false)] j other → j ≤ 4 := by decide
    exact hall j hlt other hpress
  · rintro key ⟨c, hc, -⟩
    have hlen : ("up".toList.map capital).length = 2 := by decide
    rw [hc] at hlen
    exact nomatch hlen

end Keypad

end Chip8
