import Chip8.Proofs.Memory.Blocks

/-!
# Memory is a map

Whatever is done to memory, it stays a map from 4096 addresses to bytes.  An update is accepted as a
whole or refused as a whole, by its address and its length alone.  An accepted one replaces a
stretch of memory by as many bytes, so that nothing beside the stretch moves; a refused one changes
nothing.  So an address holds what the last accepted update put there that reached it.

* `Memory.Update`: the ways to change memory, each with its address and its values.
* `Memory.Update.refusal?`: why an update is refused, if it is.
* `apply_eq`: **an update is refused for just that reason, and otherwise overwrites its stretch.**
* `Memory.spliced`: what assigning a slice does to a store that might grow, and
  `toList_overwrite`: on memory it is the same.
* `Memory.held`: the byte at an address by the history of updates.
* `byteAt_foldl_updated`: **it is the one that memory holds.**
* `refines_a_map`: all of this, and what is read.
-/

namespace Chip8

namespace Memory

/-- A change of memory. -/
inductive Update
  | write (address value : Int)
  | writeBlock (address : Int) (values : List Int)
  | loadProgram (data : List UInt8) (address : Int)
  | loadFont
  | clear

namespace Update

/-- Where the first value of an update goes. -/
def address : Update → Int
  | write address _ => address
  | writeBlock address _ => address
  | loadProgram _ address => address
  | loadFont => Font.address
  | clear => 0

/-- The values of an update in the order of their addresses.  To clear memory is to put zeros and
the font everywhere. -/
def values : Update → List Int
  | write _ value => [value]
  | writeBlock _ values => values
  | loadProgram data _ => data.map fun b => (b.toNat : Int)
  | loadFont => Font.sprites.map fun b => (b.toNat : Int)
  | clear => (fresh.block 0 4096).map fun b => (b.toNat : Int)

/-- The values, each by its low eight bits. -/
def bytes (u : Update) : List UInt8 := u.values.map UInt8.ofInt

/-- A range that reaches outside memory is refused. -/
def outOfRange? (address length : Int) : Option Error :=
  if address < 0 ∨ 4096 < address + length then
    some (.execution { cause := .memoryOutOfRange address length })
  else none

/-- Why an update is refused, if it is.  A program needs an address in memory, even if it is empty,
and then room for all of its bytes. -/
def refusal? : Update → Option Error
  | write address _ => outOfRange? address 1
  | writeBlock address values => outOfRange? address values.length
  | loadProgram data address =>
    if address < 0 ∨ 4096 ≤ address then
      some (.execution { cause := .memoryOutOfRange address (max data.length 1) })
    else if 4096 < address + data.length then some (.loadTooLarge data.length (4096 - address))
    else none
  | loadFont => none
  | clear => none

def isAccepted (u : Update) : Bool := u.refusal?.isNone

/-- The value that an update has for an address, if it reaches it. -/
def valueAt? (a : Nat) (u : Update) : Option Int :=
  if u.address ≤ a then u.values[(a - u.address).toNat]? else none

/-- The last value for an address among the updates that are accepted. -/
def latest? (updates : List Update) (a : Nat) : Option Int :=
  ((updates.filter isAccepted).filterMap (valueAt? a)).getLast?

end Update

def apply (m : Memory) : Update → Except Error Memory
  | .write address value => (m.write address value).mapError fun cause => .execution { cause }
  | .writeBlock address values =>
    (m.writeBlock address values).mapError fun cause => .execution { cause }
  | .loadProgram data address => m.loadProgram data address
  | .loadFont => .ok m.loadFont
  | .clear => .ok m.clear

/-- Memory after an update, accepted or not. -/
def updated (m : Memory) (u : Update) : Memory := (m.apply u).toOption.getD m

variable {m : Memory} {u : Update} {e : Error}

/-! ### What is accepted -/

theorem bytes_of_bytes (bytes : List UInt8) :
    (bytes.map fun b => (b.toNat : Int)).map UInt8.ofInt = bytes := by
  rw [List.map_map]
  exact (List.map_congr_left fun b _ => Word.ofInt_toNat b).trans (List.map_id _)

theorem Update.outOfRange?_eq_none_iff {address length : Int} :
    outOfRange? address length = none ↔ InRange address length := by
  rw [outOfRange?]
  unfold InRange
  split
  · exact iff_of_false (fun h => nomatch h) (by omega)
  · exact iff_of_true rfl (by omega)

theorem apply_writeBlock (m : Memory) (address : Int) (values : List Int) :
    m.apply (.writeBlock address values) =
      match Update.outOfRange? address values.length with
      | none => .ok (m.overwrite address.toNat (values.map UInt8.ofInt))
      | some e => .error e := by
  rw [apply, writeBlock, writeBytes, List.length_map]
  by_cases hrange : InRange address values.length
  · rw [if_pos hrange, Update.outOfRange?_eq_none_iff.mpr hrange]
    rfl
  · have houtside : address < 0 ∨ 4096 < address + values.length := by
      unfold InRange at hrange
      omega
    rw [if_neg hrange, Update.outOfRange?, if_pos houtside]
    rfl

theorem overwrite_block (m m' : Memory) : m.overwrite 0 (m'.block 0 4096) = m' := by
  refine ext_byteAt fun a ha => ?_
  have hbyte : (m'.block 0 4096)[a]? = some (m'.byteAt (0 + a)) :=
    getElem?_block_eq_some_iff.mpr ⟨ha, rfl⟩
  rw [byteAt_overwrite _ _ _ _ ha, if_pos (by rw [length_block]; omega), Nat.sub_zero,
    List.getD_eq_getElem?_getD, hbyte, Option.getD_some, Nat.zero_add]

/-- **An update is refused for the one reason that it has, and otherwise overwrites its stretch of
memory.** -/
theorem apply_eq (m : Memory) (u : Update) :
    m.apply u =
      match u.refusal? with
      | none => .ok (m.overwrite u.address.toNat u.bytes)
      | some e => .error e := by
  cases u with
  | write address value => exact m.apply_writeBlock address [value]
  | writeBlock address values => exact m.apply_writeBlock address values
  | loadProgram data address =>
    rw [apply, loadProgram, Update.refusal?, Update.bytes, Update.values, bytes_of_bytes]
    by_cases haddress : 0 ≤ address ∧ address < 4096
    · have hinside : ¬ (address < 0 ∨ 4096 ≤ address) := by omega
      rw [if_pos haddress, if_neg hinside]
      by_cases hfits : (data.length : Int) ≤ 4096 - address
      · have hroom : ¬ 4096 < address + data.length := by omega
        rw [if_pos hfits, if_neg hroom]
        rfl
      · have hlarge : 4096 < address + data.length := by omega
        rw [if_neg hfits, if_pos hlarge]
    · have houtside : address < 0 ∨ 4096 ≤ address := by omega
      rw [if_neg haddress, if_pos houtside]
  | loadFont => rw [apply, loadFont, Update.bytes, Update.values, bytes_of_bytes]; rfl
  | clear =>
    rw [apply, Update.bytes, Update.values, bytes_of_bytes]
    exact congrArg Except.ok (overwrite_block m fresh).symm

theorem inRange_of_accepted (h : u.refusal? = none) : InRange u.address u.values.length := by
  cases u with
  | write address value => exact Update.outOfRange?_eq_none_iff.mp h
  | writeBlock address values => exact Update.outOfRange?_eq_none_iff.mp h
  | loadProgram data address =>
    rw [Update.refusal?] at h
    split at h
    · cases h
    split at h
    · cases h
    rw [Update.address, Update.values, List.length_map]
    unfold InRange
    omega
  | loadFont => rw [Update.values, List.length_map]; decide
  | clear => rw [Update.values, List.length_map, length_block]; decide

theorem updated_eq (m : Memory) (u : Update) :
    m.updated u =
      if u.isAccepted then m.overwrite u.address.toNat u.bytes else m := by
  rw [updated, apply_eq, Update.isAccepted]
  cases u.refusal? with
  | none => rfl
  | some e => rfl

/-! ### Nothing moves -/

/-- The bytes of memory with a slice of them assigned anew.  A store that can grow would look like
this afterwards, however long the slice and whatever stands in its place. -/
def spliced (m : Memory) (address : Nat) (bytes : List UInt8) : List UInt8 :=
  m.bytes.toList.take address ++ bytes ++ m.bytes.toList.drop (address + bytes.length)

theorem getElem?_toList (m : Memory) {a : Nat} (ha : a < 4096) :
    m.bytes.toList[a]? = some (m.byteAt a) := by
  rw [byteAt_of_lt m ha]
  simp [ha]

/-- **In memory nothing moves:** the new bytes take the place of as many old ones. -/
theorem toList_overwrite (m : Memory) {address : Nat} {bytes : List UInt8}
    (h : address + bytes.length ≤ 4096) :
    (m.overwrite address bytes).bytes.toList = m.spliced address bytes := by
  have htake : (m.bytes.toList.take address).length = address := by
    rw [List.length_take, Vector.length_toList]
    omega
  have hlength : (m.spliced address bytes).length = 4096 := by
    simp only [spliced, List.length_append, List.length_drop, Vector.length_toList, htake]
    omega
  refine List.ext_getElem? fun a => ?_
  by_cases ha : a < 4096
  · rw [getElem?_toList _ ha, byteAt_overwrite _ _ _ _ ha, spliced]
    by_cases hbefore : a < address
    · rw [if_neg (by omega), List.append_assoc, List.getElem?_append_left (by omega),
        List.getElem?_take_of_lt hbefore, getElem?_toList m ha]
    · by_cases hinside : a < address + bytes.length
      · rw [if_pos ⟨by omega, hinside⟩, List.append_assoc, List.getElem?_append_right (by omega),
          htake, List.getElem?_append_left (by omega), List.getD_eq_getElem?_getD,
          List.getElem?_eq_getElem (by omega), Option.getD_some]
      · have hplace : address + bytes.length + (a - (address + bytes.length)) = a := by omega
        rw [if_neg (by omega), List.getElem?_append_right (by rw [List.length_append]; omega),
          List.length_append, htake, List.getElem?_drop, hplace, getElem?_toList m ha]
  · rw [List.getElem?_eq_none (by rw [Vector.length_toList]; omega),
      List.getElem?_eq_none (by omega)]

/-! ### The history of an address -/

/-- The byte that memory is to hold at an address after some updates: the last value that was put
there, modulo 256, and what it holds now if there is none. -/
def held (m : Memory) (updates : List Update) (a : Nat) : UInt8 :=
  ((Update.latest? updates a).map UInt8.ofInt).getD (m.byteAt a)

/-- An accepted update leaves its value where it has one, and everything else as it was. -/
theorem byteAt_overwrite_bytes (m : Memory) (h : u.refusal? = none) {a : Nat} (ha : a < 4096) :
    (m.overwrite u.address.toNat u.bytes).byteAt a =
      ((u.valueAt? a).map UInt8.ofInt).getD (m.byteAt a) := by
  obtain ⟨haddress, -⟩ := inRange_of_accepted h
  rw [byteAt_overwrite _ _ _ _ ha, Update.valueAt?, Update.bytes, List.length_map]
  by_cases hstart : u.address ≤ a
  · have hplace : ((a : Int) - u.address).toNat = a - u.address.toNat := by omega
    rw [if_pos hstart, hplace, List.getD_eq_getElem?_getD, List.getElem?_map]
    by_cases hinside : a < u.address.toNat + u.values.length
    · rw [if_pos ⟨by omega, hinside⟩, List.getElem?_eq_getElem (by omega)]
      rfl
    · rw [if_neg (by omega), List.getElem?_eq_none (by omega)]
      rfl
  · rw [if_neg hstart, if_neg (by omega)]
    rfl

theorem latest?_cons (u : Update) (updates : List Update) (a : Nat) :
    Update.latest? (u :: updates) a =
      (Update.latest? updates a).or (if u.isAccepted then u.valueAt? a else none) := by
  rw [Update.latest?, Update.latest?]
  by_cases h : u.isAccepted = true
  · rw [List.filter_cons_of_pos h, if_pos h]
    cases hvalue : u.valueAt? a with
    | none => rw [List.filterMap_cons_none hvalue, Option.or_none]
    | some v => rw [List.filterMap_cons_some hvalue, List.getLast?_cons, Option.or_some]
  · rw [List.filter_cons_of_neg h, if_neg h, Option.or_none]

theorem held_cons (m : Memory) (u : Update) (updates : List Update) {a : Nat} (ha : a < 4096) :
    m.held (u :: updates) a = (m.updated u).held updates a := by
  rw [held, held, latest?_cons, updated_eq]
  cases Update.latest? updates a with
  | some v => rfl
  | none =>
    rw [Option.none_or, Option.map_none, Option.getD_none]
    split
    · next h => exact (m.byteAt_overwrite_bytes (Option.isNone_iff_eq_none.mp h) ha).symm
    · rfl

/-- **Memory holds what was put there last.** -/
theorem byteAt_foldl_updated (m : Memory) (updates : List Update) {a : Nat} (ha : a < 4096) :
    (updates.foldl updated m).byteAt a = m.held updates a := by
  induction updates generalizing m with
  | nil => rfl
  | cons u updates ih => rw [List.foldl_cons, ih, held_cons m u updates ha]

/-! ### Reads -/

/-- The answer to a read of a range, by its address and its length: a value, or a refusal if the
range reaches outside memory. -/
def ranged {α : Type} (address length : Int) (value : α) : Except Cause α :=
  if address < 0 ∨ 4096 < address + length then .error (.memoryOutOfRange address length)
  else .ok value

theorem ranged_eq_ite {α : Type} (address length : Int) (value : α) :
    ranged address length value =
      if InRange address length then .ok value else .error (.memoryOutOfRange address length) := by
  rw [ranged]
  by_cases h : InRange address length
  · rw [if_pos h, if_neg (by unfold InRange at h; omega)]
  · rw [if_neg h, if_pos (by unfold InRange at h; omega)]

theorem ranged_congr {α : Type} {address length : Int} {value value' : α}
    (h : InRange address length → value = value') :
    ranged address length value = ranged address length value' := by
  rw [ranged_eq_ite, ranged_eq_ite]
  split
  · next hrange => rw [h hrange]
  · rfl

theorem read_eq (m : Memory) (address : Int) :
    m.read address = ranged address 1 (m.byteAt address.toNat) := (ranged_eq_ite ..).symm

theorem readWord_eq (m : Memory) (address : Int) :
    m.readWord address =
      ranged address 2
        (Word.ofBytes (m.byteAt address.toNat) (m.byteAt (address.toNat + 1))) :=
  (ranged_eq_ite ..).symm

theorem readBlock_natCast (m : Memory) (address : Int) (n : Nat) :
    m.readBlock address n = ranged address n (m.block address.toNat n) := by
  rw [readBlock_eq, ranged_eq_ite, blockCount, if_pos (Int.natCast_nonneg n), Int.toNat_natCast]

/-- **Memory is a map with updates that are made as a whole or not at all.**  After any updates,
every address holds the last value that an accepted one had for it, modulo 256.  An update is
refused for its range or its length alone, and then no byte changes.  Bytes, words and blocks are
read as the map has them. -/
theorem refines_a_map (m : Memory) (updates : List Update) :
    (∀ a : Address, (updates.foldl updated m).byteAt a = m.held updates a ∧
      ((m.held updates a).toNat : Int) =
        (Update.latest? updates a).elim ((m.byteAt a).toNat : Int) (· % 256)) ∧
    (∀ u : Update,
      (∀ e, (updates.foldl updated m).apply u = .error e ↔ u.refusal? = some e) ∧
      ((updates.foldl updated m).updated u).bytes.toList =
        if u.isAccepted then (updates.foldl updated m).spliced u.address.toNat u.bytes
        else (updates.foldl updated m).bytes.toList) ∧
    (∀ address : Int,
      (updates.foldl updated m).read address =
        ranged address 1 (m.held updates address.toNat) ∧
      (updates.foldl updated m).readWord address =
        ranged address 2
          (Word.ofBytes (m.held updates address.toNat) (m.held updates (address.toNat + 1))) ∧
      ∀ n : Nat, (updates.foldl updated m).readBlock address n =
        ranged address n ((List.range n).map fun k => m.held updates (address.toNat + k))) := by
  refine ⟨fun a => ⟨m.byteAt_foldl_updated updates a.isLt, ?_⟩, fun u => ⟨fun e => ?_, ?_⟩,
    fun address => ⟨?_, ?_, fun n => ?_⟩⟩
  · rw [held]
    cases Update.latest? updates a with
    | none => rfl
    | some v => exact Word.toNat_ofInt v
  · rw [apply_eq]
    cases u.refusal? with
    | none => exact iff_of_false (fun h => nomatch h) (fun h => nomatch h)
    | some reason => rw [Except.error.injEq, Option.some_inj]
  · rw [updated_eq]
    split
    · next h =>
      have ⟨haddress, hstop⟩ := inRange_of_accepted (Option.isNone_iff_eq_none.mp h)
      exact toList_overwrite _ (by rw [Update.bytes, List.length_map]; omega)
    · rfl
  · rw [read_eq]
    refine ranged_congr fun ⟨haddress, hstop⟩ => ?_
    exact m.byteAt_foldl_updated updates (by omega)
  · rw [readWord_eq]
    refine ranged_congr fun ⟨haddress, hstop⟩ => ?_
    rw [m.byteAt_foldl_updated updates (by omega), m.byteAt_foldl_updated updates (by omega)]
  · rw [readBlock_natCast]
    refine ranged_congr fun ⟨haddress, hstop⟩ => List.map_congr_left fun k hk => ?_
    have := List.mem_range.mp hk
    exact m.byteAt_foldl_updated updates (by omega)

/-- The second write reaches into the block, and the block at the end of memory does not fit. -/
example :
    fresh.held [.writeBlock 0x300 [1, 2], .write 0x301 0x1FE, .writeBlock 0xFFF [3, 4]] 0x301 =
      0xFE := by
  decide

end Memory

end Chip8
