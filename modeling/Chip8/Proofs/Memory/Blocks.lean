import Chip8.Memory.Font
import Mathlib.Tactic.Common

/-!
# Blocks of memory

A host asks for a block by its address and its length, both of them integers of any size.  The check
before a read looks at where the block starts and at where it ends, and a length below zero puts the
end before the start.  Such a block is empty, as it should be, as long as its end is not below zero.
An end below zero counts from the top of memory, and the host is handed the bytes from the address
up to there, which it never asked for.

* `Memory.block`: the bytes of a stretch of memory, one after the other.
* `Memory.blockCount`: how many bytes are read for an address and a length.
* `readBlock_eq`: **a read gives so many bytes from the address on, or refuses the range.**
* `Memory.AsAsked`: the answer is the block that was asked for, or a refusal.
* `asAsked_readBlock_iff`: which reads are answered so.
-/

namespace Chip8

namespace Memory

/-! ### Stretches of memory -/

/-- The bytes from an address on. -/
def block (m : Memory) (address count : Nat) : List UInt8 :=
  (List.range count).map fun k => m.byteAt (address + k)

theorem length_block (m : Memory) (address count : Nat) :
    (m.block address count).length = count := by
  rw [block, List.length_map, List.length_range]

theorem getElem?_block_eq_some_iff {m : Memory} {address count k : Nat} {b : UInt8} :
    (m.block address count)[k]? = some b ↔ k < count ∧ b = m.byteAt (address + k) := by
  by_cases hk : k < count
  · rw [block, List.getElem?_map, List.getElem?_range hk, Option.map_some, Option.some_inj]
    exact ⟨fun h => ⟨hk, h.symm⟩, fun h => h.2.symm⟩
  · rw [List.getElem?_eq_none (by rw [length_block]; omega)]
    exact iff_of_false (fun h => nomatch h) (fun h => hk h.1)

theorem byteAt_overwrite_of_getElem? (m : Memory) {a k : Nat} {bytes : List UInt8} {b : UInt8}
    (h : a + bytes.length ≤ 4096) (hb : bytes[k]? = some b) :
    (m.overwrite a bytes).byteAt (a + k) = b := by
  have hk : k < bytes.length := (List.getElem?_eq_some_iff.mp hb).1
  rw [byteAt_overwrite _ _ _ _ (by omega), if_pos (by omega), Nat.add_sub_cancel_left,
    List.getD_eq_getElem?_getD, hb, Option.getD_some]

theorem length_slice (m : Memory) (start : Nat) {stop : Nat} (h : stop ≤ 4096) :
    (m.slice start stop).length = stop - start := by
  rw [slice, Array.length_toList, Array.size_extract, Vector.size_toArray, Nat.min_eq_left h]

/-- A slice that ends in memory holds the bytes from its start on; if it ends before its start, it
holds none. -/
theorem slice_eq_block (m : Memory) (start : Nat) {stop : Nat} (h : stop ≤ 4096) :
    m.slice start stop = m.block start (stop - start) := by
  have hlength := m.length_slice start h
  refine List.ext_getElem (by rw [hlength, length_block]) fun k hk _ => ?_
  rw [hlength] at hk
  simp only [block, List.getElem_map, List.getElem_range]
  rw [byteAt_of_lt m (by omega)]
  simp [slice]

/-! ### What is read -/

/-- How many bytes are read for an address and a length.  A length below zero reads nothing, unless
the block also ends below zero. -/
def blockCount (address length : Int) : Nat :=
  if 0 ≤ length then length.toNat
  else if 0 ≤ address + length then 0
  else (4096 + length).toNat

/-- **A read gives the bytes from its address on, or refuses the range.** -/
theorem readBlock_eq (m : Memory) (address length : Int) :
    m.readBlock address length =
      if InRange address length then .ok (m.block address.toNat (blockCount address length))
      else .error (.memoryOutOfRange address length) := by
  by_cases hrange : InRange address length
  · have ⟨haddress, hstop⟩ := hrange
    have hend : blockEnd (address + length) ≤ 4096 := by
      rw [blockEnd]
      split <;> omega
    have hcount : blockEnd (address + length) - address.toNat = blockCount address length := by
      rw [blockEnd, blockCount]
      split <;> split <;> first | omega | (split <;> omega)
    rw [readBlock, if_pos hrange, if_pos hrange, slice_eq_block m _ hend, hcount]
  · rw [readBlock, if_neg hrange, if_neg hrange]

/-- The answer to a read is what was asked for: a refusal of the range, or exactly as many bytes as
the length says, and none for a length below zero, each of them the byte at its own address. -/
def AsAsked (m : Memory) (address length : Int) (answer : Except Cause (List UInt8)) : Prop :=
  answer = .error (.memoryOutOfRange address length) ∨
    ∃ bytes, answer = .ok bytes ∧ (bytes.length : Int) = max length 0 ∧
      ∀ (k : Nat) (b : UInt8), bytes[k]? = some b →
        InRange (address + k) 1 ∧ b = m.byteAt (address + k).toNat

theorem asAsked_block_iff {m : Memory} {address length : Int} {count : Nat}
    (haddress : 0 ≤ address) (hinside : ∀ k : Nat, k < count → address + k < 4096) :
    m.AsAsked address length (.ok (m.block address.toNat count)) ↔
      (count : Int) = max length 0 := by
  constructor
  · rintro (h | ⟨bytes, h, hlength, -⟩)
    · cases h
    · cases h
      rwa [length_block] at hlength
  · intro hcount
    refine .inr ⟨_, rfl, by rwa [length_block], fun k b hb => ?_⟩
    obtain ⟨hk, rfl⟩ := getElem?_block_eq_some_iff.mp hb
    have := hinside k hk
    refine ⟨by unfold InRange; omega, ?_⟩
    rw [Int.toNat_add haddress (by omega), Int.toNat_natCast]

/-- All reads are answered as they were asked, but for those from inside memory that end below zero
and less than 4096 bytes before they start. -/
theorem asAsked_readBlock_iff (m : Memory) (address length : Int) :
    m.AsAsked address length (m.readBlock address length) ↔
      ¬ (0 ≤ address ∧ address + length < 0 ∧ -4096 < length) := by
  rw [readBlock_eq]
  by_cases hrange : InRange address length
  · have ⟨haddress, hstop⟩ := hrange
    have hinside (k : Nat) (hk : k < blockCount address length) : address + k < 4096 := by
      rw [blockCount] at hk
      split at hk
      · omega
      · split at hk <;> omega
    rw [if_pos hrange, asAsked_block_iff haddress hinside, blockCount]
    split
    · omega
    · split <;> omega
  · rw [if_neg hrange]
    unfold InRange at hrange
    exact iff_of_true (.inl rfl) (by omega)

/-- **Which blocks are read as they were asked for.**  A read refuses its range exactly if it starts
below zero or ends beyond memory.  Otherwise it gives the bytes that were asked for, or none for a
length below zero; but a block that ends below zero has `4096 + length` bytes, as far as that is
above zero, and these the host did not ask for. -/
theorem readBlock_answers (m : Memory) (address length : Int) :
    (m.readBlock address length = .error (.memoryOutOfRange address length) ↔
      address < 0 ∨ 4096 < address + length) ∧
    (∀ bytes, m.readBlock address length = .ok bytes ↔
      InRange address length ∧ bytes = m.block address.toNat (blockCount address length)) ∧
    (m.AsAsked address length (m.readBlock address length) ↔
      ¬ (0 ≤ address ∧ address + length < 0 ∧ -4096 < length)) := by
  refine ⟨?_, fun bytes => ?_, m.asAsked_readBlock_iff address length⟩
  · rw [readBlock_eq]
    by_cases hrange : InRange address length
    · rw [if_pos hrange]
      unfold InRange at hrange
      exact iff_of_false (fun h => nomatch h) (by omega)
    · rw [if_neg hrange]
      unfold InRange at hrange
      exact iff_of_true rfl (by omega)
  · rw [readBlock_eq]
    by_cases hrange : InRange address length
    · rw [if_pos hrange, Except.ok.injEq, eq_comm]
      exact (and_iff_right hrange).symm
    · rw [if_neg hrange]
      exact iff_of_false (fun h => nomatch h) (fun h => hrange h.1)

/-- Two bytes fewer than none, from address `1` on, are 4094 bytes. -/
theorem readBlock_backwards :
    ¬ fresh.AsAsked 1 (-2) (fresh.readBlock 1 (-2)) ∧
      ∃ bytes, fresh.readBlock 1 (-2) = .ok bytes ∧ bytes.length = 4094 := by
  refine ⟨mt (asAsked_readBlock_iff fresh 1 (-2)).mp (by decide), _, ?_, length_block fresh 1 4094⟩
  exact readBlock_eq fresh 1 (-2)

end Memory

end Chip8
