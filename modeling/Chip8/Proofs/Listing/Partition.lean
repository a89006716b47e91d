import Chip8.Listing.Sweep
import Mathlib.Tactic.Common

/-!
# Listings partition a program

A listing takes a program apart and loses nothing: its lines stand one behind the other, they have
two bytes each, but for a single byte at the end of a program of odd length, and all their bytes in
turn are the program.

The lines can be made one at a time, each at the offset where the one before it ends, until the
program ends or there are as many as were asked for.  A line has one byte at least, so this comes to
an end, and no offset on the way lies outside the program.  What it gives are the first lines of the
listing.

* `Listing.collect`: the lines, made one at a time.
* `entryAt_eq`: a line at an offset is the first of what is left there.
* `collect_eq`: **lines made one at a time are those of the listing.**
* `Listing.Contiguous`: every line has the address where the one before it ends.
* `sweep_append`: **a program may be listed in two parts**, if the first is of even length.
* `listing_partitions_program`: all of this.
-/

namespace Chip8.Listing

variable {labels : Labels} {address : Int} {data : List UInt8} {e : Entry}

/-! ### Lines of a program -/

/-- The addresses of lines, from the given one on, are those where the lines before them end. -/
def Contiguous : Int → List Entry → Prop
  | _, [] => True
  | address, e :: rest => e.address = address ∧ Contiguous (address + e.size) rest

theorem length_sweep (labels : Labels) (address : Int) (data : List UInt8) :
    (sweep labels address data).length = (data.length + 1) / 2 := by
  induction address, data using sweep.induct with
  | case1 address => rfl
  | case2 address byte => exact (Nat.div_self (Nat.succ_pos 1)).symm
  | case3 address high low rest ih =>
    rw [sweep, List.length_cons, ih, List.length_cons, List.length_cons]
    omega

theorem eq_of_mem_sweep (he : e ∈ sweep labels address data) :
    (∃ a high low, e = .ofWord labels a (Word.ofBytes high low) [high, low]) ∨
      ∃ a byte, e = .ofByte a byte := by
  induction address, data using sweep.induct with
  | case1 address => cases he
  | case2 address byte => exact .inr ⟨address, byte, List.mem_singleton.mp he⟩
  | case3 address high low rest ih =>
    rcases List.mem_cons.mp he with rfl | he
    · exact .inl ⟨address, high, low, rfl⟩
    · exact ih he

theorem flatten_raw_sweep (labels : Labels) (address : Int) (data : List UInt8) :
    ((sweep labels address data).map Entry.raw).flatten = data := by
  induction address, data using sweep.induct with
  | case1 address => rfl
  | case2 address byte => rfl
  | case3 address high low rest ih =>
    rw [sweep, List.map_cons, List.flatten_cons, ih]
    rfl

theorem contiguous_sweep (labels : Labels) (address : Int) (data : List UInt8) :
    Contiguous address (sweep labels address data) := by
  induction address, data using sweep.induct with
  | case1 address => exact trivial
  | case2 address byte => exact ⟨rfl, trivial⟩
  | case3 address high low rest ih => exact ⟨rfl, ih⟩

/-- **A program may be listed in two parts**, if the first does not end within a word. -/
theorem sweep_append (labels : Labels) (address : Int) {data : List UInt8} (more : List UInt8)
    (heven : data.length % 2 = 0) : sweep labels address (data ++ more) =
      sweep labels address data ++ sweep labels (address + data.length) more := by
  induction address, data using sweep.induct with
  | case1 address =>
    have hzero : address + (([] : List UInt8).length : Int) = address := Int.add_zero address
    rw [hzero, sweep, List.nil_append, List.nil_append]
  | case2 address byte => cases heven
  | case3 address high low rest ih =>
    have hrest : rest.length % 2 = 0 := by
      rw [List.length_cons, List.length_cons] at heven
      omega
    have hplace : address + ((high :: low :: rest).length : Int) =
        address + 2 + (rest.length : Int) := by
      rw [List.length_cons, List.length_cons]
      omega
    rw [hplace, List.cons_append, List.cons_append, sweep, sweep, List.cons_append, ih hrest]

/-- All lines have two bytes, but for that of the last byte of a program of odd length. -/
theorem size_of_getElem?_sweep {k : Nat} (he : (sweep labels address data)[k]? = some e) :
    e.size = if data.length = 2 * k + 1 then 1 else 2 := by
  induction address, data using sweep.induct generalizing k with
  | case1 address => cases he
  | case2 address byte =>
    cases k with
    | zero =>
      cases he
      rfl
    | succ k => cases he
  | case3 address high low rest ih =>
    rw [List.length_cons, List.length_cons]
    cases k with
    | zero =>
      cases he
      rw [if_neg (by omega)]
      rfl
    | succ k =>
      rw [ih he]
      split
      · rw [if_pos (by omega)]
      · rw [if_neg (by omega)]

theorem mnemonic_ne (f : Form) : f.mnemonic ≠ "DB" := by
  cases f <;> decide

theorem mnemonic_eq_iff (he : e ∈ sweep labels address data) : e.mnemonic = "DB" ↔ e.size = 1 := by
  rcases eq_of_mem_sweep he with ⟨a, high, low, rfl⟩ | ⟨a, byte, rfl⟩
  · exact iff_of_false (mnemonic_ne _) (Nat.succ_ne_self 1)
  · exact iff_of_true rfl rfl

/-! ### One line at a time -/

/-- The byte at an offset from the front, if the program is not longer than a host can say. -/
theorem byteAt_of_getElem? {offset : Nat} {byte : UInt8} (hindex : Word.IsIndex data.length)
    (h : data[offset]? = some byte) : byteAt data offset = .ok byte := by
  have hoffset : offset < data.length := (List.getElem?_eq_some_iff.mp h).1
  have hindex' : Word.IsIndex offset := ⟨by omega, by have := hindex.2; omega⟩
  rw [byteAt, if_neg (not_not_intro hindex'), if_neg (by omega), if_neg (by omega),
    Int.toNat_natCast, h]

theorem bytesBetween_of_le {start stop : Nat} (hstart : start ≤ stop) (hstop : stop ≤ data.length) :
    bytesBetween data start stop = (data.drop start).take (stop - start) := by
  have hplace (k : Nat) (hk : k ≤ data.length) : place data k = k := by
    rw [place, if_neg (by omega), Int.toNat_natCast, Nat.min_eq_left hk]
  rw [bytesBetween, hplace start (by omega), hplace stop hstop, List.drop_take]

/-- The line at an offset is the first of what is left there, and the others follow where it
ends. -/
theorem entryAt_eq (labels : Labels) (address : Int) (hindex : Word.IsIndex data.length)
    {offset : Nat} (hoffset : offset < data.length) :
    ∃ e, entryAt labels data offset (address + offset) = .ok e ∧
      sweep labels (address + offset) (data.drop offset) =
        e :: sweep labels (address + ((offset + e.size : Nat) : Int))
          (data.drop (offset + e.size)) := by
  have hget (k : Nat) : data[offset + k]? = (data.drop offset)[k]? := List.getElem?_drop.symm
  have hlater (k : Nat) : data.drop (offset + k) = (data.drop offset).drop k := List.drop_drop.symm
  have hlength : (data.drop offset).length = data.length - offset := List.length_drop
  -- the sweep goes by what is left, the loop by offsets: both have a word, a byte or nothing
  match hdrop : data.drop offset with
  | [] =>
    rw [hdrop, List.length_nil] at hlength
    omega
  | [byte] =>
    rw [hdrop, List.length_singleton] at hlength
    have hbyte : byteAt data offset = .ok byte :=
      byteAt_of_getElem? hindex ((hget 0).trans (congrArg (·[0]?) hdrop))
    refine ⟨.ofByte (address + offset) byte, ?_, ?_⟩
    · rw [entryAt, if_pos (by omega), hbyte]
      rfl
    · show _ = _ :: sweep labels _ (data.drop (offset + 1))
      rw [hlater, hdrop]
      rfl
  | high :: low :: rest =>
    rw [hdrop, List.length_cons, List.length_cons] at hlength
    have hhigh : byteAt data offset = .ok high :=
      byteAt_of_getElem? hindex ((hget 0).trans (congrArg (·[0]?) hdrop))
    have hlow : byteAt data (offset + 1) = .ok low :=
      byteAt_of_getElem? hindex ((hget 1).trans (congrArg (·[1]?) hdrop))
    have hraw : bytesBetween data offset (offset + 2) = [high, low] := by
      have htake : bytesBetween data offset ((offset + 2 : Nat) : Int) =
          (data.drop offset).take (offset + 2 - offset) := bytesBetween_of_le (by omega) (by omega)
      rw [hdrop, Nat.add_sub_cancel_left] at htake
      exact htake
    have hplace : address + ((offset + 2 : Nat) : Int) = address + offset + 2 := by omega
    refine ⟨.ofWord labels (address + offset) (Word.ofBytes high low) [high, low], ?_, ?_⟩
    · rw [entryAt, if_neg (by omega), hhigh, hlow, hraw]
      rfl
    · show _ = _ :: sweep labels (address + ((offset + 2 : Nat) : Int)) (data.drop (offset + 2))
      rw [hplace, hlater, hdrop]
      rfl

theorem size_pos_of_entryAt {offset : Nat} {place : Int}
    (h : entryAt labels data offset place = .ok e) : 0 < e.size := by
  rw [entryAt] at h
  split at h
  · cases hbyte : byteAt data offset with
    | error err =>
      rw [hbyte] at h
      cases h
    | ok byte =>
      rw [hbyte] at h
      cases h
      exact Nat.one_pos
  · next hroom =>
    have hraw : (bytesBetween data offset ((offset + 2 : Nat) : Int)).length = 2 := by
      rw [bytesBetween_of_le (by omega) (by omega), List.length_take, List.length_drop]
      omega
    cases hhigh : byteAt data offset with
    | error err =>
      rw [hhigh] at h
      cases h
    | ok high =>
      cases hlow : byteAt data (offset + 1) with
      | error err =>
        rw [hhigh, hlow] at h
        cases h
      | ok low =>
        rw [hhigh, hlow] at h
        cases h
        exact Nat.lt_of_lt_of_eq Nat.two_pos hraw.symm

/-- So many lines are fewer than were asked for. -/
def isShort (count : Option Int) (made : Nat) : Bool :=
  match count with
  | none => true
  | some n => decide ((made : Int) < n)

theorem entries_nil (labels : Labels) (address : Int) (count : Option Int) :
    entries labels [] address count = [] := by
  cases count with
  | none => rfl
  | some n => exact List.take_nil

/-- As long as there are too few lines, the first of what is left is taken. -/
theorem entries_of_short {address' : Int} {rest : List UInt8} {count : Option Int} {made : Nat}
    (hsweep : sweep labels address data = e :: sweep labels address' rest)
    (hshort : isShort count made = true) :
    entries labels data address (count.map (· - (made : Int))) =
      e :: entries labels rest address' (count.map (· - ((made + 1 : Nat) : Int))) := by
  cases count with
  | none => exact hsweep
  | some n =>
    have hroom : (made : Int) < n := of_decide_eq_true hshort
    have htake : (n - made).toNat = (n - ((made + 1 : Nat) : Int)).toNat + 1 := by omega
    show (sweep labels address data).take (n - made).toNat = _
    rw [hsweep, htake, List.take_succ_cons]
    rfl

theorem entries_of_not_short {count : Option Int} {made : Nat}
    (hshort : ¬ isShort count made = true) :
    entries labels data address (count.map (· - (made : Int))) = [] := by
  cases count with
  | none => exact absurd rfl hshort
  | some n =>
    have hfull : ¬ (made : Int) < n := fun h => hshort (decide_eq_true h)
    have hnone : (n - made).toNat = 0 := by omega
    show (sweep labels address data).take (n - made).toNat = []
    rw [hnone, List.take_zero]

/-- Goes on with a listing line by line, from an offset on and with the lines that there are so far,
until the program ends or there are as many lines as were asked for. -/
def collect (labels : Labels) (data : List UInt8) (address : Int) (count : Option Int)
    (offset : Nat) (lines : List Entry) : Except OffsetError (List Entry) :=
  if _hmore : offset < data.length ∧ isShort count lines.length = true then
    match _h : entryAt labels data offset (address + offset) with
    | .error err => .error err
    | .ok e => collect labels data address count (offset + e.size) (lines ++ [e])
  else .ok lines
  termination_by data.length - offset
  decreasing_by
    have := size_pos_of_entryAt _h
    omega

/-- **Lines made one at a time are those of the listing**, and making them never fails. -/
theorem collect_eq (labels : Labels) (address : Int) (count : Option Int)
    (hindex : Word.IsIndex data.length) (offset : Nat) (lines : List Entry) :
    collect labels data address count offset lines =
      .ok (lines ++ entries labels (data.drop offset) (address + offset)
        (count.map (· - (lines.length : Int)))) := by
  -- what is left of the program from the offset on has just the lines that are still to be made
  fun_induction collect labels data address count offset lines with
  | case1 offset lines hmore err hline =>
    obtain ⟨e, he, -⟩ := entryAt_eq labels address hindex hmore.1
    cases hline.symm.trans he
  | case2 offset lines hmore e hline ih =>
    obtain ⟨e', he', hsweep⟩ := entryAt_eq labels address hindex hmore.1
    cases hline.symm.trans he'
    rw [ih, entries_of_short hsweep hmore.2, List.length_append, List.length_singleton,
      List.append_assoc, List.singleton_append]
  | case3 offset lines hmore =>
    have hnone : entries labels (data.drop offset) (address + offset)
        (count.map (· - (lines.length : Int))) = [] := by
      by_cases hoffset : offset < data.length
      · exact entries_of_not_short fun hshort => hmore ⟨hoffset, hshort⟩
      · rw [List.drop_eq_nil_of_le (Nat.le_of_not_lt hoffset), entries_nil]
    rw [hnone, List.append_nil]

/-- **Listings partition a program.**  Lines made one at a time are the first lines of the whole
listing, as many as the count says.  The bytes of all lines in turn are the program, and each
address is where the line before it ends.  Each line has two bytes, unless it is the last one of a
program of odd length; what follows a program of even length is listed as if it stood alone. -/
theorem listing_partitions_program (labels : Labels) (data : List UInt8) (address : Int) :
    (∀ count, Word.IsIndex data.length →
      collect labels data address count 0 [] = .ok (entries labels data address count)) ∧
    (∀ n, entries labels data address (some n) =
      (entries labels data address none).take (max n 0).toNat) ∧
    (entries labels data address none).length = (data.length + 1) / 2 ∧
    ((entries labels data address none).map Entry.raw).flatten = data ∧
    Contiguous address (entries labels data address none) ∧
    (∀ k e, (entries labels data address none)[k]? = some e →
      e.size = (if data.length % 2 = 1 ∧ k + 1 = (entries labels data address none).length
        then 1 else 2) ∧
      (e.mnemonic = "DB" ↔ e.size = 1)) ∧
    ∀ more, data.length % 2 = 0 → entries labels (data ++ more) address none =
      entries labels data address none ++ entries labels more (address + data.length) none := by
  have hlength : (entries labels data address none).length = (data.length + 1) / 2 :=
    length_sweep labels address data
  refine ⟨fun count hindex => ?_, fun n => ?_, hlength, flatten_raw_sweep labels address data,
    contiguous_sweep labels address data, fun k e he => ⟨?_, ?_⟩,
    fun more => sweep_append labels address more⟩
  · have hcount : count.map (· - (([] : List Entry).length : Int)) = count := by
      cases count with
      | none => rfl
      | some n => exact congrArg some (Int.sub_zero n)
    have hplace : address + ((0 : Nat) : Int) = address := Int.add_zero address
    rw [collect_eq labels address count hindex, hcount, hplace]
    rfl
  · have hmax : (max n 0).toNat = n.toNat := by omega
    rw [hmax]
    rfl
  · have hk : k < (entries labels data address none).length := (List.getElem?_eq_some_iff.mp he).1
    rw [size_of_getElem?_sweep he]
    by_cases hlast : data.length = 2 * k + 1
    · rw [if_pos hlast, if_pos (by omega)]
    · rw [if_neg hlast, if_neg (by omega)]
  · exact mnemonic_eq_iff (List.mem_of_getElem? he)

/-- The byte left over by a jump ends its listing, unless one line is enough. -/
theorem listing_partitions_program_jump :
    collect [] [0x12, 0x00, 0xA2] 0x200 (some 1) 0 [] =
      .ok (entries [] [0x12, 0x00, 0xA2] 0x200 (some 1)) ∧
    (∃ e, (entries [] [0x12, 0x00, 0xA2] 0x200 none)[1]? = some e ∧ e.size = 1 ∧
      e.mnemonic = "DB") ∧
    entries [] ([0x12, 0x00] ++ [0xA2]) 0x200 none =
      entries [] [0x12, 0x00] 0x200 none ++ entries [] [0xA2] 0x202 none := by
  obtain ⟨hcollect, -, -, -, -, hlines, -⟩ :=
    listing_partitions_program [] [0x12, 0x00, 0xA2] 0x200
  obtain ⟨-, -, -, -, -, -, happend⟩ := listing_partitions_program [] [0x12, 0x00] 0x200
  obtain ⟨hsize, hmark⟩ := hlines 1 _ rfl
  exact ⟨hcollect (some 1) (by decide), ⟨_, rfl, hsize, hmark.mpr hsize⟩, happend [0xA2] rfl⟩

end Chip8.Listing
