import Chip8.Proofs.Listing.Roundtrip
import Chip8.Proofs.Text.Grammar

/-!
# Dumps show every byte

A dump cuts a program into pieces of sixteen bytes, of which the last may be shorter, and gives each
piece a line with its address.  Whoever reads the lines again has all bytes in order and knows where
each piece stood.  The heading and the ruled lines around them cannot be mistaken for such a line.

* `getElem?_pieces`, `length_pieces`, `flatten_pieces`: a list in pieces.
* `signed?_padded`: **a hexadecimal numeral is read back as its integer**, below zero as well.
* `dumped?`: the address and the bytes that a line of a dump shows.
* `dumped?_line`: a line is read back.
* `dump_shows_every_byte`: **what can be read of a dump are the pieces of the program in order.**
-/

namespace Chip8

/-! ### Pieces of a list -/

namespace Listing

variable {α : Type}

theorem length_pieces (n : Nat) (xs : List α) :
    (pieces n xs).length = (xs.length + n) / (n + 1) := by
  induction xs using pieces.induct n with
  | case1 =>
    rw [pieces, List.length_nil, List.length_nil, Nat.zero_add,
      Nat.div_eq_of_lt (Nat.lt_succ_self n)]
  | case2 x rest ih =>
    rw [pieces, List.length_cons, ih, List.length_drop, List.length_cons]
    by_cases hlast : rest.length ≤ n
    · have hone : rest.length + 1 + n = rest.length + (n + 1) := by omega
      rw [Nat.sub_eq_zero_of_le hlast, Nat.zero_add, Nat.div_eq_of_lt (Nat.lt_succ_self n), hone,
        Nat.add_div_right _ (Nat.succ_pos n), Nat.div_eq_of_lt (Nat.lt_succ_of_le hlast)]
    · have hmore : rest.length - n + n = rest.length := by omega
      have hone : rest.length + 1 + n = rest.length + (n + 1) := by omega
      rw [hmore, hone, Nat.add_div_right _ (Nat.succ_pos n)]

theorem getElem?_pieces (n : Nat) (xs : List α) : ∀ k, (pieces n xs)[k]? =
    if (n + 1) * k < xs.length then some ((xs.drop ((n + 1) * k)).take (n + 1)) else none := by
  induction xs using pieces.induct n with
  | case1 =>
    intro k
    simp [pieces]
  | case2 x rest ih =>
    intro k
    rw [pieces]
    cases k with
    | zero => simp
    | succ k =>
      have hplace : (n + 1) * (k + 1) = n + (n + 1) * k + 1 := by ring
      rw [List.getElem?_cons_succ, ih k, List.drop_drop, List.length_drop, hplace,
        List.drop_succ_cons, List.length_cons]
      by_cases hlt : n + (n + 1) * k + 1 < rest.length + 1
      · rw [if_pos hlt, if_pos (by omega)]
      · rw [if_neg hlt, if_neg (by omega)]

theorem flatten_pieces (n : Nat) (xs : List α) : (pieces n xs).flatten = xs := by
  induction xs using pieces.induct n with
  | case1 => rw [pieces, List.flatten_nil]
  | case2 x rest ih =>
    rw [pieces, List.flatten_cons, ih, List.cons_append, List.take_append_drop]

end Listing

/-! ### Numerals -/

namespace Hex

theorem number?_byteDigits (b : UInt8) :
    Numeral.number? 16 Numeral.hexDigit? 0 (byteDigits b) = some b.toNat := by
  have hdigit : ∀ d : Fin 16, Numeral.hexDigit? (digit d) = some d.val := by decide
  have hplain : ∀ d : Fin 16, digit d ≠ '_' := by decide
  have hlt := b.toNat_lt
  rw [byteDigits, Numeral.number?_cons (hdigit _) (List.cons_ne_nil _ _) (by simp [hplain]),
    Numeral.number?, hdigit]
  show some ((0 * 16 + b.toNat / 16 % 16) * 16 + b.toNat % 16) = some b.toNat
  congr 1
  omega

theorem mem_byteDigits (b : UInt8) : ∀ c ∈ byteDigits b, c ∈ "0123456789ABCDEF".toList := by
  have hdigit : ∀ d : Fin 16, digit d ∈ "0123456789ABCDEF".toList := by decide
  intro c hc
  simp only [byteDigits, List.mem_cons, List.not_mem_nil, or_false] at hc
  rcases hc with rfl | rfl
  · exact hdigit _
  · exact hdigit _

/-- **A hexadecimal numeral is read back as its integer.** -/
theorem signed?_padded (width : Nat) (n : Int) :
    Numeral.signed? (Numeral.number? 16 Numeral.hexDigit? 0) (padded width n).toList = some n := by
  have hread : ∀ sign ∈ Numeral.signs, ∀ zeros,
      Numeral.signed? (Numeral.number? 16 Numeral.hexDigit? 0)
        (sign.1 ++ (List.replicate zeros '0' ++ digits n.natAbs)) =
          some (sign.2 * n.natAbs) := by
    intro sign hsign zeros
    obtain ⟨ds, hrow⟩ := Numeral.exists_row (number?_zeros zeros n.natAbs)
    exact Numeral.signed?_append hsign hrow.solid (number?_zeros zeros n.natAbs)
  rw [padded]
  by_cases hn : n < 0
  · have hvalue : -1 * (n.natAbs : Int) = n := by omega
    rw [if_pos hn, String.toList_ofList]
    exact (hread (['-'], -1) (by decide) _).trans (congrArg some hvalue)
  · have hvalue : 1 * (n.natAbs : Int) = n := by omega
    rw [if_neg hn, String.toList_ofList]
    exact (hread ([], 1) (by decide) _).trans (congrArg some hvalue)

end Hex

/-! ### Lines of a dump -/

namespace Listing

open Assembler

variable {data piece : List UInt8} {address : Int}

/-- The byte of a hexadecimal numeral. -/
def byte? (cs : List Char) : Option UInt8 :=
  (hexadecimal? 256 cs).map fun n : Fin 256 => UInt8.ofNat n.val

/-- The address that a line of a dump shows behind its mark; it ends with a colon. -/
def dumpedAddress? (line : List Char) : Option Int :=
  Numeral.signed? (Numeral.number? 16 Numeral.hexDigit? 0) ((line.drop 3).takeWhile (· != ':'))

/-- The bytes that a line of a dump shows behind its address, with blanks between them. -/
def dumpedBytes? (line : List Char) : Option (List UInt8) :=
  (fields ' ' ((line.dropWhile (· != ':')).drop 2)).mapM byte?

def dumped? (line : String) : Option (Int × List UInt8) :=
  (dumpedAddress? line.toList).bind fun address =>
    (dumpedBytes? line.toList).map fun piece => (address, piece)

theorem byte?_byte (b : UInt8) : byte? (Hex.byte b).toList = some b := by
  have hlt : b.toNat < 256 := b.toNat_lt
  rw [byte?, hexadecimal?, Hex.byte, String.toList_ofList, Hex.number?_byteDigits,
    Option.bind_some, below?, dif_pos hlt, Option.map_some]
  exact congrArg some UInt8.ofNat_toNat

theorem mapM_byte?_bytes (piece : List UInt8) :
    (fields ' ' (Hex.bytes piece).toList).mapM byte? = some piece := by
  have htexts : fields ' ' (Hex.bytes piece).toList = piece.map fun b => (Hex.byte b).toList := by
    rw [Hex.bytes, String.toList_intercalate, List.map_map]
    refine fields_intercalate fun text htext => ?_
    obtain ⟨b, -, rfl⟩ := List.mem_map.mp htext
    have hplain : ' ' ∉ "0123456789ABCDEF".toList := by decide
    rw [Function.comp_apply, Hex.byte, String.toList_ofList]
    exact ⟨List.cons_ne_nil _ _, fun hmem => hplain (Hex.mem_byteDigits b _ hmem)⟩
  rw [htexts, List.mapM_map]
  exact (mapM_eq_some fun b _ => byte?_byte b).trans (by rw [List.map_id'])

/-- **A line of a dump is read back.** -/
theorem dumped?_line (address : Int) (piece : List UInt8) :
    dumped? ("; " ++ Hex.address address ++ ": " ++ Hex.bytes piece) = some (address, piece) := by
  have hline : ("; " ++ Hex.address address ++ ": " ++ Hex.bytes piece).toList =
      ';' :: ' ' :: '$' :: (Hex.padded 4 address).toList ++
        ':' :: ' ' :: (Hex.bytes piece).toList := by
    simp [Hex.address]
  have hcolon : ':' ∉ (Hex.padded 4 address).toList := fun hmem =>
    absurd (Hex.mem_padded hmem) (by decide)
  have hfront : ':' ∉ ';' :: ' ' :: '$' :: (Hex.padded 4 address).toList := by simp [hcolon]
  have haddress : dumpedAddress? (';' :: ' ' :: '$' :: (Hex.padded 4 address).toList ++
      ':' :: ' ' :: (Hex.bytes piece).toList) = some address := by
    rw [dumpedAddress?, List.cons_append, List.cons_append, List.cons_append, List.drop_succ_cons,
      List.drop_succ_cons, List.drop_succ_cons, List.drop_zero,
      (span_until hcolon (.inr ⟨_, rfl⟩)).1, Hex.signed?_padded]
  have hbytes : dumpedBytes? (';' :: ' ' :: '$' :: (Hex.padded 4 address).toList ++
      ':' :: ' ' :: (Hex.bytes piece).toList) = some piece := by
    rw [dumpedBytes?, (span_until hfront (.inr ⟨_, rfl⟩)).2, List.drop_succ_cons,
      List.drop_succ_cons, List.drop_zero, mapM_byte?_bytes]
  rw [dumped?, hline, haddress, hbytes, Option.bind_some, Option.map_some]

/-- Heading and ruled lines show no address, and so are not read. -/
theorem dumped?_frame : ["; Hex dump:", rule].filterMap dumped? = [] ∧
    [rule, ""].filterMap dumped? = [] := by decide

/-- The pieces of a program, each with its address. -/
def dumpRows (data : List UInt8) (address : Int) : List (Int × List UInt8) :=
  (pieces 15 data).mapIdx fun k piece => (address + 16 * k, piece)

theorem dumpLines_eq (data : List UInt8) (address : Int) : dumpLines data address =
    (dumpRows data address).map fun row =>
      "; " ++ Hex.address row.1 ++ ": " ++ Hex.bytes row.2 := by
  refine List.ext_getElem? fun k => ?_
  rw [dumpLines, dumpRows, List.getElem?_mapIdx, List.getElem?_map, List.getElem?_mapIdx,
    Option.map_map]
  rfl

/-- **What can be read of a dump are the pieces of the program with their addresses.** -/
theorem filterMap_dumped?_hexDump (data : List UInt8) (address : Int) :
    (hexDump data address).filterMap dumped? = dumpRows data address := by
  have hread : (dumpLines data address).filterMap dumped? = dumpRows data address := by
    rw [dumpLines_eq, List.filterMap_map]
    exact (List.filterMap_congr fun row _ => dumped?_line row.1 row.2).trans List.filterMap_some
  rw [hexDump, List.filterMap_append, List.filterMap_append, hread, dumped?_frame.1,
    dumped?_frame.2, List.nil_append, List.append_nil]

theorem map_fst_dumpRows (data : List UInt8) (address : Int) :
    (dumpRows data address).map Prod.fst =
      (List.range (pieces 15 data).length).map fun k : Nat => address + 16 * (k : Int) := by
  refine List.ext_getElem (by simp [dumpRows]) fun k hk hk' => ?_
  simp [dumpRows]

theorem map_snd_dumpRows (data : List UInt8) (address : Int) :
    (dumpRows data address).map Prod.snd = pieces 15 data := by
  refine List.ext_getElem (by simp [dumpRows]) fun k hk hk' => ?_
  simp [dumpRows]

theorem getElem?_dumpLines (address : Int) {k : Nat} (hk : 16 * k < data.length) :
    (dumpLines data address)[k]? =
      some ("; " ++ Hex.address (address + 16 * k) ++ ": " ++
        Hex.bytes ((data.drop (16 * k)).take 16)) := by
  rw [dumpLines, List.getElem?_mapIdx, getElem?_pieces, if_pos hk, Option.map_some]

/-- **A dump shows every byte.**  There is a line for every sixteen bytes of the program and one for
those that are left, and each bears the address of its piece.  What can be read of the whole dump
are these addresses and, one piece after the other, the bytes of the program. -/
theorem dump_shows_every_byte (data : List UInt8) (address : Int) :
    hexDump data address = ["; Hex dump:", rule] ++ dumpLines data address ++ [rule, ""] ∧
    (dumpLines data address).length = (data.length + 15) / 16 ∧
    (∀ k, 16 * k < data.length → (dumpLines data address)[k]? =
        some ("; " ++ Hex.address (address + 16 * k) ++ ": " ++
          Hex.bytes ((data.drop (16 * k)).take 16)) ∧
      ((data.drop (16 * k)).take 16).length = min 16 (data.length - 16 * k)) ∧
    (∀ b, (Hex.byte b).length = 2 ∧ ∀ c ∈ (Hex.byte b).toList, c ∈ "0123456789ABCDEF".toList) ∧
    ((hexDump data address).filterMap dumped?).map Prod.fst =
      (List.range ((data.length + 15) / 16)).map (fun k : Nat => address + 16 * (k : Int)) ∧
    (((hexDump data address).filterMap dumped?).map Prod.snd).flatten = data := by
  have hlength : (pieces 15 data).length = (data.length + 15) / 16 := length_pieces 15 data
  refine ⟨rfl, ?_, fun k hk => ⟨getElem?_dumpLines address hk, ?_⟩,
    fun b => ⟨Hex.length_byte b, ?_⟩, ?_, ?_⟩
  · rw [dumpLines, List.length_mapIdx, hlength]
  · rw [List.length_take, List.length_drop]
  · rw [Hex.byte, String.toList_ofList]
    exact Hex.mem_byteDigits b
  · rw [filterMap_dumped?_hexDump, map_fst_dumpRows, hlength]
  · rw [filterMap_dumped?_hexDump, map_snd_dumpRows, flatten_pieces]

/-- One byte more than a line holds stands alone in the next one. -/
theorem dump_shows_every_byte_of_seventeen :
    (dumpLines (List.replicate 16 0 ++ [0xAB]) 0x200)[1]? = some "; $0210: AB" ∧
    (((hexDump (List.replicate 16 0 ++ [0xAB]) 0x200).filterMap dumped?).map Prod.snd).flatten =
      List.replicate 16 0 ++ [0xAB] := by
  obtain ⟨-, -, hlines, -, -, hread⟩ :=
    dump_shows_every_byte (List.replicate 16 0 ++ [0xAB]) 0x200
  exact ⟨(hlines 1 (by decide)).1.trans (by decide), hread⟩

end Listing

end Chip8
