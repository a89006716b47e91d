import Chip8.Proofs.Listing.Assembler
import Chip8.Proofs.Listing.Formats
import Chip8.Proofs.Listing.Partition

/-!
# Assembling a listing

A listing without the bytes still has all of them: each line is assembled back to the bytes that it
was made from, and the lines one after the other to the program.  So different programs have
different listings.

* `Assembler.bytes?`, `Assembler.line?`, `Assembler.assemble?`: the bytes of a mnemonic with its
  operands, of a line, and of a text.
* `legible_of_mem_sweep`: **mnemonic and operands of a line are assembled to its bytes.**
* `line?_shortLine`: so is the line with its address, its blanks and its comment.
* `listing_loses_nothing`: **the text of a listing is assembled to the program.**
-/

namespace Chip8

namespace Assembler

/-! ### Lines and texts -/

/-- The bytes of a mnemonic and a text with its operands: those of a word, or the single one that
`DB` stands for. -/
def bytes? (mnemonic : String) (text : List Char) : Option (List UInt8) := do
  let operands ← operands? text
  match instruction? mnemonic operands with
  | some i => some (Word.bytes i.encode)
  | none =>
    match operands with
    | [.byte b] => if mnemonic = "DB" then some [b] else none
    | _ => none

/-- The bytes of a line.  The address ends with a colon and a blank, and a comment begins with a
semicolon; between them the mnemonic ends with the first blank. -/
def line? (cs : List Char) : Option (List UInt8) :=
  let code := ((cs.dropWhile (· != ':')).drop 2).takeWhile (· != ';')
  bytes? (String.ofList (code.takeWhile (· != ' '))) (code.dropWhile (· != ' '))

/-- The bytes of all lines of a text, one after the other. -/
def assemble? (text : String) : Option (List UInt8) :=
  ((fields '\n' text.toList).mapM line?).map List.flatten

end Assembler

namespace Listing

open Assembler

variable {labels : Labels} {address : Int} {data : List UInt8} {e : Entry}

/-! ### Entries -/

/-- Mnemonic and operands can be found in a line, and tell its bytes. -/
structure Legible (e : Entry) : Prop where
  mnemonic : ∀ c ∈ e.mnemonic.toList, c ∉ separators
  operands : ∀ c, c = ';' ∨ c = '\n' → c ∉ e.operands.toList
  bytes : bytes? e.mnemonic e.operands.toList = some e.raw

theorem Legible.of_row {operands : List Operand}
    (hmnemonic : ∀ c ∈ e.mnemonic.toList, c ∉ separators)
    (hrow : e.operands.toList.filter counts = row operands)
    (hbytes : operands? e.operands.toList = some operands →
      bytes? e.mnemonic e.operands.toList = some e.raw) : Legible e where
  mnemonic := hmnemonic
  operands := by
    rintro c (rfl | rfl)
    · exact notMem_of_row hrow (by decide) (by decide) (by decide)
    · exact notMem_of_row hrow (by decide) (by decide) (by decide)
  bytes := hbytes (operands?_of_row hrow)

theorem legible_ofWord (labels : Labels) (address : Int) (high low : UInt8) :
    Legible (.ofWord labels address (Word.ofBytes high low) [high, low]) := by
  have hmnemonic (f : Form) : f.mnemonic.toList.all (· ∉ separators) = true := by
    cases f <;> decide
  refine .of_row (forall_mem_of_all (hmnemonic _)) (filter_operands _) fun hoperands => ?_
  show bytes? (Instruction.decode (Word.ofBytes high low)).form.mnemonic _ = some [high, low]
  rw [bytes?, hoperands, Option.bind_eq_bind, Option.bind_some, instruction?_operandList]
  simp [Instruction.encode_decode, Word.bytes]

theorem legible_ofByte (address : Int) (byte : UInt8) : Legible (.ofByte address byte) := by
  have htext : (Entry.ofByte address byte).operands = (Operand.byte byte).text := by
    show "#" ++ Hex.padded 2 byte.toUInt16.toNat = "#" ++ Hex.padded 2 byte.toNat
    rw [UInt8.toNat_toUInt16]
  have hmnemonic : "DB".toList.all (· ∉ separators) = true := by decide
  have hrow : (Entry.ofByte address byte).operands.toList.filter counts = row [.byte byte] := by
    rw [htext, filter_one]
  refine .of_row (forall_mem_of_all hmnemonic) hrow fun hoperands => ?_
  show bytes? "DB" _ = some [byte]
  rw [bytes?, hoperands]
  rfl

/-- **Mnemonic and operands of a line are assembled to its bytes.** -/
theorem legible_of_mem_sweep (he : e ∈ sweep labels address data) : Legible e := by
  rcases eq_of_mem_sweep he with ⟨a, high, low, rfl⟩ | ⟨a, byte, rfl⟩
  · exact legible_ofWord labels a high low
  · exact legible_ofByte a byte

/-! ### Lines -/

/-- What stands behind the mnemonic, up to the comment: a blank and the operands, if there are
any. -/
def tail (e : Entry) : List Char := if e.operands = "" then [] else ' ' :: e.operands.toList

theorem toList_assembly (e : Entry) : e.assembly.toList = e.mnemonic.toList ++ tail e := by
  rw [Entry.assembly, tail]
  split
  · rw [List.append_nil]
  · rw [String.toList_append, String.toList_append, List.append_assoc]
    rfl

theorem filter_tail (e : Entry) : (tail e).filter counts = e.operands.toList.filter counts := by
  rw [tail]
  split
  · next hnone =>
    rw [hnone]
    rfl
  · rfl

theorem notMem_tail {c : Char} (hc : c ∉ e.operands.toList) (hblank : c ≠ ' ') : c ∉ tail e := by
  rw [tail]
  split
  · exact List.not_mem_nil
  · exact List.not_mem_cons_of_ne_of_not_mem hblank hc

/-- A comment begins with a semicolon, and only blanks stand before it. -/
theorem toList_rest (e : Entry) : ∃ blanks comment,
    e.rest.toList = e.assembly.toList ++ List.replicate blanks ' ' ++ comment ∧
      (comment = [] ∨ comment = ';' :: ' ' :: e.comment.toList) := by
  rw [Entry.rest]
  split
  · exact ⟨0, [], by simp, .inl rfl⟩
  · refine ⟨(16 - e.assembly.length) + 1, ';' :: ' ' :: e.comment.toList, ?_, .inr rfl⟩
    have hmark : " ; ".toList = [' ', ';', ' '] := rfl
    rw [Entry.fill, String.toList_append, String.toList_append, String.toList_append,
      String.toList_ofList, hmark, List.replicate_succ']
    simp

theorem bytes?_congr {mnemonic : String} {text text' : List Char}
    (h : text.filter counts = text'.filter counts) :
    bytes? mnemonic text = bytes? mnemonic text' := by
  rw [bytes?, operands?, h, ← operands?, ← bytes?]

theorem span_until {c : Char} {front rest : List Char} (hfront : c ∉ front)
    (hrest : rest = [] ∨ ∃ later, rest = c :: later) :
    (front ++ rest).takeWhile (· != c) = front ∧ (front ++ rest).dropWhile (· != c) = rest := by
  have hpass : ∀ a ∈ front, (a != c) = true := by
    rintro a ha
    exact bne_iff_ne.mpr fun h => hfront (h ▸ ha)
  rw [List.takeWhile_append_of_pos hpass, List.dropWhile_append_of_pos hpass]
  rcases hrest with rfl | ⟨later, rfl⟩
  · simp
  · simp

theorem notMem_address {c : Char} (a : Int) (hmark : c ≠ '$') (hc : c ∉ Hex.alphabet) :
    c ∉ (Hex.address a).toList := by
  rw [Hex.address, String.toList_append]
  intro hmem
  rcases List.mem_append.mp hmem with h | h
  · exact hmark (List.mem_singleton.mp h)
  · exact hc (Hex.mem_padded h)

theorem toList_shortLine (e : Entry) : e.shortLine.toList =
    (Hex.address e.address).toList ++ ':' :: ' ' :: e.rest.toList := by
  rw [Entry.shortLine, Entry.shortRest_eq_rest, String.toList_append, String.toList_append]
  simp

/-- The part of a line that is assembled has neither a semicolon nor a new line in it. -/
theorem Legible.notMem_code (he : Legible e) (blanks : Nat) {c : Char} (hc : c = ';' ∨ c = '\n') :
    c ∉ e.mnemonic.toList ++ (tail e ++ List.replicate blanks ' ') := by
  have hkind : c ∈ separators ∧ c ≠ ' ' := by
    rcases hc with rfl | rfl
    · decide
    · decide
  rw [List.mem_append, List.mem_append]
  rintro (h | h | h)
  · exact he.mnemonic c h hkind.1
  · exact notMem_tail (he.operands c hc) hkind.2 h
  · exact hkind.2 (List.eq_of_mem_replicate h)

/-- **A line is assembled to its bytes.** -/
theorem Legible.line?_shortLine (he : Legible e) : line? e.shortLine.toList = some e.raw := by
  obtain ⟨blanks, comment, hrest, hcomment⟩ := toList_rest e
  have haddress : ':' ∉ (Hex.address e.address).toList :=
    notMem_address e.address (by decide) (by decide)
  have hcode := he.notMem_code blanks (.inl rfl)
  have hmnemonic : ' ' ∉ e.mnemonic.toList := fun h => he.mnemonic _ h (by decide)
  have htail : tail e ++ List.replicate blanks ' ' = [] ∨
      ∃ later, tail e ++ List.replicate blanks ' ' = ' ' :: later := by
    rw [tail]
    split
    · cases blanks with
      | zero => exact .inl rfl
      | succ blanks => exact .inr ⟨_, rfl⟩
    · exact .inr ⟨_, rfl⟩
  have hfilter : (tail e ++ List.replicate blanks ' ').filter counts =
      e.operands.toList.filter counts := by
    rw [List.filter_append, filter_tail, List.filter_replicate_of_neg (by decide), List.append_nil]
  rw [line?, toList_shortLine, (span_until haddress (.inr ⟨_, rfl⟩)).2]
  show bytes? (String.ofList ((e.rest.toList.takeWhile (· != ';')).takeWhile (· != ' ')))
    ((e.rest.toList.takeWhile (· != ';')).dropWhile (· != ' ')) = some e.raw
  rw [hrest, toList_assembly, List.append_assoc e.mnemonic.toList,
    (span_until hcode (hcomment.imp_right fun h => ⟨_, h⟩)).1, (span_until hmnemonic htail).1,
    (span_until hmnemonic htail).2, String.ofList_toList, bytes?_congr hfilter, he.bytes]

/-! ### Texts -/

theorem Legible.notMem_shortLine (he : Legible e) (hcomment : '\n' ∉ e.comment.toList) :
    '\n' ∉ e.shortLine.toList := by
  obtain ⟨blanks, comment, hrest, hbegins⟩ := toList_rest e
  have haddress : '\n' ∉ (Hex.address e.address).toList :=
    notMem_address e.address (by decide) (by decide)
  have hcode := he.notMem_code blanks (.inr rfl)
  have htold : '\n' ∉ comment := by
    rcases hbegins with rfl | rfl
    · exact List.not_mem_nil
    · simp [hcomment]
  rw [toList_shortLine, hrest, toList_assembly, List.append_assoc e.mnemonic.toList,
    List.mem_append, List.mem_cons, List.mem_cons, List.mem_append]
  rintro (h | h | h | h | h)
  · exact haddress h
  · exact absurd h (by decide)
  · exact absurd h (by decide)
  · exact hcode h
  · exact htold h

theorem remark_mem (i : Instruction) : remark [] i ∈
    ["", "font data", "machine code call (ignored)", "unassigned opcode"] := by
  have hnone : i.target?.bind (label? []) = none := by
    cases i.target? with
    | none => rfl
    | some target => rfl
  unfold remark
  rw [hnone]
  cases i with
  | loadIndex target =>
    show (if Font.contains target then "font data" else "") ∈
      ["", "font data", "machine code call (ignored)", "unassigned opcode"]
    split
    · decide
    · decide
  | _ => simp

theorem notMem_comment (he : e ∈ sweep [] address data) : '\n' ∉ e.comment.toList := by
  have hremarks : ∀ text ∈ ["", "font data", "machine code call (ignored)", "unassigned opcode"],
      '\n' ∉ text.toList := by decide
  rcases eq_of_mem_sweep he with ⟨a, high, low, rfl⟩ | ⟨a, byte, rfl⟩
  · exact hremarks _ (remark_mem _)
  · show '\n' ∉ "trailing byte".toList
    decide

/-- **The text of a listing is assembled to the program.** -/
theorem assemble?_listing (data : List UInt8) (address : Int) :
    assemble? (listing [] data address none false) = some data := by
  have htext : (listing [] data address none false).toList =
      ['\n'].intercalate ((sweep [] address data).map fun e => e.shortLine.toList) := by
    show ("\n".intercalate ((sweep [] address data).map Entry.shortLine)).toList = _
    rw [String.toList_intercalate, List.map_map]
    rfl
  have hfields : fields '\n' (listing [] data address none false).toList =
      (sweep [] address data).map fun e => e.shortLine.toList := by
    rw [htext]
    refine fields_intercalate fun text hmem => ?_
    obtain ⟨e, he, rfl⟩ := List.mem_map.mp hmem
    refine ⟨?_, (legible_of_mem_sweep he).notMem_shortLine (notMem_comment he)⟩
    rw [toList_shortLine]
    simp
  have hread : ((sweep [] address data).map fun e => e.shortLine.toList).mapM line? =
      some ((sweep [] address data).map Entry.raw) := by
    rw [List.mapM_map]
    refine mapM_eq_some ?_
    intro e he
    rw [Function.comp_apply, (legible_of_mem_sweep he).line?_shortLine]
  rw [assemble?, hfields, hread, Option.map_some, flatten_raw_sweep]

/-- A shift, with braces that mean nothing, and a single byte with a comment. -/
example : assemble? "$0200: SHR V1 \x7b, V2\x7d\n$0202: DB #07          ; trailing byte" =
    some [0x81, 0x26, 0x07] := by decide

/-- **A listing without the bytes loses nothing.**  Each line is assembled to the bytes that it is
about, whatever its comment says, and the text of a listing without labels to the program.  So two
programs that differ, even in the second register of a shift or in how many bytes they have, have
listings that differ. -/
theorem listing_loses_nothing (address : Int) :
    (∀ labels data, ∀ e ∈ sweep labels address data,
      bytes? e.mnemonic e.operands.toList = some e.raw ∧ line? e.shortLine.toList = some e.raw) ∧
    (∀ labels data, ((sweep labels address data).map Entry.raw).flatten = data) ∧
    (∀ data, assemble? (listing [] data address none false) = some data) ∧
    ∀ data data', data ≠ data' →
      listing [] data address none false ≠ listing [] data' address none false := by
  refine ⟨?_, fun labels data => flatten_raw_sweep labels address data,
    fun data => assemble?_listing data address, ?_⟩
  · intro labels data e he
    have hlegible := legible_of_mem_sweep he
    exact ⟨hlegible.bytes, hlegible.line?_shortLine⟩
  · intro data data' hne hsame
    have hread := congrArg assemble? hsame
    rw [assemble?_listing, assemble?_listing] at hread
    exact hne (Option.some.inj hread)

/-- Two shifts of the same register have different lines, although they do the same. -/
theorem listing_loses_nothing_of_shifts :
    listing [] [0x80, 0x16] 0x200 none false ≠ listing [] [0x80, 0x26] 0x200 none false :=
  (listing_loses_nothing 0x200).2.2.2 _ _ (by decide)

end Listing

end Chip8
