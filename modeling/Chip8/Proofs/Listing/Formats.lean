import Chip8.Proofs.Listing.Partition
import Chip8.Proofs.Text.Numerals

/-!
# The two formats of a listing

A listing shows the bytes of each line or leaves them out.  Lines with bytes put a blank before the
operands only if there are any; lines without bytes always put it there and trim the end.  This
comes to the same, because neither a mnemonic nor a row of operands ends with a blank.  So the two
listings of a program say the same, and differ in the column of bytes only.

* `endsBare_mnemonic`, `endsBare_operands`: no blank stands at the end of what is shown.
* `trimEnd_code`: **trimming gives the assembly.**
* `shortRest_eq_rest`: both kinds of lines say the same.
* `formats_agree`: **the two listings of a program differ in the column of bytes only.**
-/

namespace Chip8

open Text

/-! ### What a line ends with -/

namespace Instruction

theorem endsBare_numeral {mark : String} (hne : mark.toList ≠ [])
    (hmark : mark.toList.all (fun c => decide (isBlank c = false)) = true) (width : Nat) (n : Int) :
    EndsBare (mark ++ Hex.padded width n) := by
  have halphabet : ∀ c ∈ Hex.alphabet, isBlank c = false := forall_mem_of_all (by decide)
  refine endsBare_of_forall ?_ fun c hc => ?_
  · rw [String.toList_append]
    exact List.append_ne_nil_of_left_ne_nil hne _
  · rw [String.toList_append] at hc
    rcases List.mem_append.mp hc with hc | hc
    · exact forall_mem_of_all hmark c hc
    · exact halphabet c (Hex.mem_padded hc)

theorem endsBare_registerText (x : Register) : EndsBare (registerText x) :=
  endsBare_numeral (by decide) (by decide) 1 x.val

theorem endsBare_byteText (b : UInt8) : EndsBare (byteText b) :=
  endsBare_numeral (by decide) (by decide) 2 b.toNat

theorem endsBare_addressText (a : Address) : EndsBare (addressText a) :=
  endsBare_numeral (by decide) (by decide) 3 a.val

/-- There are no operands, or their text does not end with a blank. -/
theorem endsBare_operands (i : Instruction) : i.operands = "" ∨ EndsBare i.operands := by
  have hrows : ∀ n : Fin 16, EndsBare (toString n.val) := by decide
  -- the last operand ends the text, or else the fixed text that stands behind it does
  cases i with
  | clearScreen | ret => exact .inl rfl
  | machineCall target | jump target | call target => exact .inr (endsBare_addressText target)
  | jumpIndexed target | loadIndex target => exact .inr (endsBare_addressText target).append
  | skip condition =>
    cases condition with
    | equalByte x byte | unequalByte x byte => exact .inr (endsBare_byteText byte).append
    | equalRegister x y | unequalRegister x y => exact .inr (endsBare_registerText y).append
    | keyHeld x | keyFree x => exact .inr (endsBare_registerText x)
  | loadByte x byte | addByte x byte | random x byte =>
    exact .inr (endsBare_byteText byte).append
  | combine operation x y =>
    have hbrace : EndsBare "\x7d" := by decide
    cases operation with
    | shiftRight | shiftLeft => exact .inr hbrace.append
    | _ => exact .inr (endsBare_registerText y).append
  | draw x y rows => exact .inr (hrows rows).append
  | readDelay x =>
    have hdelay : EndsBare ", DT" := by decide
    exact .inr hdelay.append
  | awaitKey x =>
    have hkey : EndsBare ", K" := by decide
    exact .inr hkey.append
  | restore x =>
    have hindex : EndsBare ", [I]" := by decide
    exact .inr hindex.append
  | setDelay x | setSound x | addIndex x | glyph x | decimal x | store x =>
    exact .inr (endsBare_registerText x).append
  | unassigned word => exact .inr (endsBare_numeral (by decide) (by decide) 4 word.toNat)

end Instruction

namespace Listing

variable {labels : Labels} {data : List UInt8} {address : Int} {count : Option Int} {e : Entry}

namespace Entry

theorem endsBare_mnemonic (e : Entry) : EndsBare e.mnemonic := by
  have hforms (f : Form) : EndsBare f.mnemonic := by cases f <;> decide
  unfold mnemonic
  split
  · exact hforms _
  · decide

theorem endsBare_operands (e : Entry) : e.operands = "" ∨ EndsBare e.operands := by
  unfold operands
  split
  · next i _ => exact i.endsBare_operands
  · exact .inr (Instruction.endsBare_numeral (by decide) (by decide) 2 e.opcode.toNat)

/-- **Mnemonic and operands with a blank between them, trimmed at the end, are the assembly.** -/
theorem trimEnd_code (e : Entry) : trimEnd (e.mnemonic ++ " " ++ e.operands) = e.assembly := by
  rw [assembly]
  split
  · next hnone =>
    rw [hnone, String.append_empty]
    exact trimEnd_append e.endsBare_mnemonic (forall_mem_of_all (by decide))
  · next hsome =>
    exact trimEnd_of_endsBare (e.endsBare_operands.resolve_left hsome).append

theorem shortRest_eq_rest (e : Entry) : e.shortRest = e.rest := by
  rw [shortRest, trimEnd_code, rest]

theorem length_fill (width : Nat) (s : String) : (fill width s).length = max width s.length := by
  rw [fill, String.length_append, String.length_ofList, List.length_replicate]
  omega

/-- A line has one byte or two, so that the column of bytes is always as wide as two of them. -/
theorem length_column (he : e ∈ entries labels data address count) :
    (fill 5 (Hex.bytes e.raw)).length = 5 := by
  have hmem : e ∈ sweep labels address data := by
    cases count with
    | none => exact he
    | some n => exact List.mem_of_mem_take he
  have hblank : " ".length = 1 := rfl
  rw [length_fill]
  rcases eq_of_mem_sweep hmem with ⟨a, high, low, rfl⟩ | ⟨a, byte, rfl⟩
  · show max 5 (Hex.bytes [high, low]).length = 5
    simp [Hex.bytes, Hex.length_byte, hblank]
  · show max 5 (Hex.bytes [byte]).length = 5
    simp [Hex.bytes, Hex.length_byte]

end Entry

/-- **The two listings of a program differ in the column of bytes only.**  An entry with bytes is
the address, the bytes filled up to five characters, two blanks and the rest; the entry without them
is the address and the same rest: the mnemonic, the operands if there are any, and the comment, if
there is one, behind a column that is filled with blanks. -/
theorem formats_agree (labels : Labels) (data : List UInt8) (address : Int) (count : Option Int) :
    ∃ full short : List String,
      listing labels data address count true = "\n".intercalate full ∧
      listing labels data address count false = "\n".intercalate short ∧
      full.length = (entries labels data address count).length ∧
      short.length = (entries labels data address count).length ∧
      ∀ (k : Nat) (e : Entry), (entries labels data address count)[k]? = some e →
        full[k]? = some (Hex.address e.address ++ ": " ++ Entry.fill 5 (Hex.bytes e.raw) ++ "  " ++
          e.rest) ∧
        short[k]? = some (Hex.address e.address ++ ": " ++ e.rest) ∧
        (Entry.fill 5 (Hex.bytes e.raw)).length = 5 ∧
        e.rest = (if e.comment = "" then e.assembly
          else Entry.fill 16 e.assembly ++ " ; " ++ e.comment) ∧
        e.assembly = if e.operands = "" then e.mnemonic else e.mnemonic ++ " " ++ e.operands := by
  refine ⟨(entries labels data address count).map Entry.line,
    (entries labels data address count).map Entry.shortLine, rfl, rfl, List.length_map _,
    List.length_map _, fun k e he => ⟨?_, ?_, ?_, rfl, rfl⟩⟩
  · rw [List.getElem?_map, he, Option.map_some, Entry.line]
  · rw [List.getElem?_map, he, Option.map_some, Entry.shortLine, Entry.shortRest_eq_rest]
  · exact Entry.length_column (List.mem_of_getElem? he)

/-- A word without operands and a single byte with a comment: what stands behind the column is the
same. -/
theorem formats_agree_on_clearScreen :
    ∃ full short : List String,
      listing [] [0x00, 0xE0, 0x07] 0x200 none true = "\n".intercalate full ∧
      listing [] [0x00, 0xE0, 0x07] 0x200 none false = "\n".intercalate short ∧
      full[0]? = some "$0200: 00 E0  CLS" ∧ short[0]? = some "$0200: CLS" ∧
      full[1]? = some "$0202: 07     DB #07           ; trailing byte" ∧
      short[1]? = some "$0202: DB #07           ; trailing byte" := by
  obtain ⟨full, short, hfull, hshort, -, -, hlines⟩ :=
    formats_agree [] [0x00, 0xE0, 0x07] 0x200 none
  obtain ⟨hfirst, hfirst', -⟩ := hlines 0 _ rfl
  obtain ⟨hlast, hlast', -⟩ := hlines 1 _ rfl
  refine ⟨full, short, hfull, hshort, hfirst.trans ?_, hfirst'.trans ?_, hlast.trans ?_,
    hlast'.trans ?_⟩
  · decide
  · decide
  · decide
  · decide

end Listing

end Chip8
