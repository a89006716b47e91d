import Chip8.Listing.Entry
import Chip8.Processor.Registers
import Chip8.Proofs.Text.Characters

/-!
# An assembler for the notation of listings

A line of a listing shows a mnemonic and operands.  Several forms of words share a mnemonic, and
forms with the same operands have different ones; but mnemonic and operands together tell the form,
and each field of the word stands in an operand.  So the instruction can be read back.

* `Operand`, `operand?`, `operands?`: what an operand may be, and how texts are read as operands.
* `ofForm?`, `instruction?`: the instruction of a form or a mnemonic and some operands.
* `instruction?_operandList`: **mnemonic and operands make up the instruction again.**
* `filter_operands`: but for blanks and braces, the text of the operands is a row of them.
* `operands?_of_row`: **and a row of operands is read back.**
-/

namespace Chip8

namespace Assembler

/-! ### Reading operands -/

inductive Operand
  | register (x : Register)
  | byte (b : UInt8)
  | address (a : Address)
  | word (w : UInt16)
  /-- How many rows a sprite has, in base ten. -/
  | rows (n : Fin 16)
  | index
  | atIndex
  | delay
  | sound
  | key
  | glyph
  | digits
  deriving DecidableEq, Repr

/-- The text of an operand in a listing. -/
def Operand.text : Operand → String
  | register x => Instruction.registerText x
  | byte b => Instruction.byteText b
  | address a => Instruction.addressText a
  | word w => Hex.address w.toNat
  | rows n => toString n.val
  | index => "I"
  | atIndex => "[I]"
  | delay => "DT"
  | sound => "ST"
  | key => "K"
  | glyph => "F"
  | digits => "B"

/-- A number that stays below a bound. -/
def below? (bound n : Nat) : Option (Fin bound) := if h : n < bound then some ⟨n, h⟩ else none

/-- A hexadecimal numeral below a bound. -/
def hexadecimal? (bound : Nat) (cs : List Char) : Option (Fin bound) :=
  (Numeral.number? 16 Numeral.hexDigit? 0 cs).bind (below? bound)

/-- The operand of a text.  Three digits behind a `$` are an address, any others are a word. -/
def operand? : List Char → Option Operand
  | ['I'] => some .index
  | ['[', 'I', ']'] => some .atIndex
  | ['D', 'T'] => some .delay
  | ['S', 'T'] => some .sound
  | ['K'] => some .key
  | ['F'] => some .glyph
  | ['B'] => some .digits
  | 'V' :: cs => (hexadecimal? 16 cs).map .register
  | '#' :: cs => (hexadecimal? 256 cs).map fun n : Fin 256 => .byte (UInt8.ofNat n.val)
  | '$' :: cs =>
    if cs.length = 3 then (hexadecimal? 4096 cs).map .address
    else (hexadecimal? 65536 cs).map fun n : Fin 65536 => .word (UInt16.ofNat n.val)
  | cs => ((Numeral.number? 10 Numeral.digit? 0 cs).bind (below? 16)).map .rows

/-- The texts between separators; an empty text has none. -/
def fields (separator : Char) (cs : List Char) : List (List Char) :=
  if cs = [] then [] else cs.splitOn separator

/-- Blanks and braces mean nothing in a row of operands. -/
def counts (c : Char) : Bool := c ∉ [' ', '\x7b', '\x7d']

/-- The operands of a row, which has commas between them. -/
def operands? (cs : List Char) : Option (List Operand) :=
  (fields ',' (cs.filter counts)).mapM operand?

/-! ### Finding the instruction -/

/-- The instruction of a form with some operands, if they are those of the form. -/
def ofForm? : Form → List Operand → Option Instruction
  | .machineCall, [.address a] => some (.machineCall a)
  | .clearScreen, [] => some .clearScreen
  | .ret, [] => some .ret
  | .jump, [.address a] => some (.jump a)
  | .call, [.address a] => some (.call a)
  | .skipEqualByte, [.register x, .byte b] => some (.skip (.equalByte x b))
  | .skipUnequalByte, [.register x, .byte b] => some (.skip (.unequalByte x b))
  | .skipEqualRegister, [.register x, .register y] => some (.skip (.equalRegister x y))
  | .loadByte, [.register x, .byte b] => some (.loadByte x b)
  | .addByte, [.register x, .byte b] => some (.addByte x b)
  | .copy, [.register x, .register y] => some (.combine .copy x y)
  | .or, [.register x, .register y] => some (.combine .or x y)
  | .and, [.register x, .register y] => some (.combine .and x y)
  | .xor, [.register x, .register y] => some (.combine .xor x y)
  | .add, [.register x, .register y] => some (.combine .add x y)
  | .subtract, [.register x, .register y] => some (.combine .subtract x y)
  | .shiftRight, [.register x, .register y] => some (.combine .shiftRight x y)
  | .subtractFrom, [.register x, .register y] => some (.combine .subtractFrom x y)
  | .shiftLeft, [.register x, .register y] => some (.combine .shiftLeft x y)
  | .skipUnequalRegister, [.register x, .register y] => some (.skip (.unequalRegister x y))
  | .loadIndex, [.index, .address a] => some (.loadIndex a)
  | .jumpIndexed, [.register x, .address a] =>
    if x = Registers.first then some (.jumpIndexed a) else none
  | .random, [.register x, .byte b] => some (.random x b)
  | .draw, [.register x, .register y, .rows n] => some (.draw x y n)
  | .skipKeyHeld, [.register x] => some (.skip (.keyHeld x))
  | .skipKeyFree, [.register x] => some (.skip (.keyFree x))
  | .readDelay, [.register x, .delay] => some (.readDelay x)
  | .awaitKey, [.register x, .key] => some (.awaitKey x)
  | .setDelay, [.delay, .register x] => some (.setDelay x)
  | .setSound, [.sound, .register x] => some (.setSound x)
  | .addIndex, [.index, .register x] => some (.addIndex x)
  | .glyph, [.glyph, .register x] => some (.glyph x)
  | .decimal, [.digits, .register x] => some (.decimal x)
  | .store, [.atIndex, .register x] => some (.store x)
  | .restore, [.register x, .atIndex] => some (.restore x)
  | .unassigned, [.word w] => some (.unassigned w)
  | _, _ => none

/-- The instruction of a mnemonic and operands: the first form with this mnemonic that has such
operands. -/
def instruction? (mnemonic : String) (operands : List Operand) : Option Instruction :=
  Form.all.findSome? fun form =>
    if form.mnemonic = mnemonic then ofForm? form operands else none

/-- The operands of an instruction, as an assembler reads them. -/
def operandList : Instruction → List Operand
  | .clearScreen | .ret => []
  | .machineCall target | .jump target | .call target => [.address target]
  | .jumpIndexed base => [.register Registers.first, .address base]
  | .skip (.equalByte x byte) | .skip (.unequalByte x byte) => [.register x, .byte byte]
  | .skip (.equalRegister x y) | .skip (.unequalRegister x y) => [.register x, .register y]
  | .skip (.keyHeld x) | .skip (.keyFree x) => [.register x]
  | .loadByte x byte | .addByte x byte | .random x byte => [.register x, .byte byte]
  | .combine _ x y => [.register x, .register y]
  | .loadIndex target => [.index, .address target]
  | .draw x y rows => [.register x, .register y, .rows rows]
  | .readDelay x => [.register x, .delay]
  | .awaitKey x => [.register x, .key]
  | .setDelay x => [.delay, .register x]
  | .setSound x => [.sound, .register x]
  | .addIndex x => [.index, .register x]
  | .glyph x => [.glyph, .register x]
  | .decimal x => [.digits, .register x]
  | .store x => [.atIndex, .register x]
  | .restore x => [.register x, .atIndex]
  | .unassigned word => [.word word]

/-- The operands of a form belong to the form, and the forms before it that share its mnemonic have
others. -/
theorem instruction?_operandList (i : Instruction) :
    instruction? i.form.mnemonic (operandList i) = some i := by
  cases i with
  | skip condition => cases condition <;> rfl
  | combine operation x y => cases operation <;> rfl
  | _ => rfl

/-! ### Reading operands back -/

theorem hexadecimal?_padded {bound : Nat} (width : Nat) (n : Fin bound) :
    hexadecimal? bound (Hex.padded width n.val).toList = some n := by
  rw [hexadecimal?, Hex.number?_padded, Option.bind_some, below?, dif_pos n.isLt]

theorem operand?_register (cs : List Char) :
    operand? ('V' :: cs) = (hexadecimal? 16 cs).map .register := rfl

theorem operand?_byte (cs : List Char) : operand? ('#' :: cs) =
    (hexadecimal? 256 cs).map fun n : Fin 256 => .byte (UInt8.ofNat n.val) := rfl

theorem operand?_place (cs : List Char) : operand? ('$' :: cs) =
    if cs.length = 3 then (hexadecimal? 4096 cs).map .address
    else (hexadecimal? 65536 cs).map fun n : Fin 65536 => .word (UInt16.ofNat n.val) := rfl

/-- **The text of an operand is read back as the operand.** -/
theorem operand?_text (o : Operand) : operand? o.text.toList = some o := by
  -- each mark is one kind of numeral; addresses and words share theirs, but not their length
  cases o with
  | register x =>
    rw [Operand.text, Instruction.registerText, String.toList_append]
    show operand? ('V' :: (Hex.padded 1 x.val).toList) = _
    rw [operand?_register, hexadecimal?_padded, Option.map_some]
  | byte b =>
    rw [Operand.text, Instruction.byteText, String.toList_append]
    show operand? ('#' :: (Hex.padded 2 b.toFin.val).toList) = _
    rw [operand?_byte, hexadecimal?_padded, Option.map_some]
    exact congrArg (fun b => some (Operand.byte b)) UInt8.ofNat_toNat
  | address a =>
    rw [Operand.text, Instruction.addressText, Hex.target, String.toList_append]
    show operand? ('$' :: (Hex.padded 3 a.val).toList) = _
    rw [operand?_place, if_pos (Hex.length_padded (by decide) a.isLt), hexadecimal?_padded,
      Option.map_some]
  | word w =>
    have hlength : (Hex.padded 4 w.toFin.val).toList.length = 4 :=
      Hex.length_padded (by decide) w.toFin.isLt
    rw [Operand.text, Hex.address, String.toList_append]
    show operand? ('$' :: (Hex.padded 4 w.toFin.val).toList) = _
    rw [operand?_place, if_neg (by rw [hlength]; decide), hexadecimal?_padded, Option.map_some]
    exact congrArg (fun w => some (Operand.word w)) UInt16.ofNat_toNat
  | rows n =>
    revert n
    decide
  | _ => rfl

/-- The characters that stand between operands, or end the part of a line that has them. -/
def separators : List Char := [' ', ',', '\x7b', '\x7d', ';', '\n']

theorem notMem_separators_of_mark {mark : String} (width : Nat) (n : Int)
    (hmark : mark.toList.all (· ∉ separators) = true) :
    ∀ c ∈ (mark ++ Hex.padded width n).toList, c ∉ separators := by
  intro c hc
  rw [String.toList_append] at hc
  rcases List.mem_append.mp hc with hc | hc
  · exact forall_mem_of_all hmark c hc
  · have halphabet : Hex.alphabet.all (· ∉ separators) = true := by decide
    exact forall_mem_of_all halphabet c (Hex.mem_padded hc)

theorem notMem_separators (o : Operand) : ∀ c ∈ o.text.toList, c ∉ separators := by
  cases o with
  | register x => exact notMem_separators_of_mark 1 x.val (by decide)
  | byte b => exact notMem_separators_of_mark 2 b.toNat (by decide)
  | address a => exact notMem_separators_of_mark 3 a.val (by decide)
  | word w => exact notMem_separators_of_mark 4 w.toNat (by decide)
  | rows n =>
    have hrows : ∀ n : Fin 16, (Operand.rows n).text.toList.all (· ∉ separators) = true := by
      decide
    exact forall_mem_of_all (hrows n)
  | _ => exact forall_mem_of_all (by decide)

theorem filter_text (o : Operand) : o.text.toList.filter counts = o.text.toList := by
  refine List.filter_eq_self.mpr fun c hc => ?_
  have h := notMem_separators o c hc
  simp only [separators, List.mem_cons, List.not_mem_nil, or_false, not_or] at h
  simp [counts, h]

/-- The texts of operands with commas between them. -/
def row (operands : List Operand) : List Char :=
  [','].intercalate (operands.map fun o => o.text.toList)

theorem filter_one (o : Operand) : o.text.toList.filter counts = row [o] := by
  rw [filter_text]
  simp [row]

/-- What stands between operands and around them leaves nothing but the comma. -/
theorem filter_two (o p : Operand) (between after : String)
    (hbetween : between.toList.filter counts = [',']) (hafter : after.toList.filter counts = []) :
    (o.text ++ between ++ p.text ++ after).toList.filter counts = row [o, p] := by
  simp only [String.toList_append, List.filter_append, filter_text, hbetween, hafter]
  simp [row]

theorem filter_three (o p q : Operand) :
    (o.text ++ ", " ++ p.text ++ ", " ++ q.text).toList.filter counts = row [o, p, q] := by
  have hcomma : ", ".toList.filter counts = [','] := by decide
  simp only [String.toList_append, List.filter_append, filter_text, hcomma]
  simp [row]

/-- Without what does not count, the operands of an instruction are the texts of its operands with
commas between them. -/
theorem filter_operands (i : Instruction) :
    i.operands.toList.filter counts = row (operandList i) := by
  have htwo (o p : Operand) : (o.text ++ ", " ++ p.text).toList.filter counts = row [o, p] := by
    have h := filter_two o p ", " "" (by decide) rfl
    rwa [String.append_empty] at h
  -- a second operand that is a fixed text stands behind its comma in one piece
  have hfixed (o p : Operand) : (o.text ++ (", " ++ p.text)).toList.filter counts = row [o, p] := by
    rw [← String.append_assoc]
    exact htwo o p
  have hshift (x y : Register) :
      (Instruction.registerText x ++ " \x7b, " ++ Instruction.registerText y ++
        "\x7d").toList.filter counts = row [.register x, .register y] :=
    filter_two (.register x) (.register y) " \x7b, " "\x7d" (by decide) (by decide)
  cases i with
  | clearScreen | ret => rfl
  | skip condition =>
    cases condition with
    | equalByte x byte | unequalByte x byte => exact htwo (.register x) (.byte byte)
    | equalRegister x y | unequalRegister x y => exact htwo (.register x) (.register y)
    | keyHeld x | keyFree x => exact filter_one (.register x)
  | machineCall target | jump target | call target => exact filter_one (.address target)
  | jumpIndexed base => exact htwo (.register Registers.first) (.address base)
  | loadByte x byte | addByte x byte | random x byte => exact htwo (.register x) (.byte byte)
  | combine operation x y =>
    cases operation with
    | shiftRight | shiftLeft => exact hshift x y
    | _ => exact htwo (.register x) (.register y)
  | loadIndex target => exact htwo .index (.address target)
  | draw x y rows => exact filter_three (.register x) (.register y) (.rows rows)
  | readDelay x => exact hfixed (.register x) .delay
  | awaitKey x => exact hfixed (.register x) .key
  | setDelay x => exact htwo .delay (.register x)
  | setSound x => exact htwo .sound (.register x)
  | addIndex x => exact htwo .index (.register x)
  | glyph x => exact htwo .glyph (.register x)
  | decimal x => exact htwo .digits (.register x)
  | store x => exact htwo .atIndex (.register x)
  | restore x => exact hfixed (.register x) .atIndex
  | unassigned word => exact filter_one (.word word)

/-! ### Fields -/

variable {α β : Type} {separator : Char} {texts : List (List Char)}

theorem fields_intercalate (h : ∀ text ∈ texts, text ≠ [] ∧ separator ∉ text) :
    fields separator ([separator].intercalate texts) = texts := by
  rw [fields]
  cases texts with
  | nil => rfl
  | cons text texts =>
    have hsplit : ([separator].intercalate (text :: texts)).splitOn separator = text :: texts :=
      List.splitOn_intercalate separator (fun t ht => (h t ht).2) (List.cons_ne_nil _ _)
    split
    · next hnil =>
      rw [hnil, List.splitOn_nil] at hsplit
      have hempty : text = [] := (List.cons.inj hsplit).1.symm
      exact absurd hempty (h text List.mem_cons_self).1
    · exact hsplit

theorem mapM_eq_some {f : α → Option β} {g : α → β} {xs : List α}
    (h : ∀ x ∈ xs, f x = some (g x)) : xs.mapM f = some (xs.map g) := by
  induction xs with
  | nil => rfl
  | cons x xs ih =>
    rw [List.mapM_cons, h x List.mem_cons_self,
      ih fun y hy => h y (List.mem_cons_of_mem x hy)]
    rfl

/-- **A row of operands is read back**, whatever else there is that does not count. -/
theorem operands?_of_row {operands : List Operand} {cs : List Char}
    (h : cs.filter counts = row operands) : operands? cs = some operands := by
  have hfields : fields ',' (row operands) = operands.map fun o => o.text.toList := by
    refine fields_intercalate fun text htext => ?_
    obtain ⟨o, -, rfl⟩ := List.mem_map.mp htext
    refine ⟨fun hnil => ?_, fun hcomma => notMem_separators o _ hcomma (by decide)⟩
    have hread := operand?_text o
    rw [hnil] at hread
    cases hread
  rw [operands?, h, hfields, List.mapM_map]
  exact (mapM_eq_some (g := id) fun o _ => operand?_text o).trans (by rw [List.map_id])

theorem notMem_of_row {operands : List Operand} {cs : List Char}
    (h : cs.filter counts = row operands) {c : Char} (hcounts : counts c = true) (hcomma : c ≠ ',')
    (hc : c ∈ separators) : c ∉ cs := by
  intro hmem
  have hrow : c ∈ row operands := h ▸ List.mem_filter.mpr ⟨hmem, hcounts⟩
  rcases mem_of_mem_intercalate hrow with hseparator | ⟨text, htext, hctext⟩
  · exact hcomma (List.mem_singleton.mp hseparator)
  · obtain ⟨o, -, rfl⟩ := List.mem_map.mp htext
    exact notMem_separators o c hctext hc

end Assembler

end Chip8
