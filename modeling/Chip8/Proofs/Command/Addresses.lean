import Chip8.Command.Value
import Chip8.Proofs.Text.Grammar

/-!
# Addresses that a user writes

A user may write an address in several ways.  What stands in front tells the base: behind `0x`, `0X`
or `$` stands a number in base sixteen, and anything else is a number in base ten.  Whatever is
written gives an address of memory or is refused, and it is refused for one of two reasons.

* `Spells`: how an integer is written in one of these ways.
* `addressNumeral?_eq_some_iff`: **a text is read as an integer exactly if it spells it.**
* `parseAddress_of_spells`: what a text gives that spells an integer.
* `addresses_read`: **each text gives an address or is refused, and each address has its
  spellings.**
-/

namespace Chip8.Command

open Numeral

variable {text mark : String} {cs : List Char} {ds : List Nat} {n : Int} {a : Nat}

/-- The marks of numbers in base sixteen. -/
def marks : List String := ["0x", "0X", "$"]

/-- A text begins with a mark. -/
def IsMarked (cs : List Char) : Prop := ∃ mark ∈ marks, mark.toList <+: cs

/-- A text spells an integer: in base sixteen behind a mark, or else in base ten. -/
inductive Spells : List Char → Int → Prop
  | zero {x : Char} {cs : List Char} {n : Int} : x = 'x' ∨ x = 'X' →
      Denotes IsHexadecimal ('0' :: x :: cs) n → Spells ('0' :: x :: cs) n
  | dollar {cs : List Char} {n : Int} : Denotes IsHexadecimal cs n → Spells ('$' :: cs) n
  | decimal {cs : List Char} {n : Int} : Denotes IsDecimal cs n → Spells cs n

theorem notMem_of_isDecimal (h : Denotes IsDecimal cs n) : ∀ c ∈ ['x', 'X', '$'], c ∉ cs := by
  have hnone : ∀ c ∈ ['x', 'X', '$'],
      ¬ (isBlank c = true ∨ c ∈ ['+', '-', '_'] ∨ (digit? c).isSome = true) :=
    forall_mem_of_all (by decide)
  intro c hmark hc
  refine hnone c hmark ?_
  rcases h.mem_of_isDecimal c hc with hblank | hsign | ⟨d, hd⟩
  · exact .inl hblank
  · exact .inr (.inl hsign)
  · exact .inr (.inr (by simp [hd]))

/-- **A text is read as an integer exactly if it spells it.** -/
theorem addressNumeral?_eq_some_iff : addressNumeral? text = some n ↔ Spells text.toList n := by
  -- each branch is one way to spell an integer; the marks keep the others out
  unfold addressNumeral?
  split
  · next rest heq =>
    rw [hexadecimal?_eq_some_iff, heq]
    constructor
    · exact .zero (.inl rfl)
    · rintro (⟨-, h⟩ | h | h)
      · exact h
      · exact absurd (by simp) (notMem_of_isDecimal h 'x' (by simp))
  · next rest heq =>
    rw [hexadecimal?_eq_some_iff, heq]
    constructor
    · exact .zero (.inr rfl)
    · rintro (⟨-, h⟩ | h | h)
      · exact h
      · exact absurd (by simp) (notMem_of_isDecimal h 'X' (by simp))
  · next rest heq =>
    rw [hexadecimal?_eq_some_iff, heq, String.toList_ofList]
    constructor
    · exact .dollar
    · rintro (_ | h | h)
      · exact h
      · exact absurd (by simp) (notMem_of_isDecimal h '$' (by simp))
  · next hx hX hdollar =>
    rw [decimal?_eq_some_iff]
    constructor
    · exact .decimal
    · intro h
      generalize hcs : text.toList = cs at h
      cases h with
      | zero hmark _ =>
        rcases hmark with rfl | rfl
        · exact absurd hcs (hx _)
        · exact absurd hcs (hX _)
      | dollar _ => exact absurd hcs (hdollar _)
      | decimal h => exact h

theorem Spells.denotes (h : Spells cs n) (hmark : ¬ IsMarked cs) : Denotes IsDecimal cs n := by
  cases h with
  | zero hx _ =>
    rcases hx with rfl | rfl
    · exact absurd ⟨"0x", by simp [marks], _, rfl⟩ hmark
    · exact absurd ⟨"0X", by simp [marks], _, rfl⟩ hmark
  | dollar _ => exact absurd ⟨"$", by simp [marks], _, rfl⟩ hmark
  | decimal h => exact h

/-- A mark and a number in base sixteen spell the number. -/
theorem spells_of_mark (hmark : mark ∈ marks) (hcs : number? 16 hexDigit? 0 cs = some a) :
    Spells (mark ++ String.ofList cs).toList a := by
  obtain ⟨ds, hrow, ha⟩ := (number?_eq_some_iff hexDigit?_underscore).mp hcs
  have hzero : digit? '0' = some 0 := by decide
  rw [String.toList_append, String.toList_ofList]
  simp only [marks, List.mem_cons, List.not_mem_nil, or_false] at hmark
  rcases hmark with rfl | rfl | rfl
  · exact .zero (.inl rfl)
      (denotes_of_isNumber ⟨['0', 'x'], cs, ds, rfl, .plain hzero (.inl rfl), hrow, ha⟩)
  · exact .zero (.inr rfl)
      (denotes_of_isNumber ⟨['0', 'X'], cs, ds, rfl, .plain hzero (.inr rfl), hrow, ha⟩)
  · exact .dollar (denotes_of_isNumber ⟨[], cs, ds, rfl, .none, hrow, ha⟩)

theorem spells_of_row (hrow : Row digit? cs ds) (hlimit : ds.length ≤ digitLimit) :
    Spells (String.ofList cs).toList ((Nat.ofDigits 10 ds.reverse : Nat) : Int) := by
  rw [String.toList_ofList]
  exact .decimal (denotes_of_isNumber ⟨ds, hrow, hlimit, rfl⟩)

/-! ### What a text gives -/

/-- The integer of a text is an address, or else the text is refused. -/
def placed (text : String) (n : Int) : Except AddressError Nat :=
  if 0 ≤ n ∧ n < 4096 then .ok n.toNat else .error (.outOfRange text)

theorem placed_natCast (text : String) (a : Nat) :
    placed text a = if a < 4096 then .ok a else .error (.outOfRange text) := by
  by_cases ha : a < 4096
  · rw [placed, if_pos ⟨by omega, by omega⟩, if_pos ha, Int.toNat_natCast]
  · rw [placed, if_neg (by omega), if_neg ha]

theorem parseAddress_of_spells (h : Spells text.toList n) : parseAddress text = placed text n := by
  rw [parseAddress, addressNumeral?_eq_some_iff.mpr h, placed]

theorem parseAddress_of_not_spells (h : ∀ n, ¬ Spells text.toList n) :
    parseAddress text = .error (.malformed text) := by
  cases hn : addressNumeral? text with
  | none => rw [parseAddress, hn]
  | some n => exact absurd (addressNumeral?_eq_some_iff.mp hn) (h n)

theorem spells_or_not (text : String) :
    (∃ n, Spells text.toList n ∧ parseAddress text = placed text n) ∨
      (∀ n, ¬ Spells text.toList n) ∧ parseAddress text = .error (.malformed text) := by
  by_cases h : ∃ n, Spells text.toList n
  · obtain ⟨n, hn⟩ := h
    exact .inl ⟨n, hn, parseAddress_of_spells hn⟩
  · have hnone : ∀ n, ¬ Spells text.toList n := not_exists.mp h
    exact .inr ⟨hnone, parseAddress_of_not_spells hnone⟩

theorem parseAddress_eq_ok_iff :
    parseAddress text = .ok a ↔ a < 4096 ∧ Spells text.toList a := by
  constructor
  · intro h
    rcases spells_or_not text with ⟨n, hn, hparse⟩ | ⟨-, hparse⟩
    · rw [hparse, placed] at h
      split at h
      · next hrange =>
        obtain rfl := Except.ok.inj h
        rw [Int.toNat_of_nonneg hrange.1]
        exact ⟨by omega, hn⟩
      · cases h
    · rw [hparse] at h
      cases h
  · rintro ⟨ha, h⟩
    rw [parseAddress_of_spells h, placed_natCast, if_pos ha]

theorem parseAddress_eq_outOfRange_iff : parseAddress text = .error (.outOfRange text) ↔
    ∃ n, Spells text.toList n ∧ ¬ (0 ≤ n ∧ n < 4096) := by
  constructor
  · intro h
    rcases spells_or_not text with ⟨n, hn, hparse⟩ | ⟨-, hparse⟩
    · rw [hparse, placed] at h
      split at h
      · cases h
      · next hrange => exact ⟨n, hn, hrange⟩
    · rw [hparse] at h
      cases h
  · rintro ⟨n, hn, hrange⟩
    rw [parseAddress_of_spells hn, placed, if_neg hrange]

theorem parseAddress_eq_malformed_iff :
    parseAddress text = .error (.malformed text) ↔ ∀ n, ¬ Spells text.toList n := by
  constructor
  · intro h n hn
    rw [parseAddress_of_spells hn, placed] at h
    split at h
    · cases h
    · cases h
  · exact parseAddress_of_not_spells

/-! ### Spellings of an address -/

/-- Hexadecimal digits in either case, behind any number of zeros. -/
theorem number?_spelling (hcs : cs.map Char.toUpper = Hex.digits a) (zeros : Nat) :
    number? 16 hexDigit? 0 (List.replicate zeros '0' ++ cs) = some a := by
  have hzeros : (List.replicate zeros '0' ++ cs).map Char.toUpper =
      List.replicate zeros '0' ++ Hex.digits a := by
    rw [List.map_append, List.map_replicate, hcs]
    rfl
  rw [← number?_map hexDigit?_toUpper toUpper_eq_underscore_iff, hzeros, Hex.number?_zeros]

theorem exists_row_toDigits (zeros a : Nat) :
    ∃ ds, Row digit? (List.replicate zeros '0' ++ Nat.toDigits 10 a) ds ∧
      ds.length = zeros + (Nat.toDigits 10 a).length ∧ a = Nat.ofDigits 10 ds.reverse := by
  have hplain : '_' ∉ Nat.toDigits 10 a := by
    intro hmem
    have hall : ∀ d < 10, '_' ≠ d.digitChar := by decide
    obtain ⟨d, hd, hc⟩ := exists_digitChar_of_mem_toDigits (by decide) hmem
    exact hall d hd hc
  have hdigits : number? 10 digit? 0 (Nat.toDigits 10 a) = some a := by
    have hread : number? 10 digit? 0 ((Nat.toDigits 10 a).map id) = some a :=
      number?_toDigits (by decide) (by decide) (by decide) a
    rwa [List.map_id] at hread
  have hread : number? 10 digit? 0 (List.replicate zeros '0' ++ Nat.toDigits 10 a) = some a := by
    rw [number?_replicate (by decide) Nat.toDigits_ne_nil
      (fun h => hplain (List.mem_of_head? h)), hdigits]
  obtain ⟨ds, hrow, ha⟩ := (number?_eq_some_iff digit?_underscore).mp hread
  refine ⟨ds, hrow, ?_, ha⟩
  have hall : ∀ c ∈ List.replicate zeros '0' ++ Nat.toDigits 10 a, (c != '_') = true := by
    intro c hc
    rcases List.mem_append.mp hc with hzero | hdigit
    · obtain rfl := List.eq_of_mem_replicate hzero
      decide
    · exact bne_iff_ne.mpr fun h => hplain (h ▸ hdigit)
  rw [← hrow.countP_eq digit?_underscore, List.countP_eq_length.mpr hall, List.length_append,
    List.length_replicate]

/-- **Each text gives an address or is refused, and each address has its spellings.**  A text gives
the address that it spells; it is out of range if it spells another integer, and malformed if it
spells none.  Addresses may be written in base sixteen behind any mark and in base ten, with zeros
in front, as long as there are not too many digits; without a mark, the base is always ten. -/
theorem addresses_read :
    (∀ text, (∃ a < 4096, parseAddress text = .ok a) ∨
      parseAddress text = .error (.malformed text) ∨
      parseAddress text = .error (.outOfRange text)) ∧
    (∀ text a, parseAddress text = .ok a ↔ a < 4096 ∧ Spells text.toList a) ∧
    (∀ text, parseAddress text = .error (.outOfRange text) ↔
      ∃ n, Spells text.toList n ∧ ¬ (0 ≤ n ∧ n < 4096)) ∧
    (∀ text, parseAddress text = .error (.malformed text) ↔ ∀ n, ¬ Spells text.toList n) ∧
    (∀ a < 4096, ∀ zeros cs, cs.map Char.toUpper = Hex.digits a → ∀ mark ∈ marks,
      parseAddress (mark ++ String.ofList (List.replicate zeros '0' ++ cs)) = .ok a) ∧
    (∀ a < 4096, ∀ zeros, zeros + (Nat.toDigits 10 a).length ≤ 4300 →
      parseAddress (String.ofList (List.replicate zeros '0' ++ Nat.toDigits 10 a)) = .ok a) ∧
    (∀ text, ¬ IsMarked text.toList →
      (∀ a, parseAddress text = .ok a → Denotes IsDecimal text.toList a) ∧
      (4300 < text.toList.countP (fun c => (digit? c).isSome) →
        parseAddress text = .error (.malformed text))) ∧
    ∀ cs ds, Row digit? cs ds →
      (∀ mark ∈ marks, parseAddress (mark ++ String.ofList cs) =
        placed (mark ++ String.ofList cs) (Nat.ofDigits 16 ds.reverse : Nat)) ∧
      (ds.length ≤ 4300 → parseAddress (String.ofList cs) =
        placed (String.ofList cs) (Nat.ofDigits 10 ds.reverse : Nat)) := by
  refine ⟨fun text => ?_, fun text a => parseAddress_eq_ok_iff,
    fun text => parseAddress_eq_outOfRange_iff, fun text => parseAddress_eq_malformed_iff,
    fun a ha zeros cs hcs mark hmark => ?_, fun a ha zeros hlimit => ?_,
    fun text hmark => ⟨fun a h => ?_, fun hmany => ?_⟩,
    fun cs ds hrow => ⟨fun mark hmark => ?_, fun hlimit => ?_⟩⟩
  · rcases spells_or_not text with ⟨n, -, hparse⟩ | ⟨-, hparse⟩
    · rw [hparse, placed]
      split
      · exact .inl ⟨n.toNat, by omega, rfl⟩
      · exact .inr (.inr rfl)
    · exact .inr (.inl hparse)
  · exact parseAddress_eq_ok_iff.mpr ⟨ha, spells_of_mark hmark (number?_spelling hcs zeros)⟩
  · obtain ⟨ds, hrow, hlength, hvalue⟩ := exists_row_toDigits zeros a
    have hspells := spells_of_row hrow (by rw [hlength]; exact hlimit)
    rw [← hvalue] at hspells
    exact parseAddress_eq_ok_iff.mpr ⟨ha, hspells⟩
  · exact (parseAddress_eq_ok_iff.mp h).2.denotes hmark
  · refine parseAddress_of_not_spells fun n hn => ?_
    exact absurd (hn.denotes hmark).countP_le (Nat.not_le_of_lt hmany)
  · have hhex := hrow.mono fun _ _ => hexDigit?_of_digit?
    exact parseAddress_of_spells
      (spells_of_mark hmark ((number?_eq_some_iff hexDigit?_underscore).mpr ⟨ds, hhex, rfl⟩))
  · exact parseAddress_of_spells (spells_of_row hrow hlimit)

/-- Nothing at all is malformed, and so is a mark alone. -/
example : ["", "$", "0x"].map parseAddress =
    [.error (.malformed ""), .error (.malformed "$"), .error (.malformed "0x")] := by rfl

/-- Letters in both cases behind zeros, as many digits in base ten as there may be and one more, and
the same digits with and without a mark. -/
theorem addresses_read_in_both_bases :
    parseAddress "0x002fA" = .ok 0x2FA ∧
    parseAddress (String.ofList (List.replicate 4299 '0' ++ ['7'])) = .ok 7 ∧
    parseAddress (String.ofList (List.replicate 4301 '0')) =
      .error (.malformed (String.ofList (List.replicate 4301 '0'))) ∧
    parseAddress "$1_0" = .ok 16 ∧ parseAddress "1_0" = .ok 10 := by
  obtain ⟨-, -, -, -, hhex, hdecimal, hplain, hrow⟩ := addresses_read
  have hunmarked : ¬ IsMarked (String.ofList (List.replicate 4301 '0')).toList := by
    rintro ⟨mark, hmark, hstart⟩
    have hone : ∀ mark ∈ marks, mark.toList.any (· != '0') = true := by decide
    obtain ⟨c, hc, hne⟩ := List.any_eq_true.mp (hone mark hmark)
    have hmem := hstart.subset hc
    rw [String.toList_ofList] at hmem
    exact bne_iff_ne.mp hne (List.eq_of_mem_replicate hmem)
  have hmany : 4300 < (String.ofList (List.replicate 4301 '0')).toList.countP
      (fun c => (digit? c).isSome) := by
    rw [String.toList_ofList, List.countP_replicate, if_pos (by decide)]
    decide
  have hten : Row digit? ['1', '_', '0'] [1, 0] := .spaced (by decide) (.last (by decide))
  exact ⟨hhex 0x2FA (by decide) 2 ['2', 'f', 'A'] (by decide) "0x" (by decide),
    hdecimal 7 (by decide) 4299 (by decide), (hplain _ hunmarked).2 hmany,
    (hrow _ _ hten).1 "$" (by decide), (hrow _ _ hten).2 (by decide)⟩

end Chip8.Command
