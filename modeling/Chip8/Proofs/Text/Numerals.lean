import Chip8.Text.Hex
import Chip8.Text.Numeral
import Mathlib.Data.Nat.Digits.Lemmas

/-!
# Reading numerals back

The digits of a number, read one after the other from the front, make up the number again, however
many zeros stand before them.  So a natural number can be told from its numeral, whatever the least
width of the numeral is.

* `Numeral.number?_toDigits`: **the digits of a number are read back as the number.**
* `Hex.mem_padded`, `Hex.length_padded`: the characters of a hexadecimal numeral, and how many there
  are.
* `Hex.number?_padded`: **a hexadecimal numeral is read back as its number.**
-/

namespace Chip8

/-- Fixed texts are gone through character by character. -/
theorem forall_mem_of_all {cs : List Char} {P : Char → Prop} [DecidablePred P]
    (h : cs.all (fun c => decide (P c)) = true) : ∀ c ∈ cs, P c := by
  simpa using h

theorem exists_digitChar_of_mem_toDigits {base n : Nat} (hbase : 1 < base) {c : Char}
    (hc : c ∈ Nat.toDigits base n) : ∃ d < base, c = Nat.digitChar d := by
  induction n using Nat.strongRecOn with
  | ind n ih =>
    rw [Nat.toDigits_eq_if hbase] at hc
    split at hc
    · next hlt => exact ⟨n, hlt, List.mem_singleton.mp hc⟩
    · rcases List.mem_append.mp hc with hfront | hlast
      · exact ih (n / base) (Nat.div_lt_self (by omega) hbase) hfront
      · exact ⟨n % base, Nat.mod_lt n (by omega), List.mem_singleton.mp hlast⟩

namespace Numeral

variable {base before value d : Nat} {digitOf : Char → Option Nat} {c : Char} {cs : List Char}

theorem number?_cons (hd : digitOf c = some d) (hcs : cs ≠ []) (hplain : cs.head? ≠ some '_') :
    number? base digitOf before (c :: cs) = number? base digitOf (before * base + d) cs := by
  cases cs with
  | nil => exact absurd rfl hcs
  | cons c' rest =>
    have hc' : c' ≠ '_' := fun h => hplain (congrArg some h)
    rw [number?]
    simp only [hd]

theorem number?_append (hcs : number? base digitOf before cs = some value) (hplain : '_' ∉ cs)
    (hd : digitOf c = some d) (hc : c ≠ '_') :
    number? base digitOf before (cs ++ [c]) = some (value * base + d) := by
  induction cs generalizing before with
  | nil => cases hcs
  | cons c' rest ih =>
    cases hd' : digitOf c' with
    | none =>
      rw [number?, hd'] at hcs
      cases hcs
    | some d' =>
      have hrest : '_' ∉ rest := List.not_mem_of_not_mem_cons hplain
      have hall : '_' ∉ rest ++ [c] := by
        simp only [List.mem_append, List.mem_singleton, not_or]
        exact ⟨hrest, hc.symm⟩
      rw [List.cons_append, number?_cons hd' (by simp) fun h => hall (List.mem_of_head? h)]
      -- the last digit of all follows the only one there is, or a later one
      cases rest with
      | nil =>
        rw [number?, hd'] at hcs
        cases hcs
        rw [List.nil_append, number?, hd]
      | cons c'' rest =>
        rw [number?_cons hd' (List.cons_ne_nil _ _) fun h => hrest (List.mem_of_head? h)] at hcs
        exact ih hcs hrest

/-- **The digits of a number are read back as the number**, if they are written with characters that
are read as those digits. -/
theorem number?_toDigits (hbase : 1 < base) {f : Char → Char}
    (hdigit : ∀ d < base, digitOf (f d.digitChar) = some d)
    (hplain : ∀ d < base, f d.digitChar ≠ '_') (n : Nat) :
    number? base digitOf 0 ((Nat.toDigits base n).map f) = some n := by
  induction n using Nat.strongRecOn with
  | ind n ih =>
    rw [Nat.toDigits_eq_if hbase]
    split
    · next hlt =>
      rw [List.map_singleton, number?, hdigit n hlt]
      simp
    · have hfront : '_' ∉ (Nat.toDigits base (n / base)).map f := by
        intro hmem
        obtain ⟨c, hc, hf⟩ := List.mem_map.mp hmem
        obtain ⟨d, hd, rfl⟩ := exists_digitChar_of_mem_toDigits hbase hc
        exact hplain d hd hf
      have hlast : n % base < base := Nat.mod_lt n (by omega)
      rw [List.map_append, List.map_singleton,
        number?_append (ih (n / base) (Nat.div_lt_self (by omega) hbase)) hfront
          (hdigit _ hlast) (hplain _ hlast), Nat.div_add_mod']

theorem number?_replicate (hzero : digitOf '0' = some 0) (hcs : cs ≠ [])
    (hplain : cs.head? ≠ some '_') (zeros : Nat) :
    number? base digitOf 0 (List.replicate zeros '0' ++ cs) = number? base digitOf 0 cs := by
  induction zeros with
  | zero => rfl
  | succ zeros ih =>
    have hne : List.replicate zeros '0' ++ cs ≠ [] := by simp [hcs]
    have hhead : (List.replicate zeros '0' ++ cs).head? ≠ some '_' := by
      cases zeros with
      | zero => exact hplain
      | succ zeros => simp [List.replicate_succ]
    rw [List.replicate_succ, List.cons_append, number?_cons hzero hne hhead, Nat.zero_mul,
      Nat.add_zero, ih]

end Numeral

namespace Hex

/-- The characters of hexadecimal numerals. -/
def alphabet : List Char :=
  ['-', '0', '1', '2', '3', '4', '5', '6', '7', '8', '9', 'A', 'B', 'C', 'D', 'E', 'F']

theorem mem_alphabet_of_mem_digits {n : Nat} {c : Char} (hc : c ∈ digits n) : c ∈ alphabet := by
  have hall : ∀ d < 16, d.digitChar.toUpper ∈ alphabet := by decide
  obtain ⟨c', hc', rfl⟩ := List.mem_map.mp hc
  obtain ⟨d, hd, rfl⟩ := exists_digitChar_of_mem_toDigits (by decide) hc'
  exact hall d hd

theorem mem_alphabet_of_mem_leftpad {width n : Nat} {c : Char}
    (hc : c ∈ (digits n).leftpad width '0') : c ∈ alphabet := by
  rcases List.mem_append.mp hc with hzero | hdigit
  · obtain rfl := List.eq_of_mem_replicate hzero
    decide
  · exact mem_alphabet_of_mem_digits hdigit

theorem mem_padded {width : Nat} {n : Int} {c : Char} (hc : c ∈ (padded width n).toList) :
    c ∈ alphabet := by
  rw [padded] at hc
  split at hc
  · rw [String.toList_ofList] at hc
    rcases List.mem_cons.mp hc with rfl | hc
    · decide
    · exact mem_alphabet_of_mem_leftpad hc
  · rw [String.toList_ofList] at hc
    exact mem_alphabet_of_mem_leftpad hc

theorem number?_digits (n : Nat) : Numeral.number? 16 Numeral.hexDigit? 0 (digits n) = some n :=
  Numeral.number?_toDigits (by decide) (by decide) (by decide) n

theorem number?_zeros (zeros n : Nat) :
    Numeral.number? 16 Numeral.hexDigit? 0 (List.replicate zeros '0' ++ digits n) = some n := by
  have hne : digits n ≠ [] := fun h => Nat.toDigits_ne_nil (List.map_eq_nil_iff.mp h)
  have hplain : (digits n).head? ≠ some '_' := by
    intro h
    exact absurd (mem_alphabet_of_mem_digits (List.mem_of_head? h)) (by decide)
  rw [Numeral.number?_replicate (by decide) hne hplain, number?_digits]

/-- A number that fits into the width takes no more and no less. -/
theorem length_padded {width n : Nat} (hwidth : 0 < width) (hn : n < 16 ^ width) :
    (padded width n).toList.length = width := by
  have hle : (digits n).length ≤ width := by
    rw [digits, List.length_map]
    exact (Nat.length_toDigits_le_iff (by decide) hwidth).mpr hn
  rw [padded, if_neg (by omega), String.toList_ofList, List.length_leftpad]
  exact Nat.max_eq_left hle

/-- **A hexadecimal numeral is read back as its number.** -/
theorem number?_padded (width n : Nat) :
    Numeral.number? 16 Numeral.hexDigit? 0 (padded width n).toList = some n := by
  rw [padded, if_neg (by omega), String.toList_ofList]
  exact number?_zeros _ n

end Hex

end Chip8
