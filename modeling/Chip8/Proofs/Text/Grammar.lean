import Chip8.Proofs.Text.Numerals
import Mathlib.Data.List.TakeWhile
import Mathlib.Data.Nat.Digits.Lemmas
import Mathlib.Tactic.Ring

/-!
# What is read as an integer

A number is written as a row of digits, with single underscores between digits at most; in base
sixteen a mark may stand before the row.  An integer is a number with maybe a sign in front and
blanks around it.  This is a grammar and says nothing of how a text is gone through.  Reading and
grammar agree: a text is read as an integer exactly if it is written so, and the integer is the one
that its digits have in their base.

* `Row`: a row of digits.
* `number?_eq_some_iff`: **what is read as a number is a row of digits and has their value.**
* `IsDecimal`, `IsHexadecimal`, `Denotes`: how numbers and integers are written.
* `decimal?_eq_some_iff`, `hexadecimal?_eq_some_iff`: **what is read as an integer is written as
  one.**
* `hexDigit?_toUpper`: the case of a letter does not count.
-/

namespace Chip8.Numeral

variable {base before n m d : Nat} {digitOf : Char → Option Nat} {c : Char} {cs : List Char}
  {ds : List Nat}

/-! ### Rows of digits -/

/-- A row of digits, and what they are; an underscore may stand between a digit and the next. -/
inductive Row (digitOf : Char → Option Nat) : List Char → List Nat → Prop
  | last {c : Char} {d : Nat} : digitOf c = some d → Row digitOf [c] [d]
  | next {c : Char} {d : Nat} {cs : List Char} {ds : List Nat} :
      digitOf c = some d → Row digitOf cs ds → Row digitOf (c :: cs) (d :: ds)
  | spaced {c : Char} {d : Nat} {cs : List Char} {ds : List Nat} :
      digitOf c = some d → Row digitOf cs ds → Row digitOf (c :: '_' :: cs) (d :: ds)

theorem Row.exists_first (h : Row digitOf cs ds) :
    ∃ c d rest, cs = c :: rest ∧ digitOf c = some d := by
  cases h with
  | last hd => exact ⟨_, _, _, rfl, hd⟩
  | next hd _ => exact ⟨_, _, _, rfl, hd⟩
  | spaced hd _ => exact ⟨_, _, _, rfl, hd⟩

theorem Row.exists_last (h : Row digitOf cs ds) :
    ∃ front c d, cs = front ++ [c] ∧ digitOf c = some d := by
  induction h with
  | last hd => exact ⟨[], _, _, rfl, hd⟩
  | next _ _ ih =>
    obtain ⟨front, c, d, rfl, hd⟩ := ih
    exact ⟨_ :: front, c, d, rfl, hd⟩
  | spaced _ _ ih =>
    obtain ⟨front, c, d, rfl, hd⟩ := ih
    exact ⟨_ :: '_' :: front, c, d, rfl, hd⟩

theorem Row.head?_ne (h : Row digitOf cs ds) (hplain : digitOf '_' = none) :
    cs.head? ≠ some '_' := by
  obtain ⟨c, d, rest, rfl, hd⟩ := h.exists_first
  intro hc
  obtain rfl := Option.some.inj hc
  rw [hplain] at hd
  cases hd

theorem Row.mem (h : Row digitOf cs ds) : ∀ c ∈ cs, c = '_' ∨ ∃ d, digitOf c = some d := by
  induction h with
  | last hd =>
    intro c hc
    obtain rfl := List.mem_singleton.mp hc
    exact .inr ⟨_, hd⟩
  | next hd _ ih =>
    intro c hc
    rcases List.mem_cons.mp hc with rfl | hc
    · exact .inr ⟨_, hd⟩
    · exact ih c hc
  | spaced hd _ ih =>
    intro c hc
    rcases List.mem_cons.mp hc with rfl | hc
    · exact .inr ⟨_, hd⟩
    · rcases List.mem_cons.mp hc with rfl | hc
      · exact .inl rfl
      · exact ih c hc

theorem Row.mono {digitOf' : Char → Option Nat}
    (hdigit : ∀ c d, digitOf c = some d → digitOf' c = some d) (h : Row digitOf cs ds) :
    Row digitOf' cs ds := by
  induction h with
  | last hd => exact .last (hdigit _ _ hd)
  | next hd _ ih => exact .next (hdigit _ _ hd) ih
  | spaced hd _ ih => exact .spaced (hdigit _ _ hd) ih

theorem Row.countP_eq (h : Row digitOf cs ds) (hplain : digitOf '_' = none) :
    cs.countP (· != '_') = ds.length := by
  have hdigit : ∀ {c d}, digitOf c = some d → c ≠ '_' := by
    rintro c d hd rfl
    rw [hplain] at hd
    cases hd
  induction h with
  | last hd => simp [hdigit hd]
  | next hd _ ih => simp [hdigit hd, ih]
  | spaced hd _ ih => simp [hdigit hd, ih]

theorem Row.number?_eq (h : Row digitOf cs ds) (hplain : digitOf '_' = none) (before : Nat) :
    number? base digitOf before cs =
      some (before * base ^ ds.length + Nat.ofDigits base ds.reverse) := by
  induction h generalizing before with
  | last hd =>
    rw [number?, hd]
    simp
  | next hd hrow ih =>
    obtain ⟨c', d', rest, hcs, -⟩ := hrow.exists_first
    rw [number?_cons hd (by simp [hcs]) (hrow.head?_ne hplain), ih, Nat.ofDigits_reverse_cons,
      List.length_cons]
    congr 1
    ring
  | spaced hd hrow ih =>
    rw [number?, hd]
    show number? base digitOf _ _ = _
    rw [ih, Nat.ofDigits_reverse_cons, List.length_cons]
    congr 1
    ring

theorem exists_row (h : number? base digitOf before cs = some n) : ∃ ds, Row digitOf cs ds := by
  fun_induction number? base digitOf before cs with
  | case1 => cases h
  | case2 => cases h
  | case3 before c d hd => exact ⟨[d], .last hd⟩
  | case4 before c d hd rest ih =>
    obtain ⟨ds, hrow⟩ := ih h
    exact ⟨d :: ds, .spaced hd hrow⟩
  | case5 before c d hd c' rest _ ih =>
    obtain ⟨ds, hrow⟩ := ih h
    exact ⟨d :: ds, .next hd hrow⟩

/-- **What is read as a number is a row of digits and has their value.** -/
theorem number?_eq_some_iff (hplain : digitOf '_' = none) :
    number? base digitOf 0 cs = some n ↔
      ∃ ds, Row digitOf cs ds ∧ n = Nat.ofDigits base ds.reverse := by
  have hvalue : ∀ {ds}, Row digitOf cs ds →
      number? base digitOf 0 cs = some (Nat.ofDigits base ds.reverse) := by
    intro ds hrow
    rw [hrow.number?_eq hplain, Nat.zero_mul, Nat.zero_add]
  constructor
  · intro h
    obtain ⟨ds, hrow⟩ := exists_row h
    rw [hvalue hrow] at h
    exact ⟨ds, hrow, (Option.some.inj h).symm⟩
  · rintro ⟨ds, hrow, rfl⟩
    exact hvalue hrow

/-! ### Digits -/

/-- So many characters that follow each other. -/
def span (first count : Nat) : List Char := (List.range count).map fun k => Char.ofNat (first + k)

theorem mem_span {first count : Nat} (hfirst : first ≤ c.toNat) (hcount : c.toNat < first + count) :
    c ∈ span first count := by
  refine List.mem_map.mpr ⟨c.toNat - first, List.mem_range.mpr (by omega), ?_⟩
  rw [Nat.add_sub_cancel' hfirst, Char.ofNat_toNat]

/-- The decimal digits of all scripts. -/
def decimalDigits : List Char := zeros.flatMap fun z => span z 10

/-- The letters that are digits in base sixteen. -/
def letters : List Char := span 'a'.toNat 6 ++ span 'A'.toNat 6

theorem mem_decimalDigits (h : digit? c = some d) : c ∈ decimalDigits := by
  rw [digit?, Option.map_eq_some_iff] at h
  obtain ⟨z, hfind, -⟩ := h
  have hrange := List.find?_some hfind
  simp only [Bool.and_eq_true, decide_eq_true_eq] at hrange
  exact List.mem_flatMap.mpr ⟨z, List.mem_of_find?_eq_some hfind, mem_span hrange.1 hrange.2⟩

theorem mem_letters_or_of_hexDigit? (h : hexDigit? c = some d) :
    c ∈ letters ∨ digit? c = some d := by
  rw [hexDigit?] at h
  split at h
  · next hsmall =>
    exact .inl (List.mem_append_left _ (mem_span hsmall.1 (Nat.lt_succ_of_le hsmall.2)))
  · split at h
    · next hcapital =>
      exact .inl (List.mem_append_right _ (mem_span hcapital.1 (Nat.lt_succ_of_le hcapital.2)))
    · exact .inr h

theorem plain_of_hexDigit? (h : hexDigit? c = some d) :
    isBlank c = false ∧ c ∉ ['+', '-', 'x', 'X'] := by
  have hall : ∀ c ∈ letters ++ decimalDigits, isBlank c = false ∧ c ∉ ['+', '-', 'x', 'X'] :=
    forall_mem_of_all (by decide +kernel)
  rcases mem_letters_or_of_hexDigit? h with hc | hc
  · exact hall c (List.mem_append_left _ hc)
  · exact hall c (List.mem_append_right _ (mem_decimalDigits hc))

theorem digit?_underscore : digit? '_' = none := by decide

theorem hexDigit?_underscore : hexDigit? '_' = none := by decide

theorem hexDigit?_of_digit? (h : digit? c = some d) : hexDigit? c = some d := by
  have hall : ∀ c ∈ decimalDigits, ¬ ('a' ≤ c ∧ c ≤ 'f') ∧ ¬ ('A' ≤ c ∧ c ≤ 'F') :=
    forall_mem_of_all (by decide +kernel)
  have hletter := hall c (mem_decimalDigits h)
  rw [hexDigit?, if_neg hletter.1, if_neg hletter.2, h]

theorem mem_span_or_toUpper_eq (c : Char) : c ∈ span 'a'.toNat 26 ∨ c.toUpper = c := by
  by_cases hsmall : 'a' ≤ c ∧ c ≤ 'z'
  · exact .inl (mem_span hsmall.1 (Nat.lt_succ_of_le hsmall.2))
  · exact .inr (dif_neg hsmall)

theorem hexDigit?_toUpper (c : Char) : hexDigit? c.toUpper = hexDigit? c := by
  have hall : ∀ c ∈ span 'a'.toNat 26, hexDigit? c.toUpper = hexDigit? c :=
    forall_mem_of_all (by decide +kernel)
  rcases mem_span_or_toUpper_eq c with hsmall | hsame
  · exact hall c hsmall
  · rw [hsame]

theorem toUpper_eq_underscore_iff (c : Char) : c.toUpper = '_' ↔ c = '_' := by
  have hall : ∀ c ∈ span 'a'.toNat 26, c.toUpper = '_' ↔ c = '_' :=
    forall_mem_of_all (by decide +kernel)
  rcases mem_span_or_toUpper_eq c with hsmall | hsame
  · exact hall c hsmall
  · rw [hsame]

/-- Characters that are read alike make up the same number. -/
theorem number?_map {f : Char → Char} (hdigit : ∀ c, digitOf (f c) = digitOf c)
    (hplain : ∀ c, f c = '_' ↔ c = '_') (before : Nat) (cs : List Char) :
    number? base digitOf before (cs.map f) = number? base digitOf before cs := by
  fun_induction number? base digitOf before cs with
  | case1 => rfl
  | case2 before c rest hd => rw [List.map_cons, number?, hdigit, hd]
  | case3 before c d hd => rw [List.map_cons, List.map_nil, number?, hdigit, hd]
  | case4 before c d hd rest ih =>
    rw [List.map_cons, List.map_cons, (hplain '_').mpr rfl, number?, hdigit, hd]
    exact ih
  | case5 before c d hd c' rest hc' ih =>
    have hne : f c' ≠ '_' := fun h => hc' ((hplain c').mp h)
    rw [List.map_cons, number?_cons ((hdigit c).trans hd) (by simp) (by simp [hne])]
    exact ih

/-! ### Numbers -/

/-- A number in base ten: so many digits at most. -/
def IsDecimal (cs : List Char) (m : Nat) : Prop :=
  ∃ ds, Row digit? cs ds ∧ ds.length ≤ digitLimit ∧ m = Nat.ofDigits 10 ds.reverse

/-- What may stand before the digits of a number in base sixteen: nothing, or a zero and an `x`,
which an underscore may follow. -/
inductive Mark : List Char → Prop
  | none : Mark []
  | plain {z x : Char} : digit? z = some 0 → x = 'x' ∨ x = 'X' → Mark [z, x]
  | spaced {z x : Char} : digit? z = some 0 → x = 'x' ∨ x = 'X' → Mark [z, x, '_']

/-- A number in base sixteen, with or without its mark. -/
def IsHexadecimal (cs : List Char) (m : Nat) : Prop :=
  ∃ mark digits ds, cs = mark ++ digits ∧ Mark mark ∧ Row hexDigit? digits ds ∧
    m = Nat.ofDigits 16 ds.reverse

theorem decimalNumber?_eq_some_iff : decimalNumber? cs = some m ↔ IsDecimal cs m := by
  constructor
  · intro h
    rw [decimalNumber?] at h
    split at h
    · cases h
    · next hlimit =>
      obtain ⟨ds, hrow, hm⟩ := (number?_eq_some_iff digit?_underscore).mp h
      rw [hrow.countP_eq digit?_underscore] at hlimit
      exact ⟨ds, hrow, Nat.le_of_not_lt hlimit, hm⟩
  · rintro ⟨ds, hrow, hlimit, hm⟩
    rw [decimalNumber?, hrow.countP_eq digit?_underscore, if_neg (Nat.not_lt_of_le hlimit)]
    exact (number?_eq_some_iff digit?_underscore).mpr ⟨ds, hrow, hm⟩

theorem exists_mark (cs : List Char) : ∃ mark, Mark mark ∧ cs = mark ++ dropMark cs := by
  unfold dropMark
  split
  · next z x rest =>
    split
    · next hmark =>
      split
      · exact ⟨[z, x, '_'], .spaced hmark.1 hmark.2, rfl⟩
      · exact ⟨[z, x], .plain hmark.1 hmark.2, rfl⟩
    · exact ⟨[], .none, rfl⟩
  · exact ⟨[], .none, rfl⟩

theorem dropMark_append {mark : List Char} (hmark : Mark mark) (hrow : Row hexDigit? cs ds) :
    dropMark (mark ++ cs) = cs := by
  cases hmark with
  | none =>
    -- the second character is no `x`, so that nothing goes
    have hplain : ∀ c ∈ cs, c ≠ 'x' ∧ c ≠ 'X' := by
      intro c hc
      rcases hrow.mem c hc with rfl | ⟨d, hd⟩
      · decide
      · have hd' := (plain_of_hexDigit? hd).2
        simp only [List.mem_cons, not_or] at hd'
        exact ⟨hd'.2.2.1, hd'.2.2.2.1⟩
    rw [List.nil_append]
    unfold dropMark
    split
    · next z x rest =>
      have hx := hplain x (by simp)
      rw [if_neg (by simp [hx])]
    · rfl
  | plain hz hx =>
    -- the row begins with a digit, so that no underscore goes with the mark
    obtain ⟨c, d, rest, rfl, hd⟩ := hrow.exists_first
    have hc : c ≠ '_' := by
      rintro rfl
      rw [hexDigit?_underscore] at hd
      cases hd
    simp only [dropMark, List.cons_append, List.nil_append, hz, hx, and_self, if_true]
    split
    · next heq => exact absurd (List.cons.inj heq).1 hc
    · rfl
  | spaced hz hx => simp [dropMark, hz, hx]

theorem hexadecimalNumber?_eq_some_iff : hexadecimalNumber? cs = some m ↔ IsHexadecimal cs m := by
  constructor
  · intro h
    obtain ⟨mark, hmark, hcs⟩ := exists_mark cs
    obtain ⟨ds, hrow, hm⟩ := (number?_eq_some_iff hexDigit?_underscore).mp h
    exact ⟨mark, dropMark cs, ds, hcs, hmark, hrow, hm⟩
  · rintro ⟨mark, digits, ds, rfl, hmark, hrow, hm⟩
    rw [hexadecimalNumber?, dropMark_append hmark hrow]
    exact (number?_eq_some_iff hexDigit?_underscore).mpr ⟨ds, hrow, hm⟩

/-! ### Integers -/

/-- The signs that may stand before a number, and what they make of it. -/
def signs : List (List Char × Int) := [([], 1), (['+'], 1), (['-'], -1)]

/-- An integer: a number with maybe a sign in front, and blanks around it. -/
def Denotes (IsNumber : List Char → Nat → Prop) (cs : List Char) (n : Int) : Prop :=
  ∃ front sign digits back m, sign ∈ signs ∧ cs = front ++ (sign.1 ++ digits) ++ back ∧
    (∀ c ∈ front, isBlank c = true) ∧ (∀ c ∈ back, isBlank c = true) ∧
    IsNumber digits m ∧ n = sign.2 * m

/-- A text begins and ends with digits. -/
structure Solid (cs : List Char) : Prop where
  first : ∃ c d rest, cs = c :: rest ∧ hexDigit? c = some d
  last : ∃ front c d, cs = front ++ [c] ∧ hexDigit? c = some d

theorem Row.solid (h : Row hexDigit? cs ds) : Solid cs := by
  obtain ⟨c, d, rest, hfirst, hd⟩ := h.exists_first
  obtain ⟨front, c', d', hlast, hd'⟩ := h.exists_last
  exact ⟨⟨c, d, rest, hfirst, hd⟩, ⟨front, c', d', hlast, hd'⟩⟩

theorem IsDecimal.solid (h : IsDecimal cs m) : Solid cs := by
  obtain ⟨ds, hrow, -, -⟩ := h
  exact (hrow.mono fun _ _ => hexDigit?_of_digit?).solid

theorem IsHexadecimal.solid (h : IsHexadecimal cs m) : Solid cs := by
  obtain ⟨mark, digits, ds, rfl, hmark, hrow, -⟩ := h
  have hdigits := hrow.solid
  obtain ⟨front, c, d, hlast, hd⟩ := hdigits.last
  refine ⟨?_, ⟨mark ++ front, c, d, by rw [hlast, List.append_assoc], hd⟩⟩
  cases hmark with
  | none => exact hdigits.first
  | plain hz _ => exact ⟨_, _, _, rfl, hexDigit?_of_digit? hz⟩
  | spaced hz _ => exact ⟨_, _, _, rfl, hexDigit?_of_digit? hz⟩

theorem exists_strip (cs : List Char) : ∃ front back, cs = front ++ strip cs ++ back ∧
    (∀ c ∈ front, isBlank c = true) ∧ ∀ c ∈ back, isBlank c = true := by
  have hback : cs.dropWhile isBlank =
      strip cs ++ ((cs.dropWhile isBlank).reverse.takeWhile isBlank).reverse := by
    rw [strip, ← List.reverse_append, List.takeWhile_append_dropWhile, List.reverse_reverse]
  refine ⟨cs.takeWhile isBlank, ((cs.dropWhile isBlank).reverse.takeWhile isBlank).reverse, ?_,
    fun c hc => ?_, fun c hc => ?_⟩
  · rw [List.append_assoc, ← hback, List.takeWhile_append_dropWhile]
  · exact List.mem_takeWhile_imp hc
  · exact List.mem_takeWhile_imp (List.mem_reverse.mp hc)

/-- Blanks are taken away up to the first and from the last character that is none. -/
theorem strip_append {front back : List Char} (hfront : ∀ c ∈ front, isBlank c = true)
    (hback : ∀ c ∈ back, isBlank c = true)
    (hfirst : ∃ c rest, cs = c :: rest ∧ isBlank c = false)
    (hlast : ∃ rest c, cs = rest ++ [c] ∧ isBlank c = false) :
    strip (front ++ cs ++ back) = cs := by
  obtain ⟨c, rest, hcs, hc⟩ := hfirst
  obtain ⟨rest', c', hcs', hc'⟩ := hlast
  have hdrop : (front ++ cs ++ back).dropWhile isBlank = cs ++ back := by
    rw [List.append_assoc, List.dropWhile_append_of_pos hfront, hcs, List.cons_append,
      List.dropWhile_cons_of_neg (by simp [hc])]
  have hreverse : ∀ c ∈ back.reverse, isBlank c = true := fun c hc =>
    hback c (List.mem_reverse.mp hc)
  rw [strip, hdrop, List.reverse_append, List.dropWhile_append_of_pos hreverse, hcs',
    List.reverse_append, List.reverse_singleton, List.singleton_append,
    List.dropWhile_cons_of_neg (by simp [hc'])]
  simp

section Signed

variable {read : List Char → Option Nat} {IsNumber : List Char → Nat → Prop} {i : Int}
  {text : String}

theorem signed?_append {sign : List Char × Int} (hsign : sign ∈ signs) (hcs : Solid cs)
    (hm : read cs = some m) : signed? read (sign.1 ++ cs) = some (sign.2 * m) := by
  obtain ⟨c, d, rest, rfl, hd⟩ := hcs.first
  have hc := (plain_of_hexDigit? hd).2
  simp only [List.mem_cons, not_or] at hc
  simp only [signs, List.mem_cons, List.not_mem_nil, or_false] at hsign
  rcases hsign with rfl | rfl | rfl
  · rw [List.nil_append]
    unfold signed?
    split
    · next heq => exact absurd (List.cons.inj heq).1 hc.2.1
    · next heq => exact absurd (List.cons.inj heq).1 hc.1
    · simp [hm]
  · simp [signed?, hm]
  · simp [signed?, hm]

theorem exists_sign (h : signed? read cs = some i) :
    ∃ sign ∈ signs, ∃ digits m, cs = sign.1 ++ digits ∧ read digits = some m ∧
      i = sign.2 * m := by
  have hread : ∀ {rest : List Char} {factor : Int} {f : Int → Int}, (∀ k, f k = factor * k) →
      ((do let m ← read rest; pure (m : Int)).map f = some i) →
      ∃ m, read rest = some m ∧ i = factor * (m : Int) := by
    intro rest factor f hf hmap
    cases hm : read rest with
    | none => simp [hm] at hmap
    | some m => exact ⟨m, rfl, by simpa [hm, hf, eq_comm] using hmap⟩
  unfold signed? at h
  split at h
  · next rest =>
    obtain ⟨m, hm, hi⟩ : ∃ m, read rest = some m ∧ i = -1 * (m : Int) := hread (by simp) h
    exact ⟨(['-'], -1), by simp [signs], rest, m, rfl, hm, hi⟩
  · next rest =>
    obtain ⟨m, hm, hi⟩ : ∃ m, read rest = some m ∧ i = 1 * (m : Int) := hread (by simp) h
    exact ⟨(['+'], 1), by simp [signs], rest, m, rfl, hm, hi⟩
  · obtain ⟨m, hm, hi⟩ : ∃ m, read cs = some m ∧ i = 1 * (m : Int) := hread (by simp) h
    exact ⟨([], 1), by simp [signs], cs, m, rfl, hm, hi⟩

/-- An integer is read from a text exactly if the text is a number with maybe a sign in front and
blanks around it. -/
theorem signed?_strip_eq_some_iff (hread : ∀ cs m, read cs = some m ↔ IsNumber cs m)
    (hsolid : ∀ cs m, IsNumber cs m → Solid cs) :
    signed? read (strip cs) = some i ↔ Denotes IsNumber cs i := by
  constructor
  · intro h
    obtain ⟨front, back, hcs, hfront, hback⟩ := exists_strip cs
    obtain ⟨sign, hsign, digits, m, hstrip, hm, hi⟩ := exists_sign h
    rw [hstrip] at hcs
    exact ⟨front, sign, digits, back, m, hsign, hcs, hfront, hback, (hread _ _).mp hm, hi⟩
  · rintro ⟨front, sign, digits, back, m, hsign, rfl, hfront, hback, hm, rfl⟩
    have hdigits := hsolid digits m hm
    obtain ⟨last, c, d, hlast, hd⟩ := hdigits.last
    have hfirst : ∃ c rest, sign.1 ++ digits = c :: rest ∧ isBlank c = false := by
      obtain ⟨c, d, rest, hdigit, hd⟩ := hdigits.first
      simp only [signs, List.mem_cons, List.not_mem_nil, or_false] at hsign
      rcases hsign with rfl | rfl | rfl
      · exact ⟨c, rest, hdigit, (plain_of_hexDigit? hd).1⟩
      · exact ⟨'+', digits, rfl, by decide⟩
      · exact ⟨'-', digits, rfl, by decide⟩
    have hlast' : ∃ rest c, sign.1 ++ digits = rest ++ [c] ∧ isBlank c = false :=
      ⟨sign.1 ++ last, c, by rw [hlast, List.append_assoc], (plain_of_hexDigit? hd).1⟩
    rw [strip_append hfront hback hfirst hlast',
      signed?_append hsign hdigits ((hread _ _).mpr hm)]

/-- **What is read as an integer in base ten is written as one.** -/
theorem decimal?_eq_some_iff : decimal? text = some i ↔ Denotes IsDecimal text.toList i :=
  signed?_strip_eq_some_iff (fun _ _ => decimalNumber?_eq_some_iff) fun _ _ => IsDecimal.solid

/-- **What is read as an integer in base sixteen is written as one.** -/
theorem hexadecimal?_eq_some_iff :
    hexadecimal? text = some i ↔ Denotes IsHexadecimal text.toList i :=
  signed?_strip_eq_some_iff (fun _ _ => hexadecimalNumber?_eq_some_iff) fun _ _ =>
    IsHexadecimal.solid

theorem denotes_of_isNumber (h : IsNumber cs m) : Denotes IsNumber cs m :=
  ⟨[], ([], 1), cs, [], m, by simp [signs], by simp, by simp, by simp, h, by simp⟩

/-- Besides its digits an integer in base ten has blanks, signs and underscores. -/
theorem Denotes.mem_of_isDecimal (h : Denotes IsDecimal cs i) :
    ∀ c ∈ cs, isBlank c = true ∨ c ∈ ['+', '-', '_'] ∨ ∃ d, digit? c = some d := by
  obtain ⟨front, sign, digits, back, m, hsign, rfl, hfront, hback, ⟨ds, hrow, -, -⟩, -⟩ := h
  intro c hc
  rw [List.mem_append, List.mem_append, List.mem_append] at hc
  rcases hc with (hc | hc | hc) | hc
  · exact .inl (hfront c hc)
  · have hall : ∀ sign ∈ signs, sign.1.all (fun c => decide (c ∈ ['+', '-', '_'])) = true := by
      decide
    exact .inr (.inl (forall_mem_of_all (hall sign hsign) c hc))
  · rcases hrow.mem c hc with rfl | hd
    · exact .inr (.inl (by decide))
    · exact .inr (.inr hd)
  · exact .inl (hback c hc)

theorem Denotes.countP_le (h : Denotes IsDecimal cs i) :
    cs.countP (fun c => (digit? c).isSome) ≤ digitLimit := by
  obtain ⟨front, sign, digits, back, m, hsign, rfl, hfront, hback, ⟨ds, hrow, hlimit, -⟩, -⟩ := h
  have hblank : ∀ {cs : List Char}, (∀ c ∈ cs, isBlank c = true) →
      cs.countP (fun c => (digit? c).isSome) = 0 := by
    intro cs hcs
    refine List.countP_eq_zero.mpr fun c hc hsome => ?_
    obtain ⟨d, hd⟩ := Option.isSome_iff_exists.mp hsome
    have hnone := (plain_of_hexDigit? (hexDigit?_of_digit? hd)).1
    rw [hcs c hc] at hnone
    cases hnone
  have hnosign : ∀ sign ∈ signs, sign.1.countP (fun c => (digit? c).isSome) = 0 := by decide
  have hdigits : digits.countP (fun c => (digit? c).isSome) = ds.length := by
    rw [← hrow.countP_eq digit?_underscore]
    refine List.countP_congr fun c hc => ?_
    rcases hrow.mem c hc with rfl | ⟨d, hd⟩
    · decide
    · have hc' : c ≠ '_' := by
        rintro rfl
        rw [digit?_underscore] at hd
        cases hd
      simp [hd, hc']
  rw [List.countP_append, List.countP_append, List.countP_append, hblank hfront, hblank hback,
    hnosign sign hsign, hdigits]
  omega

end Signed

end Chip8.Numeral
