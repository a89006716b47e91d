import Chip8.Proofs.Text.Numerals
import Chip8.Text.Plain

/-!
# The characters of a text

A text that is put together has the characters of its parts and no others.  So a character that none
of the parts has is not in it: a text without escapes is plain, and what does not hold some letter
holds no sentence with it.

* `mem_of_mem_intercalate`: the characters of texts with a separator between them.
* `Text.Lacks`: a character is not in a text, and how this goes on to texts that are put together.
* `Text.lacks_padded`, `Text.lacks_toString`: numerals have the characters of their alphabet only.
* `Text.plain_of_lacks`: **what lacks escapes is printed as it is.**
-/

namespace Chip8

theorem mem_of_mem_intercalate {α : Type} {c : α} {separator : List α} {texts : List (List α)}
    (hc : c ∈ separator.intercalate texts) : c ∈ separator ∨ ∃ text ∈ texts, c ∈ text := by
  induction texts with
  | nil => cases hc
  | cons text texts ih =>
    cases texts with
    | nil => exact .inr ⟨text, List.mem_singleton_self text, by simpa using hc⟩
    | cons next texts =>
      rw [List.intercalate_cons_cons, List.append_assoc, List.mem_append, List.mem_append] at hc
      rcases hc with hc | hc | hc
      · exact .inr ⟨text, List.mem_cons_self, hc⟩
      · exact .inl hc
      · rcases ih hc with hseparator | ⟨t, ht, hct⟩
        · exact .inl hseparator
        · exact .inr ⟨t, List.mem_cons_of_mem text ht, hct⟩

namespace Text

variable {c : Char} {text text' : String} {texts : List String}

/-- The character is not in the text. -/
def Lacks (text : String) (c : Char) : Prop := c ∉ text.toList

instance (text : String) (c : Char) : Decidable (Lacks text c) :=
  inferInstanceAs (Decidable (c ∉ text.toList))

theorem Lacks.append (h : Lacks text c) (h' : Lacks text' c) : Lacks (text ++ text') c := by
  rw [Lacks, String.toList_append, List.mem_append, not_or]
  exact ⟨h, h'⟩

theorem Lacks.join (h : ∀ text ∈ texts, Lacks text c) : Lacks (String.join texts) c := by
  rw [Lacks, String.toList_join, List.mem_flatMap]
  rintro ⟨text, htext, hc⟩
  exact h text htext hc

theorem Lacks.intercalate {separator : String} (hseparator : Lacks separator c)
    (h : ∀ text ∈ texts, Lacks text c) : Lacks (separator.intercalate texts) c := by
  rw [Lacks, String.toList_intercalate]
  intro hc
  rcases mem_of_mem_intercalate hc with hc | ⟨cs, hcs, hc⟩
  · exact hseparator hc
  · obtain ⟨text, htext, rfl⟩ := List.mem_map.mp hcs
    exact h text htext hc

theorem lacks_padded (h : c ∉ Hex.alphabet) (width : Nat) (n : Int) :
    Lacks (Hex.padded width n) c := fun hc => h (Hex.mem_padded hc)

theorem notMem_toDigits (h : c ∉ Hex.alphabet) (n : Nat) : c ∉ Nat.toDigits 10 n := by
  have hall : ∀ d < 10, d.digitChar ∈ Hex.alphabet := by decide
  intro hc
  obtain ⟨d, hd, rfl⟩ := exists_digitChar_of_mem_toDigits (by decide) hc
  exact h (hall d hd)

theorem lacks_toString_natCast (h : c ∉ Hex.alphabet) (n : Nat) : Lacks (toString n) c := by
  rw [Lacks, Nat.toString_eq_repr, Nat.toList_repr]
  exact notMem_toDigits h n

theorem lacks_toString (h : c ∉ Hex.alphabet) (n : Int) : Lacks (toString n) c := by
  cases n with
  | ofNat n => exact lacks_toString_natCast h n
  | negSucc n =>
    have hminus : Lacks "-" c := by
      rintro hc
      obtain rfl := List.mem_singleton.mp hc
      exact h (by decide)
    exact hminus.append (lacks_toString_natCast h (n + 1))

/-- **What lacks escapes is printed as it is.** -/
theorem plain_of_lacks (h : Lacks text escape) : plain text = text := if_neg h

end Text

end Chip8
