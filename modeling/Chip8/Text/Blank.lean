import Chip8.Text.Numeral

/-!
# Blanks at the end of a text

A blank is a space of any script or a character that only moves on, from line to line or from record
to record.

* `Text.trimEnd`: a text without the blanks at its end.
* `Text.trimEnd_append`: **blanks behind a text that does not end with one are all that goes.**
-/

namespace Chip8.Text

/-- Blanks; besides those around integers there are the four that separate records. -/
def isBlank (c : Char) : Bool := Numeral.isBlank c || (0x1C ≤ c.toNat && c.toNat ≤ 0x1F)

def trimEnd (text : String) : String :=
  String.ofList (text.toList.reverse.dropWhile isBlank).reverse

/-- The last character of a text is no blank. -/
def EndsBare (text : String) : Prop := text.toList.getLast?.any (fun c => !isBlank c) = true

instance (text : String) : Decidable (EndsBare text) :=
  inferInstanceAs (Decidable (text.toList.getLast?.any (fun c => !isBlank c) = true))

theorem endsBare_iff {text : String} :
    EndsBare text ↔ ∃ front c, text.toList = front ++ [c] ∧ isBlank c = false := by
  rw [EndsBare, Option.any_eq_true]
  constructor
  · rintro ⟨c, hlast, hc⟩
    obtain ⟨front, htext⟩ := List.getLast?_eq_some_iff.mp hlast
    exact ⟨front, c, htext, by simpa using hc⟩
  · rintro ⟨front, c, htext, hc⟩
    exact ⟨c, List.getLast?_eq_some_iff.mpr ⟨front, htext⟩, by simp [hc]⟩

theorem EndsBare.append {text text' : String} (h : EndsBare text') : EndsBare (text ++ text') := by
  obtain ⟨front, c, htext, hc⟩ := endsBare_iff.mp h
  exact endsBare_iff.mpr
    ⟨text.toList ++ front, c, by rw [String.toList_append, htext, List.append_assoc], hc⟩

theorem endsBare_of_forall {text : String} (hne : text.toList ≠ [])
    (h : ∀ c ∈ text.toList, isBlank c = false) : EndsBare text :=
  endsBare_iff.mpr ⟨text.toList.dropLast, text.toList.getLast hne,
    (List.dropLast_concat_getLast hne).symm, h _ (List.getLast_mem hne)⟩

theorem trimEnd_append {text blanks : String} (htext : EndsBare text)
    (hblanks : ∀ c ∈ blanks.toList, isBlank c = true) : trimEnd (text ++ blanks) = text := by
  obtain ⟨front, c, hlast, hc⟩ := endsBare_iff.mp htext
  have hreverse : ∀ c ∈ blanks.toList.reverse, isBlank c = true := fun c hmem =>
    hblanks c (List.mem_reverse.mp hmem)
  rw [trimEnd, String.toList_append, List.reverse_append,
    List.dropWhile_append_of_pos hreverse, hlast, List.reverse_append, List.reverse_singleton,
    List.singleton_append, List.dropWhile_cons_of_neg (by simp [hc]), List.reverse_cons,
    List.reverse_reverse, ← hlast, String.ofList_toList]

theorem trimEnd_of_endsBare {text : String} (h : EndsBare text) : trimEnd text = text := by
  have hnone : trimEnd (text ++ "") = text := trimEnd_append h (by simp)
  rwa [String.append_empty] at hnone

end Chip8.Text
