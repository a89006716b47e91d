/-!
# Plain text

A terminal takes some sequences of characters as orders to change its color or move its cursor: an
escape, an opening bracket, any number of parameters and a letter.  Whatever a command prints is
plain, without such orders, wherever it took its texts from; an escape that begins no full sequence
stays.

* `Text.plain`: a text without the control sequences in it.
-/

namespace Chip8.Text

def escape : Char := '\x1b'

/-- The characters that may stand between the bracket and the letter. -/
def isParameter (c : Char) : Bool := c.isDigit || c == ';' || c == '?'

/-- What follows the rest of a control sequence, if that is what comes behind an escape. -/
def afterControl? : List Char → Option (List Char)
  | '[' :: cs =>
    match cs.dropWhile isParameter with
    | c :: rest => if c.isAlpha then some rest else none
    | [] => none
  | _ => none

theorem length_afterControl?_lt {cs rest : List Char} (h : afterControl? cs = some rest) :
    rest.length < cs.length := by
  unfold afterControl? at h
  split at h
  · rename_i cs
    have hle := (List.dropWhile_sublist (l := cs) isParameter).length_le
    split at h
    · rename_i c tail heq
      rw [heq, List.length_cons] at hle
      split at h
      · cases h
        rw [List.length_cons]
        exact Nat.lt_succ_of_lt hle
      · cases h
    · cases h
  · cases h

/-- A text without its control sequences, which are found from left to right. -/
def dropControls : List Char → List Char
  | [] => []
  | c :: cs =>
    if c = escape then
      match _h : afterControl? cs with
      | some rest => dropControls rest
      | none => c :: dropControls cs
    else c :: dropControls cs
termination_by cs => cs.length
decreasing_by
  · exact Nat.lt_succ_of_lt (length_afterControl?_lt ‹_›)
  · exact Nat.lt_succ_self _
  · exact Nat.lt_succ_self _

def plain (text : String) : String :=
  if escape ∈ text.toList then String.ofList (dropControls text.toList) else text

end Chip8.Text
