import Chip8.Text.Hex
import Chip8.Text.Printable

/-!
# Quoted text

Messages that show a text as it was given put it in quotes: single ones, or double ones if the text
holds single quotes and no double quote.  The quote itself and the backslash are escaped by a
backslash, and characters that are not printable by their code points.
-/

namespace Chip8.Quoted

/-- The small digits of a code point, filled with zeros to a width. -/
def code (width : Nat) (c : Char) : List Char := (Nat.toDigits 16 c.toNat).leftpad width '0'

def escape (quote : Char) (c : Char) : List Char :=
  if c = quote ∨ c = '\\' then ['\\', c]
  else if c = '\n' then ['\\', 'n']
  else if c = '\r' then ['\\', 'r']
  else if c = '\t' then ['\\', 't']
  else if Text.isPrintable c then [c]
  else if c.toNat < 0x100 then '\\' :: 'x' :: code 2 c
  else if c.toNat < 0x10000 then '\\' :: 'u' :: code 4 c
  else '\\' :: 'U' :: code 8 c

def quoteFor (cs : List Char) : Char := if '\'' ∈ cs ∧ '"' ∉ cs then '"' else '\''

def quote (text : String) : String :=
  let cs := text.toList
  let q := quoteFor cs
  String.ofList (q :: cs.flatMap (escape q) ++ [q])

end Chip8.Quoted
