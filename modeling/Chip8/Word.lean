/-!
# Bytes and words

A word is sixteen bits wide and stands in memory with its high byte first.  Integers of any size
enter the machine by their low bits.

* `Word.ofBytes`: the word of two bytes; `Word.high` and `Word.low` take it apart again.
-/

namespace Chip8

/-- An address of the 4096 bytes of memory: the low twelve bits of a word. -/
abbrev Address := Fin 4096

namespace Word

/-- The word of a high and a low byte. -/
def ofBytes (high low : UInt8) : UInt16 := UInt16.ofNat (high.toNat * 256 + low.toNat)

def high (w : UInt16) : UInt8 := UInt8.ofNat (w.toNat / 256)

def low (w : UInt16) : UInt8 := UInt8.ofNat w.toNat

def ofAddress (a : Address) : UInt16 := UInt16.ofNat a

/-- The bytes of a word in the order of memory. -/
def bytes (w : UInt16) : List UInt8 := [high w, low w]

/-- An integer as four bits, if it has no more. -/
def nibble? (n : Int) : Option (Fin 16) :=
  if h : 0 ≤ n ∧ n < 16 then some ⟨n.toNat, by omega⟩ else none

/-- A number that a host can hand in as an index has sixty-four bits, one of them for its sign. -/
def IsIndex (n : Int) : Prop := -0x8000000000000000 ≤ n ∧ n < 0x8000000000000000

instance (n : Int) : Decidable (IsIndex n) := inferInstanceAs (Decidable (_ ∧ _))

/-- The wording of the refusal of a wider number. -/
def indexWidthMessage : String := "cannot fit 'int' into an index-sized integer"

theorem toNat_ofInt (n : Int) : ((UInt8.ofInt n).toNat : Int) = n % 256 := by
  show (((n % 256).toNat % 256 : Nat) : Int) = n % 256
  omega

theorem ofInt_toNat (b : UInt8) : UInt8.ofInt (b.toNat : Int) = b := by
  have := b.toNat_lt
  have := toNat_ofInt b.toNat
  apply UInt8.toNat_inj.mp
  omega

theorem toNat_ofBytes (high low : UInt8) :
    (ofBytes high low).toNat = high.toNat * 256 + low.toNat := by
  have := high.toNat_lt
  have := low.toNat_lt
  simp only [ofBytes, UInt16.toNat_ofNat']
  omega

@[simp]
theorem high_ofBytes (a b : UInt8) : high (ofBytes a b) = a := by
  have := a.toNat_lt
  have := b.toNat_lt
  apply UInt8.toNat_inj.mp
  simp only [high, toNat_ofBytes, UInt8.toNat_ofNat']
  omega

@[simp]
theorem low_ofBytes (a b : UInt8) : low (ofBytes a b) = b := by
  have := a.toNat_lt
  have := b.toNat_lt
  apply UInt8.toNat_inj.mp
  simp only [low, toNat_ofBytes, UInt8.toNat_ofNat']
  omega

@[simp]
theorem ofBytes_high_low (w : UInt16) : ofBytes (high w) (low w) = w := by
  have := w.toNat_lt
  apply UInt16.toNat_inj.mp
  simp only [toNat_ofBytes, high, low, UInt8.toNat_ofNat']
  omega

end Word

end Chip8
