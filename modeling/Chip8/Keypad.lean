import Chip8.Word

/-!
# The keypad

Sixteen keys are held or not.  A press is an update that holds a key that was not held; the keypad
counts presses and remembers the latest one, so that a reader can tell a fresh press from a key
that has been down all along.  A host names keys by the left block of its keyboard:

```text
1 2 3 C        1 2 3 4
4 5 6 D        Q W E R
7 8 9 E        A S D F
A 0 B F        Z X C V
```
-/

namespace Chip8

abbrev Key := Fin 16

/-- Which keys are held, how many presses there were, and which came last. -/
structure Keypad where
  held : Vector Bool 16
  presses : Nat
  lastPress : Option Key
  deriving DecidableEq

namespace Keypad

inductive Error
  | index (given : Int)
  | name (given : String)
  deriving DecidableEq, Repr

/-- The keys of the host's keyboard, row by row. -/
def keyNames : List (Char × Key) :=
  [('1', 0x1), ('2', 0x2), ('3', 0x3), ('4', 0xC),
   ('Q', 0x4), ('W', 0x5), ('E', 0x6), ('R', 0xD),
   ('A', 0x7), ('S', 0x8), ('D', 0x9), ('F', 0xE),
   ('Z', 0xA), ('X', 0x0), ('C', 0xB), ('V', 0xF)]

def Error.message : Error → String
  | index given => "Key index must be 0-15, got " ++ toString given
  | name given =>
    "Unknown key '" ++ given ++ "'. Valid keys: " ++
      ", ".intercalate (keyNames.map fun k => k.1.toString)

/-- A keypad that was never touched. -/
def released : Keypad := ⟨Vector.replicate 16 false, 0, none⟩

def reset (pad : Keypad) : Keypad :=
  { pad with held := Vector.replicate 16 false, presses := 0, lastPress := none }

/-! ### Naming keys -/

/-- The capital of a letter, as far as the names of keys need it: besides the small letters of
ASCII, only the long s has a capital among them. -/
def capital (c : Char) : Char := if c = 'ſ' then 'S' else c.toUpper

def keyOfIndex (index : Int) : Except Error Key :=
  match Word.nibble? index with
  | some key => .ok key
  | none => .error (.index index)

/-- The key with the given name, whose letter may be small or capital. -/
def keyOfName (name : String) : Except Error Key :=
  match name.toList with
  | [c] =>
    match keyNames.lookup (capital c) with
    | some key => .ok key
    | none => .error (.name name)
  | _ => .error (.name name)

/-! ### Updates -/

/-- Notes that a key is held now, or is not; holding a key that was not held is a press. -/
def update (pad : Keypad) (key : Key) (hold : Bool) : Keypad :=
  if hold && !pad.held[key] then ⟨pad.held.set key true, pad.presses + 1, some key⟩
  else { pad with held := pad.held.set key hold }

def setKey (pad : Keypad) (index : Int) (hold : Bool) : Except Error Keypad :=
  (keyOfIndex index).map (pad.update · hold)

def keyDown (pad : Keypad) (name : String) : Except Error Keypad :=
  (keyOfName name).map (pad.update · true)

def keyUp (pad : Keypad) (name : String) : Except Error Keypad :=
  (keyOfName name).map (pad.update · false)

/-! ### Reading -/

def isHeld (pad : Keypad) (key : Key) : Bool := pad.held[key]

/-- Whether the key with the given index is held. -/
def isPressed (pad : Keypad) (index : Int) : Except Error Bool := (keyOfIndex index).map pad.isHeld

def pressedKeys (pad : Keypad) : List Key := (List.finRange 16).filter pad.isHeld

theorem held_update (pad : Keypad) (key other : Key) (hold : Bool) :
    (pad.update key hold).held[other] = if other = key then hold else pad.held[other] := by
  have hval : (key : Nat) = (other : Nat) ↔ other = key :=
    ⟨fun e => (Fin.ext e).symm, fun e => congrArg Fin.val e.symm⟩
  unfold update
  split
  · next h =>
    simp only [Bool.and_eq_true] at h
    simp [Vector.getElem_set, hval, h.1]
  · simp [Vector.getElem_set, hval]

end Keypad

end Chip8
