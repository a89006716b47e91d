import Chip8.Fault

/-!
# The call stack

The stack holds the addresses that calls return to, the latest one on top.  A push onto a full
stack and a pop from an empty one are faults that leave the stack as it was.
-/

namespace Chip8

/-- Return addresses, the latest first, on a stack for `capacity` of them. -/
structure CallStack where
  capacity : Int
  entries : List UInt16
  deriving DecidableEq, Repr

namespace CallStack

/-- How many calls may be open at a time. -/
def standardCapacity : Int := 16

def empty (capacity : Int) : CallStack := ⟨capacity, []⟩

def depth (s : CallStack) : Nat := s.entries.length

def oldestFirst (s : CallStack) : List UInt16 := s.entries.reverse

def push (s : CallStack) (address : UInt16) : Except Cause CallStack :=
  if s.capacity ≤ s.depth then .error (.stackOverflow s.capacity)
  else .ok { s with entries := address :: s.entries }

def pop (s : CallStack) : Except Cause (UInt16 × CallStack) :=
  match s.entries with
  | [] => .error .stackUnderflow
  | address :: rest => .ok (address, { s with entries := rest })

def clear (s : CallStack) : CallStack := { s with entries := [] }

end CallStack

end Chip8
