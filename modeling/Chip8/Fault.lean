import Chip8.Text.Hex

/-!
# What can go wrong

A `Fault` is a fatal error of an executing program: its cause, and the address and the word of the
instruction it struck, once these are known.  An `Error` is any failure that the machine reports to
its host.  Errors form families, so that a host may treat all loading failures alike:

* every failure of the machine
  * loading: the program does not fit
  * execution: memory, call stack, instruction group
  * halted: a step was asked of a machine that has faulted

An instruction without a meaning is not in this list: it is skipped over and logged.
-/

namespace Chip8

/-- Why an instruction, or a host's access to memory, cannot be carried out. -/
inductive Cause
  /-- Some of the `length` bytes from `access` lie outside the address space. -/
  | memoryOutOfRange (access length : Int)
  /-- A call with a call stack that holds all it can. -/
  | stackOverflow (capacity : Int)
  | stackUnderflow
  /-- The execution unit has no handler for the group of this word. -/
  | unrecognizedGroup (word : Int)
  /-- A reason in a host's own words. -/
  | described (message : String)
  deriving DecidableEq, Repr

/-- The wording of a cause.  A single byte is named by its address, a range by both its ends. -/
def Cause.message : Cause → String
  | memoryOutOfRange access length =>
    if length = 1 then "memory access out of range at " ++ Hex.address access
    else "memory access out of range at " ++ Hex.address access ++ "-" ++
      Hex.address (access + length - 1)
  | stackOverflow capacity =>
    "stack overflow: call stack already holds " ++ toString capacity ++ " entries"
  | stackUnderflow => "stack underflow: return with an empty call stack"
  | unrecognizedGroup word => "unrecognized primary opcode group " ++ Hex.padded 0 (word / 4096)
  | described message => message

/-- A cause and, once known, the address and the word of the instruction it struck. -/
structure Fault where
  cause : Cause
  address : Option Int := none
  word : Option Int := none
  deriving DecidableEq, Repr

namespace Fault

def locate (fault : Fault) (address word : Option Int) : Fault :=
  { fault with address, word }

/-- The wording of a fault: the place, as far as it is known, and the cause. -/
def message (fault : Fault) : String :=
  match fault.address, fault.word with
  | none, _ => fault.cause.message
  | some address, none => Hex.address address ++ ": " ++ fault.cause.message
  | some address, some word =>
    Hex.address address ++ " (" ++ Hex.padded 4 word ++ "): " ++ fault.cause.message

end Fault

/-- A failure that the machine reports to its host. -/
inductive Error
  /-- A failure in a host's own words. -/
  | general (message : String)
  /-- A loading failure in a host's own words. -/
  | loading (message : String)
  /-- A program of `size` bytes where only `capacity` bytes are free. -/
  | loadTooLarge (size capacity : Int)
  /-- A fatal error of the executing program. -/
  | execution (fault : Fault)
  /-- A step was asked of a machine that stopped for the given reason. -/
  | halted (reason : Option Error)
  deriving Repr

def Error.message : Error → String
  | general message => message
  | loading message => message
  | loadTooLarge size capacity =>
    "program is " ++ toString size ++ " bytes but only " ++ toString capacity ++
      " bytes are available"
  | execution fault => fault.message
  | halted none => "emulator is halted; reset required"
  | halted (some reason) => "emulator is halted (" ++ reason.message ++ "); reset required"

inductive Family
  | machine
  | loading
  | loadTooLarge
  | execution
  | memoryOutOfRange
  | stackOverflow
  | stackUnderflow
  | unrecognizedGroup
  | halted
  deriving DecidableEq, Repr

/-- The family that a family belongs to; that of all failures belongs to none. -/
def Family.parent? : Family → Option Family
  | machine => none
  | loading => some machine
  | loadTooLarge => some loading
  | execution => some machine
  | memoryOutOfRange => some execution
  | stackOverflow => some execution
  | stackUnderflow => some execution
  | unrecognizedGroup => some execution
  | halted => some machine

/-- How many families stand above a family. -/
def Family.depth : Family → Nat
  | machine => 0
  | loading | execution | halted => 1
  | _ => 2

theorem Family.depth_parent {f p : Family} (h : f.parent? = some p) : p.depth < f.depth := by
  cases f <;> simp [Family.parent?] at h <;> subst h <;> decide

/-- A family and all families above it, the nearest first. -/
def Family.lineage (f : Family) : List Family :=
  match _h : f.parent? with
  | none => [f]
  | some p => f :: p.lineage
  termination_by f.depth
  decreasing_by exact Family.depth_parent _h

def Cause.family : Cause → Family
  | memoryOutOfRange .. => .memoryOutOfRange
  | stackOverflow .. => .stackOverflow
  | stackUnderflow => .stackUnderflow
  | unrecognizedGroup .. => .unrecognizedGroup
  | described .. => .execution

def Error.family : Error → Family
  | general .. => .machine
  | loading .. => .loading
  | loadTooLarge .. => .loadTooLarge
  | execution fault => fault.cause.family
  | halted .. => .halted

end Chip8
