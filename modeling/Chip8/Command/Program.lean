import Chip8.Command.Workspace
import Chip8.Text.Numeral

/-!
# Commands and what they are set to

A command reads one file and has some options.  Its arguments are read by a toolkit, which hands
over the path of the file and what each option is set to.

* `Kind`, `OptionSpec`, `Program`: options, and commands as they are declared.
* `Settings`: what the arguments of a command come to.
-/

namespace Chip8.Command

/-- What an option takes behind its name. -/
inductive Kind
  | flag
  | text
  | integer
  | atLeast (bound : Int)
  /-- The path of a file to write. -/
  | outputFile
  deriving DecidableEq, Repr

structure OptionSpec where
  long : String
  short : Option Char
  kind : Kind
  deriving DecidableEq, Repr

/-- The option that shows the version of a command. -/
def versionOption : OptionSpec := ⟨"version", none, .flag⟩

def helpOption : OptionSpec := ⟨"help", none, .flag⟩

def version : String := "1.0.0"

/-- A command: its name, its argument, what it is for, and its options, each of which can be told
from the others by its long name. -/
structure Program where
  name : String
  argument : String
  summary : String
  options : List OptionSpec
  names_nodup : ((options ++ [versionOption, helpOption]).map OptionSpec.long).Nodup
  isName : ∀ spec ∈ options, spec.long ≠ "" ∧ '=' ∉ spec.long.toList

/-- All options of a command, its own ones first. -/
def Program.allOptions (p : Program) : List OptionSpec := p.options ++ [versionOption, helpOption]

/-! ### What options are set to -/

inductive Value
  | flag
  | text (text : String)
  | number (n : Int)
  | path (path : String)
  deriving DecidableEq, Repr

namespace Value

def text? : Value → Option String
  | text t => some t
  | _ => none

def number? : Value → Option Int
  | number n => some n
  | _ => none

def path? : Value → Option String
  | path p => some p
  | _ => none

end Value

structure Setting where
  spec : OptionSpec
  value : Value
  deriving DecidableEq, Repr

/-- The path of the file that a command reads, and its options as they were set one by one. -/
structure Settings where
  input : String
  options : List Setting
  deriving DecidableEq, Repr

namespace Settings

/-- The values of an option, one after the other. -/
def values (s : Settings) (spec : OptionSpec) : List Value :=
  (s.options.filter fun setting => setting.spec == spec).map Setting.value

def texts (s : Settings) (spec : OptionSpec) : List String := (s.values spec).filterMap Value.text?

/-- What an option is set to, as it is taken; of several values the last counts. -/
def last? {α : Type} (s : Settings) (take : Value → Option α) (spec : OptionSpec) : Option α :=
  ((s.values spec).filterMap take).getLast?

def text? (s : Settings) : OptionSpec → Option String := s.last? Value.text?

def number? (s : Settings) : OptionSpec → Option Int := s.last? Value.number?

def path? (s : Settings) : OptionSpec → Option String := s.last? Value.path?

def has (s : Settings) (spec : OptionSpec) : Bool := !(s.values spec).isEmpty

end Settings

end Chip8.Command
