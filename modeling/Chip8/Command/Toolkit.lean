import Chip8.Command.Arguments
import Chip8.Command.Session

/-!
# A toolkit

A toolkit that reads arguments in the usual way.  Once all options are known ones, asking for the
version or for help takes the place of everything else.  Then the options that were given are
checked in the order in which they first came up, next the file, and last of all that there are no
more arguments.

* `OptionSpec.read`: the value that a text is for an option.
* `Arguments.check`: what the arguments of a command come to, or what is wrong with them.
* `Toolkit.standard`: the toolkit.
-/

namespace Chip8.Command

/-! ### Reading values -/

/-- The value that a text is for an option. -/
def OptionSpec.read (spec : OptionSpec) (w : Workspace) (text : String) :
    Except UsageError Value :=
  match spec.kind with
  | .flag => .ok .flag
  | .text => .ok (.text text)
  | .integer =>
    match Numeral.decimal? text with
    | some n => .ok (.number n)
    | none => .error (.invalidValue spec.hint ("'" ++ text ++ "' is not a valid integer."))
  | .atLeast bound =>
    match Numeral.decimal? text with
    | some n =>
      if bound ≤ n then .ok (.number n)
      else .error (.invalidValue spec.hint
        (toString n ++ " is not in the range x>=" ++ toString bound ++ "."))
    | none => .error (.invalidValue spec.hint ("'" ++ text ++ "' is not a valid integer range."))
  | .outputFile =>
    if w.status text = .directory then
      .error (.invalidValue spec.hint ("File '" ++ text ++ "' is a directory."))
    else .ok (.path (Path.tidy text))

namespace Arguments

/-- The path of the file to read, which is the first positional argument. -/
def inputFile (a : Arguments) (p : Program) (w : Workspace) : Except UsageError String :=
  let hint := "'" ++ p.argument ++ "'"
  match a.positional with
  | [] => .error (.missingArgument p.argument)
  | path :: _ =>
    match w.status path with
    | .file _ => .ok path
    | .directory => .error (.invalidValue hint ("File '" ++ path ++ "' is a directory."))
    | _ => .error (.invalidValue hint ("File '" ++ path ++ "' does not exist."))

def refuseMore (a : Arguments) : Except UsageError Unit :=
  match a.positional.tail with
  | [] => .ok ()
  | extra => .error (.extraArguments extra)

/-- The options that were given, as far as their values can be read. -/
def settings (a : Arguments) (w : Workspace) : List Setting :=
  a.options.filterMap fun g => (g.spec.read w g.value).toOption.map (Setting.mk g.spec)

/-- What the arguments of a command come to.  Only the last value of an option has to be one that
can be read. -/
def check (a : Arguments) (p : Program) (w : Workspace) : Except UsageError Settings := do
  a.options.forM fun g => discard (g.spec.read w (a.current g))
  let input ← a.inputFile p w
  a.refuseMore
  return ⟨input, a.settings w⟩

end Arguments

namespace Program

/-! ### Help -/

def usageLine (p : Program) : String :=
  "Usage: " ++ p.name ++ " [OPTIONS] " ++ p.argument ++ "\n"

def help (p : Program) : String :=
  p.usageLine ++ "\n  " ++ p.summary ++ "\n\nOptions:\n" ++
    String.join (p.allOptions.map fun spec =>
      "  " ++ (match spec.short with
        | some c => "-" ++ c.toString ++ ", "
        | none => "") ++ "--" ++ spec.long ++ "\n")

def reminder (p : Program) : String :=
  p.usageLine ++ "Try '" ++ p.name ++ " --help' for help.\n\n"

/-- The report of a command whose arguments are wrong. -/
def misused (p : Program) (e : UsageError) : Report :=
  ⟨2, { err := (if e.remindsOfUsage then p.reminder else "") ++
    Text.plain ("Error: " ++ e.message ++ "\n") }⟩

/-- The report of a command that is asked for its version or for help. -/
def answer? (p : Program) (a : Arguments) : Option Report :=
  (a.options.find? fun g => g.spec == versionOption || g.spec == helpOption).map fun g =>
    ⟨0, { out := if g.spec = versionOption then p.name ++ ", version " ++ version ++ "\n"
      else p.help }⟩

/-- Reads the arguments of a command. -/
def read (p : Program) (arguments : List String) (w : Workspace) : Except Report Settings :=
  match Arguments.parse p.allOptions arguments with
  | .error e => .error (p.misused e)
  | .ok a =>
    match p.answer? a with
    | some report => .error report
    | none => (a.check p w).mapError p.misused

/-- The paths whose status a command may ask for. -/
def paths (p : Program) (arguments : List String) : List String :=
  match Arguments.parse p.allOptions arguments with
  | .error _ => []
  | .ok a =>
    let written := (a.options.filter fun g => g.spec.kind == .outputFile).map Given.value
    (a.positional ++ written).flatMap fun path => [path, Path.tidy path, Path.parent path]

end Program

/-- A toolkit that reads arguments in the usual way. -/
def Toolkit.standard : Toolkit := ⟨Program.read, Text.plain⟩

end Chip8.Command
