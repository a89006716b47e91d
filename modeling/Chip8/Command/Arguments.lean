import Chip8.Command.Program

/-!
# Arguments of a command

The long name of an option is written `--name`, and its short one, if it has one, `-n`; an option
that is no flag takes a value.  A long name takes its value from behind an equals sign or from the
next argument, a short one from the rest of its argument or from the next.  Short flags may be run
together.  Everything else is positional, and so is all that follows `--`.

* `Arguments.parse`: the options that were given, in order, and the positional arguments.
-/

namespace Chip8.Command

/-- An option that is no flag takes a value. -/
def OptionSpec.takesValue (spec : OptionSpec) : Bool := spec.kind != .flag

/-- The names of an option as a message shows them. -/
def OptionSpec.hint (spec : OptionSpec) : String :=
  match spec.short with
  | some c => "'-" ++ c.toString ++ "' / '--" ++ spec.long ++ "'"
  | none => "'--" ++ spec.long ++ "'"

inductive UsageError
  | noSuchOption (name : String)
  | missingValue (name : String)
  | unexpectedValue (name : String)
  | missingArgument (name : String)
  | extraArguments (texts : List String)
  | invalidValue (hint message : String)
  deriving DecidableEq, Repr

def UsageError.message : UsageError → String
  | noSuchOption name => "No such option: " ++ name
  | missingValue name => "Option '" ++ name ++ "' requires an argument."
  | unexpectedValue name => "Option '" ++ name ++ "' does not take a value."
  | missingArgument name => "Missing argument '" ++ name ++ "'."
  | extraArguments [text] => "Got unexpected extra argument (" ++ text ++ ")"
  | extraArguments texts => "Got unexpected extra arguments (" ++ " ".intercalate texts ++ ")"
  | invalidValue hint message => "Invalid value for " ++ hint ++ ": " ++ message

/-- Whether the refusal comes with a reminder of how the command is used.  An option that lacks its
value, or has one that it does not take, is a slip that needs no reminder. -/
def UsageError.remindsOfUsage : UsageError → Bool
  | missingValue _ | unexpectedValue _ => false
  | _ => true

/-- An option as it was given; a flag has an empty value. -/
structure Given where
  spec : OptionSpec
  value : String
  deriving DecidableEq, Repr

structure Arguments where
  options : List Given := []
  positional : List String := []
  deriving DecidableEq, Repr

namespace Arguments

/-! ### One argument -/

/-- An option whose value is still to come, and its name as it was written. -/
structure Pending where
  spec : OptionSpec
  name : String

/-- What one argument gives: options, and maybe one that still lacks its value. -/
structure Reading where
  complete : List Given
  pending : Option Pending

def readShort (specs : List OptionSpec) : List Char → Except UsageError Reading
  | [] => .ok ⟨[], none⟩
  | c :: rest =>
    let shown := "-" ++ c.toString
    match specs.find? fun spec => spec.short == some c with
    | none => .error (.noSuchOption shown)
    | some spec =>
      if spec.takesValue then
        if rest.isEmpty then .ok ⟨[], some ⟨spec, shown⟩⟩
        else .ok ⟨[⟨spec, String.ofList rest⟩], none⟩
      else (readShort specs rest).map fun r => { r with complete := ⟨spec, ""⟩ :: r.complete }

/-- Splits a text before its first equals sign; the second part is missing if there is none. -/
def splitEquals (cs : List Char) : List Char × Option (List Char) :=
  (cs.takeWhile (· != '='), (cs.dropWhile (· != '=')).tail?)

/-- Reads a name behind two dashes, with or without a value behind an equals sign. -/
def readLong (specs : List OptionSpec) (cs : List Char) : Except UsageError Reading :=
  let (name, value?) := splitEquals cs
  let shown := "--" ++ String.ofList name
  match specs.find? fun spec => spec.long.toList == name with
  | none => .error (.noSuchOption shown)
  | some spec =>
    match spec.takesValue, value? with
    | true, some value => .ok ⟨[⟨spec, String.ofList value⟩], none⟩
    | true, none => .ok ⟨[], some ⟨spec, shown⟩⟩
    | false, some _ => .error (.unexpectedValue shown)
    | false, none => .ok ⟨[⟨spec, ""⟩], none⟩

/-- Reads an argument if it is an option: a dash and more. -/
def readOption? (specs : List OptionSpec) (cs : List Char) : Option (Except UsageError Reading) :=
  match cs with
  | '-' :: '-' :: name => some (readLong specs name)
  | '-' :: c :: rest => some (readShort specs (c :: rest))
  | _ => none

/-! ### All arguments -/

/-- Options in front of arguments that were read already. -/
def prepend (given : List Given) (a : Arguments) : Arguments :=
  { a with options := given ++ a.options }

def parse (specs : List OptionSpec) : List String → Except UsageError Arguments
  | [] => .ok {}
  | arg :: rest =>
    if arg = "--" then .ok { positional := rest }
    else
      match readOption? specs arg.toList with
      | none => (parse specs rest).map fun a => { a with positional := arg :: a.positional }
      | some (.error e) => .error e
      | some (.ok ⟨complete, none⟩) => (parse specs rest).map (prepend complete)
      | some (.ok ⟨complete, some ⟨spec, name⟩⟩) =>
        match rest with
        | [] => .error (.missingValue name)
        | value :: rest => (parse specs rest).map (prepend (complete ++ [⟨spec, value⟩]))

/-- The value of an option that was given; of several ones the last counts. -/
def current (a : Arguments) (g : Given) : String :=
  ((a.options.filter fun g' => g'.spec == g.spec).map Given.value).getLast?.getD g.value

end Arguments

end Chip8.Command
