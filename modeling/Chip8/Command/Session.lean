import Chip8.Command.Program
import Chip8.Fault
import Chip8.Log
import Chip8.Text.Plain

/-!
# The course of a command

A command prints to two streams, writes files, and may fail on the way; what it has printed by then
stays printed.  Log lines and files keep every character; all else is printed by a toolkit, which
makes plain text of it.  The exit code tells how it went: 0 for success, 1 for a failure of the
machine, 2 for arguments or files that are no good, 3 for anything unexpected.

* `Toolkit`: how the arguments of a command are read, and what becomes of a text that is printed.
* `Session`: a part of a command.
* `Report.ofSession`: what a command leaves behind.
-/

namespace Chip8.Command

inductive Failure
  | machine (e : Error)
  | request (message : String)
  | unexpected (message : String)

namespace Failure

def exitCode : Failure → Nat
  | machine _ => 1
  | request _ => 2
  | unexpected _ => 3

/-- What a failed command prints last.  A verbose one shows where something unexpected came up; of
a failure that is only reported there is nothing to show. -/
def text (verbose : Bool) (failure : Failure) (plain : String → String := Text.plain) : String :=
  match failure with
  | machine e => plain ("Error: " ++ e.message ++ "\n")
  | request message => plain ("Error: " ++ message ++ "\n")
  | unexpected message =>
    plain ("Internal error: " ++ message ++ "\n") ++ if verbose then "NoneType: None\n" else ""

/-- The failure to open a file: a path that leads nowhere is the fault of who asked for it. -/
def ofFile (e : FileError) : Failure :=
  match e.reason with
  | .missing => .request e.message
  | _ => .unexpected e.message

end Failure

/-- What a command has printed, and the files that it has created or changed. -/
structure Transcript where
  out : String := ""
  err : String := ""
  written : List (String × Content) := []

/-- What a command leaves behind. -/
structure Report where
  exitCode : Nat
  transcript : Transcript

/-- What commands are built with.  Arguments may set the options of a command, or else they end it
with a report: of its version, say, or of what is wrong with them. -/
structure Toolkit where
  read : Program → List String → Workspace → Except Report Settings
  /-- A text as it is printed. -/
  plain : String → String

/-- A part of a command: it goes on from a transcript, and may fail. -/
abbrev Session (α : Type) := ExceptT Failure (StateM Transcript) α

namespace Toolkit

def print (kit : Toolkit) (text : String) : Session Unit :=
  modify fun t => { t with out := t.out ++ kit.plain text }

/-- Prints a line to the stream for errors and notes. -/
def note (kit : Toolkit) (line : String) : Session Unit :=
  modify fun t => { t with err := t.err ++ kit.plain (line ++ "\n") }

def noteIf (kit : Toolkit) (verbose : Bool) (line : String) : Session Unit :=
  if verbose then kit.note line else pure ()

end Toolkit

namespace Session

/-- Prints a line of a log as it is to the stream for errors and notes. -/
def logLine (line : String) : Session Unit :=
  modify fun t => { t with err := t.err ++ line ++ "\n" }

/-- Prints the lines of a log that are to be shown. -/
def showLog (verbose : Bool) (log : List LogLine) : Session Unit :=
  (log.filter (·.isShown verbose)).forM fun line => logLine (line.render verbose)

/-- Goes on with an answer, or fails. -/
def orFail {ε α : Type} (answer : Except ε α) (failure : ε → Failure) : Session α :=
  match answer with
  | .ok a => pure a
  | .error e => throw (failure e)

/-- Writes a file, which changes nothing if the file holds the same already. -/
def write (w : Workspace) (path : String) (content : Content) : Session Unit :=
  match w.refusal? path with
  | some e => throw (.ofFile e)
  | none =>
    if (w.status path).holds content then pure ()
    else modify fun t => { t with written := t.written ++ [(path, content)] }

end Session

/-- What a command is given. -/
structure Request where
  arguments : List String
  workspace : Workspace
  environment : List (String × String)
  /-- A number that differs from run to run. -/
  entropy : Int

namespace Report

/-- The report of a session that was run to its end. -/
def ofSession (kit : Toolkit) (verbose : Bool) (session : Session Unit) : Report :=
  match (session.run).run {} with
  | (.ok (), t) => ⟨0, t⟩
  | (.error failure, t) =>
    ⟨failure.exitCode, { t with err := t.err ++ failure.text verbose kit.plain }⟩

end Report

end Chip8.Command
