import Chip8.Display.Image
import Chip8.Text.Quoted

/-!
# Files

A command reads one file and may write one.  What it needs to know of the file system is where a
path leads: to a file with its contents, to a directory, or nowhere, and in the last case why.
-/

namespace Chip8.Command

inductive Status
  | file (contents : List UInt8)
  | directory
  | missing
  /-- The path goes on behind a file. -/
  | notDirectory
  /-- The path or a name on it is longer than it may be. -/
  | nameTooLong
  deriving DecidableEq, Repr

structure Workspace where
  status : String → Status

/-! ### Paths -/

namespace Path

/-- The names on a path; empty ones and single dots lead nowhere and are left out. -/
def names (path : String) : List String :=
  (path.splitOn "/").filter fun name => name != "" && name != "."

/-- Where a path starts: at the root if it begins with slashes, else in the working directory.  Two
slashes are a root of their own, more are no other than one. -/
def root (path : String) : String :=
  match (path.toList.takeWhile (· == '/')).length with
  | 0 => ""
  | 2 => "//"
  | _ => "/"

/-- The path that follows some names from a root. -/
def join (root : String) (names : List String) : String :=
  let path := root ++ "/".intercalate names
  if path = "" then "." else path

def tidy (path : String) : String := join (root path) (names path)

def name (path : String) : String := (names path).getLast?.getD ""

/-- The path of the directory that a path's last name stands in. -/
def parent (path : String) : String := join (root path) (names path).dropLast

end Path

namespace Workspace

/-- The longest name that a file system takes, in bytes. -/
def nameLimit : Nat := 255

/-- The longest path that a file system takes, in bytes. -/
def pathLimit : Nat := 4095

/-- Follows the names of a path, from a place given by the names that lead to it.  The status of a
place tells what stands there; a step up from the top stays there, or leaves it. -/
def follow (place : List String → Status) (leave : Option (List String → Status)) :
    List String → List String → Status
  | _, [] => .directory
  | here, next :: rest =>
    if next = "" ∨ next = "." then follow place leave here rest
    else if next = ".." then
      match here, leave with
      | [], some outside => outside rest
      | _, _ => follow place leave here.dropLast rest
    else if nameLimit < next.utf8ByteSize then .nameTooLong
    else
      match place (here ++ [next]) with
      | .directory => follow place leave (here ++ [next]) rest
      | .file contents => if rest.isEmpty then .file contents else .notDirectory
      | reason => reason

/-- Above the working directory nothing is known but that the directories are there. -/
def followAbove : List String → Status := follow (fun _ => .missing) none []

/-- The directories that stand at the root of every system. -/
def rootDirectories : List String :=
  ["bin", "dev", "etc", "home", "lib", "proc", "root", "sbin", "sys", "tmp", "usr", "var"]

/-- What is known of the places below the root: some directories, and the file that is always
empty. -/
def placeBelowRoot : List String → Status
  | [name] => if name ∈ rootDirectories then .directory else .missing
  | ["dev", "null"] => .file []
  | _ => .missing

/-- What stands at a place in a directory with some files.  A directory is there as soon as a file
stands below it. -/
def placeAmong (files : List (List String × List UInt8)) (there : List String) : Status :=
  match files.lookup there with
  | some contents => .file contents
  | none => if files.any fun f => there.isPrefixOf f.1 then .directory else .missing

/-- The paths that were looked up, and nothing else. -/
def ofStatuses (known : List (String × Status)) : Workspace where
  status path := (known.lookup path).getD .missing

/-- A working directory with the given files and no others. -/
def ofFiles (files : List (String × List UInt8)) : Workspace where
  status path :=
    if pathLimit < path.utf8ByteSize then .nameTooLong
    else if path = "" then .missing
    else if Path.root path ≠ "" then follow placeBelowRoot none [] (path.splitOn "/")
    else
      follow (placeAmong (files.map fun f => (Path.names f.1, f.2))) (some followAbove) []
        (path.splitOn "/")

end Workspace

/-! ### Reading and writing -/

structure FileError where
  reason : Status
  path : String

namespace FileError

/-- The number and the text by which systems know a reason. -/
def code : Status → Nat × String
  | .directory => (21, "Is a directory")
  | .notDirectory => (20, "Not a directory")
  | .nameTooLong => (36, "File name too long")
  | _ => (2, "No such file or directory")

def message (e : FileError) : String :=
  let (number, text) := code e.reason
  "[Errno " ++ toString number ++ "] " ++ text ++ ": " ++ Quoted.quote e.path

end FileError

/-- The bytes of a file. -/
def Workspace.contents (w : Workspace) (path : String) : Except FileError (List UInt8) :=
  match w.status path with
  | .file contents => .ok contents
  | reason => .error ⟨reason, path⟩

/-- Why a file cannot be written, if it cannot. -/
def Workspace.refusal? (w : Workspace) (path : String) : Option FileError :=
  match w.status path with
  | .file _ => none
  | .missing =>
    match w.status (Path.parent path) with
    | .directory => none
    | .file _ => some ⟨.notDirectory, path⟩
    | reason => some ⟨reason, path⟩
  | reason => some ⟨reason, path⟩

inductive Content
  | text (s : String)
  | image (picture : Image)

/-- A path leads to a file that consists of a text already, byte for byte.  A picture can be kept in
many ways, so a file is never taken to hold one. -/
def Status.holds : Status → Content → Bool
  | .file contents, .text s => contents == s.toUTF8.data.toList
  | _, _ => false

end Chip8.Command
