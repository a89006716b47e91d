import Chip8.Command.Toolkit
import Chip8.Command.Value
import Chip8.Listing.Sweep

/-!
# The disassembler's command line

`c8disasm` prints the listing of a program under a heading, or writes it to a file.
-/

namespace Chip8.Command.Disassemble

def outputOption : OptionSpec := ⟨"output", some 'o', .outputFile⟩

def addressOption : OptionSpec := ⟨"address", some 'a', .text⟩

def countOption : OptionSpec := ⟨"count", some 'c', .atLeast 0⟩

def hexOption : OptionSpec := ⟨"hex", none, .flag⟩

def noBytesOption : OptionSpec := ⟨"no-bytes", none, .flag⟩

def verboseOption : OptionSpec := ⟨"verbose", some 'v', .flag⟩

def program : Program where
  name := "c8disasm"
  argument := "INPUT_FILE"
  summary := "Disassemble a CHIP-8 ROM."
  options := [outputOption, addressOption, countOption, hexOption, noBytesOption, verboseOption]
  names_nodup := by decide
  isName := by decide

structure Options where
  path : String
  contents : Except FileError (List UInt8)
  output : Option String
  address : String
  count : Option Int
  showHex : Bool
  showBytes : Bool
  verbose : Bool

/-- The options of a listing; what is not set has a default. -/
def Options.ofSettings (s : Settings) (w : Workspace) : Options where
  path := Path.tidy s.input
  contents := w.contents s.input
  output := s.path? outputOption
  address := (s.text? addressOption).getD "0x200"
  count := s.number? countOption
  showHex := s.has hexOption
  showBytes := !s.has noBytesOption
  verbose := s.has verboseOption

/-- The whole text of a listing: a heading, the bytes if asked for, and the lines. -/
def fullText (o : Options) (data : List UInt8) (address : Nat) : String :=
  let heading :=
    ["; Disassembly of " ++ Path.name o.path,
      "; Size: " ++ toString data.length ++ " bytes",
      "; Base address: " ++ Hex.address address,
      ""]
  let dump := if o.showHex then Listing.hexDump data address else []
  let listing := Listing.listing [] data address o.count o.showBytes
  let body := if listing = "" then [] else [listing]
  "\n".intercalate (heading ++ dump ++ body) ++ "\n"

section Session

variable (kit : Toolkit)

def session (o : Options) (w : Workspace) : Session Unit := do
  let address ← Session.orFail (parseAddress o.address) fun e => .request e.message
  let data ← Session.orFail o.contents .ofFile
  kit.noteIf o.verbose ("Input file: " ++ o.path ++ " (" ++ toString data.length ++ " bytes)")
  kit.noteIf o.verbose ("Base address: " ++ Hex.address address)
  let text := fullText o data address
  match o.output with
  | some path =>
    Session.write w path (.text text)
    kit.noteIf o.verbose ("Output written to: " ++ path)
  | none => kit.print text

/-- The disassembler, whatever reads its arguments. -/
def command (request : Request) : Report :=
  match kit.read program request.arguments request.workspace with
  | .error report => report
  | .ok settings =>
    let o := Options.ofSettings settings request.workspace
    .ofSession kit o.verbose (session kit o request.workspace)

end Session

def carryOut : Request → Report := command .standard

end Chip8.Command.Disassemble
